/-!
# Runs of a labelled transition system

A system is given by a step relation `step : S → E → S → Prop`: state, event,
next state.  `Run step s es t` says that the events `es`, in this order, lead
from `s` to `t`.  Runs grow at the end, so that an induction over a run ends
with the step taken last, which is the shape of every "in each reachable
state" and "whenever a step happens" statement.

* `Run.invariant` — what the start satisfies and every step keeps holds at the
  end of every run.
* `Run.simulate` — a simulation relation carries a run to a run of the
  abstract system; `Run.map` — a function does.
* `Guarded` — the steps of a system that also meet a condition on the state
  before the step; `Run.mono` forgets the condition.
* `Within`, `Run.within_iff_guarded` — the steps that end in a set of states,
  and the condition on steps under which runs stay in it.
* `follow`, `follow_guarded` — the run of an executable step function, for
  concrete traces.
-/

namespace MongOS.Verified

universe u v w

variable {S : Type u} {E : Type v}

/-- `Run step s es t`: the events `es` lead from `s` to `t`. -/
inductive Run (step : S → E → S → Prop) (s : S) : List E → S → Prop
  | nil : Run step s [] s
  | snoc {es : List E} {t u : S} {e : E} :
      Run step s es t → step t e u → Run step s (es ++ [e]) u

/-- The steps of a system whose event is allowed in the state before it. -/
def Guarded (allowed : S → E → Prop) (step : S → E → S → Prop) :
    S → E → S → Prop :=
  fun s e t => allowed s e ∧ step s e t

/-- The steps of a system that end in a state satisfying `P`. -/
def Within (P : S → Prop) (step : S → E → S → Prop) : S → E → S → Prop :=
  fun s e t => step s e t ∧ P t

namespace Run

variable {step step' : S → E → S → Prop} {s t u : S} {es es' : List E}

theorem single {e : E} (h : step s e t) : Run step s [e] t :=
  (Run.nil.snoc h : Run step s ([] ++ [e]) t)

theorem append (h : Run step s es t) (h' : Run step t es' u) :
    Run step s (es ++ es') u := by
  induction h' with
  | nil => simpa using h
  | snoc _ hstep ih =>
      rw [← List.append_assoc]
      exact ih.snoc hstep

/-- A run of a system is a run of every system that has its steps. -/
theorem mono (hsub : ∀ s e t, step s e t → step' s e t)
    (h : Run step s es t) : Run step' s es t := by
  induction h with
  | nil => exact .nil
  | snoc _ hstep ih => exact ih.snoc (hsub _ _ _ hstep)

/-- The induction rule for invariants. -/
theorem invariant (I : S → Prop) (h0 : I s)
    (hstep : ∀ s e t, I s → step s e t → I t)
    (h : Run step s es t) : I t := by
  induction h with
  | nil => exact h0
  | snoc _ hlast ih => exact hstep _ _ _ ih hlast

/-- When a step keeps an invariant and ends in `P` if it is allowed, and ends
outside `P` if it is not, then the runs through states in `P` are the runs of
allowed steps. -/
theorem within_iff_guarded {I P : S → Prop} {allowed : S → E → Prop} (h0 : I s)
    (hkeep : ∀ s e t, I s → step s e t → allowed s e → I t ∧ P t)
    (hbreak : ∀ s e t, I s → step s e t → ¬ allowed s e → ¬ P t) :
    Run (Within P step) s es t ↔ Run (Guarded allowed step) s es t := by
  constructor
  · intro h
    suffices hboth : Run (Guarded allowed step) s es t ∧ I t from hboth.1
    induction h with
    | nil => exact ⟨.nil, h0⟩
    | @snoc es t u e _ hlast ih =>
        obtain ⟨hrun, hI⟩ := ih
        have hallowed : allowed t e := Classical.byContradiction
          fun hno => hbreak t e u hI hlast.1 hno hlast.2
        exact ⟨hrun.snoc ⟨hallowed, hlast.1⟩,
          (hkeep t e u hI hlast.1 hallowed).1⟩
  · intro h
    suffices hboth : Run (Within P step) s es t ∧ I t from hboth.1
    induction h with
    | nil => exact ⟨.nil, h0⟩
    | @snoc es t u e _ hlast ih =>
        obtain ⟨hrun, hI⟩ := ih
        obtain ⟨hI', hP⟩ := hkeep t e u hI hlast.2 hlast.1
        exact ⟨hrun.snoc ⟨hlast.2, hP⟩, hI'⟩

/-- A simulation relation carries runs of the concrete system to runs of the
abstract one, event for event. -/
theorem simulate {A : Type w} {astep : A → E → A → Prop} (R : S → A → Prop)
    (hsim : ∀ s a e t, R s a → step s e t → ∃ b, astep a e b ∧ R t b)
    {a : A} (h0 : R s a) (h : Run step s es t) :
    ∃ b, Run astep a es b ∧ R t b := by
  induction h with
  | nil => exact ⟨a, .nil, h0⟩
  | snoc _ hlast ih =>
      obtain ⟨b, hrun, hR⟩ := ih
      obtain ⟨c, hstep, hRc⟩ := hsim _ _ _ _ hR hlast
      exact ⟨c, hrun.snoc hstep, hRc⟩

/-- The same for a function of the state. -/
theorem map {A : Type w} {astep : A → E → A → Prop} (f : S → A)
    (hstep : ∀ s e t, step s e t → astep (f s) e (f t)) (h : Run step s es t) :
    Run astep (f s) es (f t) := by
  induction h with
  | nil => exact .nil
  | snoc _ hlast ih => exact ih.snoc (hstep _ _ _ hlast)

end Run

/-- The state an executable step function reaches along a list of events. -/
def follow (f : S → E → Option S) : S → List E → Option S
  | s, [] => some s
  | s, e :: es => (f s e).bind fun t => follow f t es

/-- What `follow` reaches is reached by a run. -/
theorem follow_run (f : S → E → Option S) {s t : S} {es : List E}
    (h : follow f s es = some t) :
    Run (fun s e t => f s e = some t) s es t := by
  induction es generalizing s with
  | nil =>
      cases h
      exact .nil
  | cons e es ih =>
      simp only [follow, Option.bind_eq_some_iff] at h
      obtain ⟨m, hm, hrest⟩ := h
      have hfirst : Run (fun s e t => f s e = some t) s [e] m := .single hm
      exact hfirst.append (ih hrest)

/-- The same for the state computed with a default. -/
theorem follow_run_getD (f : S → E → Option S) {s d : S} {es : List E}
    (h : (follow f s es).isSome) :
    Run (fun s e t => f s e = some t) s es ((follow f s es).getD d) := by
  obtain ⟨t, ht⟩ := Option.isSome_iff_exists.1 h
  rw [ht]
  exact follow_run f ht

/-- An executable step function that refuses what is not allowed. -/
def guardStep (allowed : S → E → Prop) [∀ s e, Decidable (allowed s e)]
    (f : S → E → Option S) (s : S) (e : E) : Option S :=
  if allowed s e then f s e else none

/-- What `follow` reaches along allowed events is reached by a guarded run. -/
theorem follow_guarded {allowed : S → E → Prop}
    [∀ s e, Decidable (allowed s e)] (f : S → E → Option S) {s d : S}
    {es : List E} (h : (follow (guardStep allowed f) s es).isSome) :
    Run (Guarded allowed fun s e t => f s e = some t) s es
      ((follow (guardStep allowed f) s es).getD d) := by
  refine (follow_run_getD (guardStep allowed f) h).mono fun s e t hstep => ?_
  unfold guardStep at hstep
  split at hstep
  · exact ⟨‹_›, hstep⟩
  · cases hstep

end MongOS.Verified
