import Mathlib.Logic.Basic

/-!
# Programs that make calls

A program computes on its own between the calls it makes to the system below it.
`Prog C R α` is such a program as a tree: it ends with a result, or makes a call
and continues with the reply.  A loop is written with a bound on its rounds.

The system is a partial function from a state and a call to the state after it
and the reply; where it has no value the program never gets a reply.  `exec` runs
a program on a system that does nothing else.  Between two calls of a program
others may change the state; what they leave alone is a relation `rely`, and
`Ensures rely perform p s post` says that `p`, started in `s`, ends whatever the
others do within `rely`, and then the result and the state satisfy `post`.

* `exec_bind` — programs in sequence.
* `Simulates` — a system below a program as the program sees it.
* `Simulates.ensures` — what a program computes on the system it sees is what it
  computes on the real one, whatever the others do.
-/

namespace MongOS.Verified

universe u v w x

/-- A program with calls `C`, replies `R` and results `α`. -/
inductive Prog (C : Type u) (R α : Type v) where
  | done (a : α)
  | call (c : C) (next : R → Prog C R α)

namespace Prog

variable {C : Type u} {R α β : Type v} {S : Type w} {V : Type x}

/-- Programs in sequence. -/
def bind : Prog C R α → (α → Prog C R β) → Prog C R β
  | done a, f => f a
  | call c next, f => call c fun r => (next r).bind f

instance : Monad (Prog C R) where
  pure := done
  bind := bind

/-- The program that makes one call. -/
def make (c : C) : Prog C R R := call c done

/-- The execution of a program on its own. -/
def exec (perform : S → C → Option (S × R)) : Prog C R α → S → Option (α × S)
  | done a, s => some (a, s)
  | call c next, s =>
      (perform s c).bind fun r => exec perform (next r.2) r.1

variable {perform : S → C → Option (S × R)} {s : S}

@[simp] theorem exec_pure (a : α) :
    exec perform (pure a : Prog C R α) s = some (a, s) := rfl

/-- A call whose reply is known. -/
theorem exec_make_bind {c : C} {f : R → Prog C R β} {t : S} {r : R}
    (h : perform s c = some (t, r)) :
    exec perform (make c >>= f) s = exec perform (f r) t := by
  show (perform s c).bind _ = _
  rw [h]
  rfl

/-- Programs in sequence: the second starts where the first ends. -/
theorem exec_bind {p : Prog C R α} {f : α → Prog C R β} {a : α} {t : S}
    (h : exec perform p s = some (a, t)) :
    exec perform (p >>= f) s = exec perform (f a) t := by
  induction p generalizing s with
  | done b =>
      obtain ⟨rfl, rfl⟩ := Prod.mk.inj (Option.some.inj h)
      rfl
  | call c next ih =>
      rw [exec] at h
      obtain ⟨r, hr, hnext⟩ := Option.bind_eq_some_iff.1 h
      exact (exec_make_bind (f := fun r => next r >>= f) hr).trans (ih r.2 hnext)

/-! ## Programs among others -/

/-- The program ends whatever the others do, and its ending satisfies `post`. -/
def Ensures (rely : S → S → Prop) (perform : S → C → Option (S × R)) :
    Prog C R α → S → (α → S → Prop) → Prop
  | done a, s, post => post a s
  | call c next, s, post => ∀ t, rely s t → ∃ u r,
      perform t c = some (u, r) ∧ Ensures rely perform (next r) u post

theorem Ensures.mono {rely : S → S → Prop} {p : Prog C R α} {post post' : α → S → Prop}
    (h : Ensures rely perform p s post) (hpost : ∀ a t, post a t → post' a t) :
    Ensures rely perform p s post' := by
  induction p generalizing s with
  | done a => exact hpost a s h
  | call c next ih =>
      intro t ht
      obtain ⟨u, r, hr, hnext⟩ := h t ht
      exact ⟨u, r, hr, ih r hnext⟩

/-- The system `abs` is how a program sees the system `perform`: `sees v s` holds
of what it sees in `s`, the others do not change it, and every call that `abs`
carries out is carried out in the same way below. -/
structure Simulates (sees : V → S → Prop) (rely : S → S → Prop)
    (abs : V → C → Option (V × R)) (perform : S → C → Option (S × R)) :
    Prop where
  stable : ∀ {v s t}, sees v s → rely s t → sees v t
  call : ∀ {v s c v' r}, sees v s → abs v c = some (v', r) →
    ∃ t, perform s c = some (t, r) ∧ sees v' t

theorem Simulates.ensures {sees : V → S → Prop} {rely : S → S → Prop}
    {abs : V → C → Option (V × R)} (h : Simulates sees rely abs perform)
    {p : Prog C R α} {v v' : V} {a : α} (hs : sees v s)
    (hrun : exec abs p v = some (a, v')) :
    Ensures rely perform p s fun b t => b = a ∧ sees v' t := by
  induction p generalizing v s with
  | done b =>
      obtain ⟨rfl, rfl⟩ := Prod.mk.inj (Option.some.inj hrun)
      exact ⟨rfl, hs⟩
  | call c next ih =>
      rw [exec] at hrun
      obtain ⟨⟨w, r⟩, hr, hnext⟩ := Option.bind_eq_some_iff.1 hrun
      intro t ht
      obtain ⟨u, hu, hsees⟩ := h.call (h.stable hs ht) hr
      exact ⟨u, r, hu, ih r hsees hnext⟩

end Prog

end MongOS.Verified
