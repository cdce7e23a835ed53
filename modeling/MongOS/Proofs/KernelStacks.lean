import MongOS.Proofs.MachineTable
import MongOS.Proofs.ProcForest

/-!
# Who continues on which kernel stack

The invariant behind the process switch.  Every live process that does not run
holds a stack pointer, to activations that nobody overwrites until it is
resumed: a parent waits in its `execute`, on its own kernel stack; a process
that was preempted waits in its `pit_irq`, on its own kernel stack or, if it had
not left `execute` yet, on the one of its parent.  A base shell that has not
left `execute` may still run on the stack of whoever started it; it may not be
preempted there.

* `Grown`, `Seat` — the shape of the activations of a process.
* `Core` — the invariant of the processes that do not run.
* `CpuOk` — what the processor may be doing.
-/

namespace MongOS.Proofs.KernelStacks

open MongOS.Model
open MongOS.Verified
open MongOS.Proofs.ProcTable
open MongOS.Proofs.MachineTable
open MongOS.Proofs.ProcForest

/-! ## Shapes of stacks -/

/-- An interrupt of the end of an `execute`. -/
def interruptsEnd : Frame → Bool
  | .nested _ at_ => at_ != .code
  | _ => false

/-- The processor is in the end of an `execute`, or in an interrupt of one. -/
def InWindow : Cpu → Prop
  | .kernel _ stack at_ => at_ ≠ .code ∨ ∃ f ∈ stack, interruptsEnd f = true
  | _ => False

instance (cpu : Cpu) : Decidable (InWindow cpu) :=
  match cpu with
  | .kernel _ stack at_ =>
      inferInstanceAs
        (Decidable (at_ ≠ .code ∨ ∃ f ∈ stack, interruptsEnd f = true))
  | .user _ => inferInstanceAs (Decidable False)
  | .wild => inferInstanceAs (Decidable False)

/-- The processor executes kernel code on this block. -/
def OnBlock (b : Int) : Cpu → Prop
  | .kernel block _ _ => block = b
  | _ => False

instance (b : Int) (cpu : Cpu) : Decidable (OnBlock b cpu) :=
  match cpu with
  | .kernel block _ _ => inferInstanceAs (Decidable (block = b))
  | .user _ => inferInstanceAs (Decidable False)
  | .wild => inferInstanceAs (Decidable False)

/-- The process that these activations belong to. -/
def owner : List Frame → Option Int
  | .entry _ pid :: _ => some pid
  | .execute pid :: _ => some pid
  | _ :: stack => owner stack
  | [] => none

/-- The process whose code the processor executes. -/
def codeOf : Cpu → Option Int
  | .user pid => some pid
  | .kernel _ stack _ => owner stack
  | .wild => none

/-- Interrupts and calls have put activations on top of `base`, which continues
at `w`. -/
inductive Grown (base : List Frame) (w : Point) : List Frame → Point → Prop
  | base : Grown base w base w
  | call (n : Nat) {stack : List Frame} :
      Grown base w stack .code → Grown base w (.call n :: stack) .code
  | nested (trap : Trap) {stack : List Frame} {at_ : Point} :
      Grown base w stack at_ → Grown base w (.nested trap at_ :: stack) .code

namespace Grown

variable {base stack : List Frame} {w at_ : Point}

theorem suffix (h : Grown base w stack at_) : base <:+ stack := by
  induction h with
  | base => exact List.suffix_rfl
  | call n _ ih => exact ih.trans (List.suffix_cons _ _)
  | nested trap _ ih => exact ih.trans (List.suffix_cons _ _)

/-- In the end of `execute` nothing is on top of it. -/
theorem eq_base (h : Grown base w stack at_) (hat : at_ ≠ .code) :
    stack = base ∧ at_ = w := by
  cases h with
  | base => exact ⟨rfl, rfl⟩
  | call => exact absurd rfl hat
  | nested => exact absurd rfl hat

/-- An `execute` in its end below the other activations is a window. -/
theorem inWindow (h : Grown base w stack at_) (hw : w ≠ .code) (b : Int) :
    InWindow (.kernel b stack at_) := by
  induction h with
  | base => exact .inl hw
  | call n _ ih =>
      rcases ih with hcode | ⟨f, hf, hends⟩
      · exact absurd rfl hcode
      · exact .inr ⟨f, List.mem_cons_of_mem _ hf, hends⟩
  | nested trap hgrown ih =>
      rcases ih with hcode | ⟨f, hf, hends⟩
      · exact .inr ⟨_, List.mem_cons_self, by simpa [interruptsEnd] using hcode⟩
      · exact .inr ⟨f, List.mem_cons_of_mem _ hf, hends⟩

theorem owner_eq (h : Grown base w stack at_) : owner stack = owner base := by
  induction h with
  | base => rfl
  | call n _ ih => exact ih
  | nested trap _ ih => exact ih

end Grown

/-- Where process `q` continues: it was entered from its user code; or it has
not left `execute`, on its own kernel stack or on the one of its parent. -/
inductive Seat (parent : Int → Int) (q : Int) : Int → List Frame → Point → Prop
  | entry (trap : Trap) : Seat parent q q [.entry trap q] .code
  | own (stack : List Frame) {w : Point} (hw : w ≠ .code) :
      Seat parent q q (.execute q :: stack) w
  | child {w : Point} (hw : w ≠ .code) (hpar : parent q ≠ -1) :
      Seat parent q (parent q)
        [.execute q, .entry .syscall (parent q)] w

/-- `tss.esp0` is set, unless the end of `execute` is still to set it. -/
def TssSet (tss q : Int) (w : Point) : Prop := w ≠ .preTss → tss = stackTop q

theorem Seat.congr {parent parent' : Int → Int} {q b : Int} {base : List Frame}
    {w : Point} (h : Seat parent q b base w) (hq : parent' q = parent q) :
    Seat parent' q b base w := by
  cases h with
  | entry trap => exact .entry trap
  | own stack hw => exact .own stack hw
  | child hw hpar =>
      rw [← hq] at hpar ⊢
      exact .child hw hpar

/-- The kernel stack is the process's own or its parent's. -/
theorem Seat.block {parent : Int → Int} {q b : Int} {base : List Frame}
    {w : Point} (h : Seat parent q b base w) :
    b = q ∨ (b = parent q ∧ b ≠ -1) := by
  cases h with
  | entry => exact .inl rfl
  | own => exact .inl rfl
  | child hw hpar => exact .inr ⟨rfl, hpar⟩

theorem Seat.owner_eq {parent : Int → Int} {q b : Int} {base : List Frame}
    {w : Point} (h : Seat parent q b base w) : owner base = some q := by
  cases h with
  | entry => rfl
  | own => rfl
  | child => rfl

/-! ## The processes that do not run -/

/-- What a process holds: a block, and the activations on it. -/
abbrev Held := Int → Int × List Frame

/-- The activations of a preempted process. -/
structure Preempted (parent : Int → Int) (esp0 q : Int) (held : Int × List Frame) :
    Prop where
  intro ::
  shape : ∃ caller base w, held.2 = .pit :: caller ∧ Grown base w caller .code ∧
    Seat parent q held.1 base w ∧ TssSet esp0 q w

/-- The invariant of all processes but `a`. -/
structure Core (T : Table Sp) (mem : Int → List Frame) (chain : Tid → List Int)
    (held : Held) (a : Int) : Prop where
  forest : Forest T chain
  saved : ∀ t, ∀ q ∈ chain t, q ≠ a → T.savedEsp q = spOf (held q).1 (held q).2
  kept : ∀ t, ∀ q ∈ chain t, q ≠ a → (held q).2 <:+ mem (held q).1
  waiting : ∀ t, ∀ c ∈ chain t, T.parent c ≠ -1 →
    held (T.parent c) =
      (T.parent c, [.execute c, .entry .syscall (T.parent c)])
  preempted : ∀ t, T.running t ≠ -1 → T.running t ≠ a →
    Preempted T.parent (T.esp0 (T.running t)) (T.running t)
      (held (T.running t))

/-- All other processes on block `b` hold activations within `stack`. -/
def Within (chain : Tid → List Int) (held : Held) (a b : Int)
    (stack : List Frame) : Prop :=
  ∀ t, ∀ q ∈ chain t, q ≠ a → (held q).1 = b → (held q).2 <:+ stack

theorem Within.mono {chain : Tid → List Int} {held : Held} {a b : Int}
    {stack stack' : List Frame} (h : Within chain held a b stack)
    (hsub : stack <:+ stack') : Within chain held a b stack' :=
  fun t q hq hne hb => (h t q hq hne hb).trans hsub

namespace Core

variable {T T' : Table Sp} {mem : Int → List Frame} {chain : Tid → List Int}
  {held : Held} {a : Int}

/-- A process that does not run waits for a child, or it was preempted. -/
theorem waits_or_preempted (h : Core T mem chain held a) {t : Tid} {q : Int}
    (hq : q ∈ chain t) :
    (∃ c ∈ chain t, T.parent c = q) ∨ T.running t = q := by
  rcases (h.forest.linked t).start_or_next hq with hstart | ⟨c, hc, hpar⟩
  · exact .inr hstart.symm
  · exact .inl ⟨c, hc, hpar⟩

/-- The other processes on the block where `a` continues lie below it. -/
theorem within_seat (h : Core T mem chain held a) {u : Tid} (ha : a ∈ chain u)
    (hrun : T.running u = a) {b : Int} {base : List Frame} {w : Point}
    (hseat : Seat T.parent a b base w) : Within chain held a b base := by
  intro t q hq hne hb
  have hqpid := h.forest.ne_sentinel hq
  -- a process whose parent is `a` would be above the running one
  have hnochild : ∀ v, ∀ c ∈ chain v, T.parent c ≠ a := by
    intro v c hc heq
    have hapid := h.forest.ne_sentinel ha
    have hpar := h.forest.parent_mem hc (heq ▸ hapid)
    rw [heq] at hpar
    have hvu := h.forest.tid_unique hpar.1 ha
    subst hvu
    exact hpar.2 hrun.symm
  rcases h.waits_or_preempted hq with ⟨c, hc, rfl⟩ | hrunq
  · -- `q` waits for `c`, which can only be `a`
    have hheld := h.waiting t c hc hqpid
    rw [hheld] at hb ⊢
    have hb : T.parent c = b := hb
    cases hseat with
    | entry => exact absurd hb (hnochild t c hc)
    | own => exact absurd hb (hnochild t c hc)
    | child hw hpar =>
        have hca := h.forest.parent_inj hc ha hb hqpid
        exact hca ▸ List.suffix_rfl
  · subst hrunq
    obtain ⟨caller, base', w', -, -, hseat', -⟩ :=
      (h.preempted t hqpid hne).shape
    rw [hb] at hseat'
    exfalso
    rcases hseat'.block with hown | ⟨hpar', hbne⟩
    · -- `a` would continue on the stack of `q`, as its child
      rcases hseat.block with hown' | ⟨hpar, -⟩
      · exact hne (hown.symm.trans hown')
      · have hmem := h.forest.parent_mem ha (hpar ▸ hown ▸ hqpid)
        rw [← hpar, hown] at hmem
        have htu := h.forest.tid_unique hq hmem.1
        subst htu
        exact hmem.2 rfl
    · rcases hseat.block with hown' | ⟨hpar, -⟩
      · exact hnochild t _ hq (hpar'.symm.trans hown')
      · exact hne (h.forest.parent_inj hq ha (hpar'.symm.trans hpar)
          (hpar' ▸ hbne))

/-- New activations above those of the other processes. -/
theorem push (h : Core T mem chain held a) {b : Int} {stack : List Frame}
    (hin : Within chain held a b stack) :
    Core T (Function.update mem b stack) chain held a :=
  { h with
    kept := by
      intro t q hq hne
      by_cases hb : (held q).1 = b
      · rw [hb, Function.update_self]
        exact hin t q hq hne hb
      · rw [Function.update_of_ne hb]
        exact h.kept t q hq hne }

/-- What is on a block contains what its processes hold there. -/
theorem within_mem (h : Core T mem chain held a) (b : Int) :
    Within chain held a b (mem b) := by
  intro t q hq hne hb
  have hkept := h.kept t q hq hne
  rwa [hb] at hkept

/-- Then all processes are covered, one of them need not be. -/
theorem weaken (h : Core T mem chain held (-1)) (a : Int) :
    Core T mem chain held a :=
  { h with
    saved := fun t q hq _ => h.saved t q hq (h.forest.ne_sentinel hq)
    kept := fun t q hq _ => h.kept t q hq (h.forest.ne_sentinel hq)
    preempted := fun t hrun _ => h.preempted t hrun hrun }

/-- Only these fields of the process table matter. -/
theorem congr (h : Core T mem chain held a) (hF : Forest T' chain)
    (hrunning : T'.running = T.running) (hparent : T'.parent = T.parent)
    (hsaved : T'.savedEsp = T.savedEsp) (hesp0 : T'.esp0 = T.esp0) :
    Core T' mem chain held a where
  forest := hF
  saved := by rw [hsaved]; exact h.saved
  kept := h.kept
  waiting := by rw [hparent]; exact h.waiting
  preempted := by rw [hrunning, hparent, hesp0]; exact h.preempted

/-- `process_switch` stores the context of the running process, which is then
covered as well. -/
theorem save (h : Core T mem chain held T.head) (b : Int) {caller : List Frame}
    (hrun : T.head ≠ -1 → ∃ base w, Grown base w caller .code ∧
      Seat T.parent T.head b base w ∧ TssSet T.tssEsp0 T.head w)
    (hin : Within chain held T.head b caller) :
    Core (T.save (spOf b (.pit :: caller)) (spOf b (.pit :: caller)))
      (Function.update mem b (.pit :: caller)) chain
      (Function.update held T.head (b, .pit :: caller)) (-1) := by
  have hpush := h.push (hin.mono (List.suffix_cons .pit caller))
  refine
    { forest := h.forest.save _ _, saved := ?saved, kept := ?kept
      waiting := ?waiting, preempted := ?preempted }
  case saved =>
    intro t q hq _
    by_cases hqhead : q = T.head
    · subst hqhead
      have hrange := h.forest.range t _ hq
      have hcond : T.head > 0 ∧ T.head ≤ MAX_PROCESS := ⟨by omega, hrange.2⟩
      unfold Table.save
      rw [if_pos hcond, Function.update_self]
      exact Function.update_self ..
    · rw [(save_saved_of_ne T _ _ hqhead).1, Function.update_of_ne hqhead]
      exact h.saved t q hq hqhead
  case kept =>
    intro t q hq _
    by_cases hqhead : q = T.head
    · subst hqhead
      simp only [Function.update_self, List.suffix_rfl]
    · rw [Function.update_of_ne hqhead]
      exact hpush.kept t q hq hqhead
  case waiting =>
    intro t c hc hpar
    rw [save_parent] at hpar ⊢
    rw [Function.update_of_ne (h.forest.parent_ne_head hc hpar)]
    exact h.waiting t c hc hpar
  case preempted =>
    intro t hrunning _
    rw [save_running] at hrunning ⊢
    rw [save_parent]
    by_cases hqhead : T.running t = T.head
    · rw [hqhead] at hrunning ⊢
      obtain ⟨base, w, hgrown, hseat, htss⟩ := hrun hrunning
      have hmem := h.forest.running_mem (t := T.cur) hrunning
      have hrange := h.forest.range T.cur _ hmem
      have hcond : T.head > 0 ∧ T.head ≤ MAX_PROCESS := ⟨by
        have hone : 1 ≤ T.head := hrange.1
        omega, hrange.2⟩
      have hesp0 : (T.save (spOf b (.pit :: caller))
          (spOf b (.pit :: caller))).esp0 T.head = T.tssEsp0 := by
        unfold Table.save
        rw [if_pos hcond]
        exact Function.update_self ..
      rw [hesp0, Function.update_self]
      exact ⟨caller, base, w, rfl, hgrown, hseat, htss⟩
    · have hesp0 : (T.save (spOf b (.pit :: caller))
          (spOf b (.pit :: caller))).esp0 (T.running t) =
          T.esp0 (T.running t) := by
        unfold Table.save
        split
        · exact Function.update_of_ne hqhead ..
        · rfl
      rw [hesp0, Function.update_of_ne hqhead]
      exact h.preempted t hrunning hqhead

/-- A new process runs on top of `stack`.  Its parent, if there is one, waits
for it in `execute`. -/
theorem spawn (h : Core T mem chain held T.head) {i : Nat}
    (hfree : T.lowestFree = some i) (b : Int) {stack : List Frame}
    (hin : Within chain held T.head b stack)
    (hcaller : T.head ≠ -1 → b = T.head ∧ stack = [.entry .syscall T.head]) :
    Core (T.spawn ((i : Int) + 1) (spOf b (.execute 0 :: stack))
        (spOf b (.execute 0 :: stack)))
      (Function.update mem b (.execute ((i : Int) + 1) :: stack))
      (Function.update chain T.cur (((i : Int) + 1) :: chain T.cur))
      (Function.update held T.head (b, .execute ((i : Int) + 1) :: stack))
      ((i : Int) + 1) := by
  have hpush := h.push
    (hin.mono (List.suffix_cons (.execute ((i : Int) + 1)) stack))
  have hbit : (i : Int) + 1 - 1 = i := by omega
  have hfresh : ∀ t, (i : Int) + 1 ∉ chain t :=
    h.forest.free_notMem (by rw [hbit]; exact (lowestFree_some hfree).2)
  -- a process other than the new one is an old one
  have hold : ∀ t q, q ∈ Function.update chain T.cur
      (((i : Int) + 1) :: chain T.cur) t → q ≠ (i : Int) + 1 → q ∈ chain t := by
    intro t q hq hne
    rcases mem_push.1 hq with ⟨rfl, -⟩ | hmem
    · exact absurd rfl hne
    · exact hmem
  refine
    { forest := h.forest.spawn hfree _ _, saved := ?saved, kept := ?kept
      waiting := ?waiting, preempted := ?preempted }
  case saved =>
    intro t q hq hne
    have hmem := hold t q hq hne
    by_cases hqhead : q = T.head
    · subst hqhead
      have hsaved := (spawn_saved_self T ((i : Int) + 1)
        (spOf b (.execute 0 :: stack)) (spOf b (.execute 0 :: stack))
        (h.forest.ne_sentinel hmem)).1
      rw [hsaved, Function.update_self]
      rfl
    · rw [(spawn_saved_of_ne T _ _ _ hqhead).1, Function.update_of_ne hqhead]
      exact h.saved t q hmem hqhead
  case kept =>
    intro t q hq hne
    have hmem := hold t q hq hne
    by_cases hqhead : q = T.head
    · subst hqhead
      simp only [Function.update_self, List.suffix_rfl]
    · rw [Function.update_of_ne hqhead]
      exact hpush.kept t q hmem hqhead
  case waiting =>
    intro t c hc hpar
    rw [spawn_parent] at hpar ⊢
    by_cases hnew : c = (i : Int) + 1
    · subst hnew
      rw [Function.update_self] at hpar ⊢
      obtain ⟨rfl, rfl⟩ := hcaller hpar
      exact Function.update_self ..
    · have hmem := hold t c hc hnew
      rw [Function.update_of_ne hnew] at hpar ⊢
      rw [Function.update_of_ne (h.forest.parent_ne_head hmem hpar)]
      exact h.waiting t c hmem hpar
  case preempted =>
    intro t hrunning hne
    rw [spawn_running] at hrunning hne ⊢
    by_cases ht : t = T.cur
    · subst ht
      rw [Function.update_self] at hne
      exact absurd rfl hne
    · rw [Function.update_of_ne ht] at hrunning hne ⊢
      have hmem := h.forest.running_mem hrunning
      have hnothead : T.running t ≠ T.head := by
        intro heq
        have hrun : T.head ≠ -1 := heq ▸ hrunning
        have hcur : T.head ∈ chain T.cur := h.forest.running_mem hrun
        exact ht (h.forest.tid_unique hmem (heq ▸ hcur))
      rw [spawn_parent, spawn_esp0, Function.update_of_ne hnothead,
        Function.update_of_ne hne]
      obtain ⟨caller, base, w, hheld, hgrown, hseat, htss⟩ :=
        (h.preempted t hrunning hnothead).shape
      exact ⟨caller, base, w, hheld, hgrown,
        hseat.congr (Function.update_of_ne hne ..), htss⟩

/-- The running process ends, and its parent is the one that need not be
covered. -/
theorem leave (h : Core T mem chain held T.head) {rest : List Int}
    (hchain : chain T.cur = T.head :: rest) :
    Core T.leave mem (Function.update chain T.cur rest) held
      (T.parent T.head) := by
  have hF := h.forest.leave hchain
  have hhead : T.head ∈ chain T.cur := by simp [hchain]
  have hne : ∀ t, ∀ q ∈ Function.update chain T.cur rest t, q ≠ T.head := by
    rintro t q hq rfl
    have ht := h.forest.tid_unique (mem_pop hchain hq) hhead
    rw [ht, Function.update_self] at hq
    have hnodup := h.forest.nodup T.cur
    rw [hchain] at hnodup
    exact (List.nodup_cons.1 hnodup).1 hq
  refine
    { forest := hF, saved := ?saved, kept := ?kept, waiting := ?waiting
      preempted := ?preempted }
  case saved =>
    exact fun t q hq _ => h.saved t q (mem_pop hchain hq) (hne t q hq)
  case kept =>
    exact fun t q hq _ => h.kept t q (mem_pop hchain hq) (hne t q hq)
  case waiting =>
    exact fun t c hc hpar => h.waiting t c (mem_pop hchain hc) hpar
  case preempted =>
    intro t hrunning hnot
    rw [leave_running] at hrunning hnot ⊢
    by_cases ht : t = T.cur
    · subst ht
      rw [Function.update_self] at hnot
      exact absurd rfl hnot
    · rw [Function.update_of_ne ht] at hrunning hnot ⊢
      have hnothead : T.running t ≠ T.head := by
        intro heq
        have hmem := h.forest.running_mem hrunning
        exact ht (h.forest.tid_unique hmem (heq ▸ hhead))
      exact h.preempted t hrunning hnothead

end Core

/-! ## The processor -/

/-- What the processor may be doing: user code of the running process; kernel
code of it, where it has its seat; the end of the `execute` of a base shell, on
the stack of whoever started it; or the idle loop of `entry`. -/
inductive CpuOk (T : Table Sp) (chain : Tid → List Int) (held : Held) : Cpu → Prop
  | user (hrun : T.head ≠ -1) (hpde : T.pde = PDE_ST + T.head - 1)
      (htss : T.tssEsp0 = stackTop T.head) : CpuOk T chain held (.user T.head)
  | seated {b : Int} {base stack : List Frame} {w at_ : Point}
      (hrun : T.head ≠ -1) (hpde : T.pde = PDE_ST + T.head - 1)
      (htss : TssSet T.tssEsp0 T.head w) (hgrown : Grown base w stack at_)
      (hseat : Seat T.parent T.head b base w) :
      CpuOk T chain held (.kernel b stack at_)
  | guest {b : Int} {below stack : List Frame} {w at_ : Point}
      (hrun : T.head ≠ -1) (hpde : T.pde = PDE_ST + T.head - 1)
      (htss : TssSet T.tssEsp0 T.head w)
      (hgrown : Grown (.execute T.head :: below) w stack at_) (hw : w ≠ .code)
      (hbase : T.parent T.head = -1)
      (hin : Within chain held T.head b (.execute T.head :: below)) :
      CpuOk T chain held (.kernel b stack at_)
  | boot {stack : List Frame} {at_ : Point} (hidle : ∀ t, T.running t = -1)
      (hgrown : Grown [.boot] .code stack at_) :
      CpuOk T chain held (.kernel 1 stack at_)

/-- The invariant of the machine. -/
structure Inv (M : Machine (Table Sp)) (chain : Tid → List Int) (held : Held) :
    Prop where
  core : Core M.k M.mem chain held M.k.head
  cpu : CpuOk M.k chain held M.cpu

section Processor

variable {T : Table Sp} {mem : Int → List Frame} {chain : Tid → List Int}
  {held : Held} {b : Int} {stack : List Frame} {at_ : Point}

/-- What the other processes hold on the current block lies below. -/
theorem CpuOk.within (h : CpuOk T chain held (.kernel b stack at_))
    (hcore : Core T mem chain held T.head) :
    Within chain held T.head b stack := by
  cases h with
  | seated hrun hpde htss hgrown hseat =>
      have hmem := hcore.forest.running_mem (t := T.cur) hrun
      exact (hcore.within_seat hmem rfl hseat).mono hgrown.suffix
  | guest hrun hpde htss hgrown hw hbase hin => exact hin.mono hgrown.suffix
  | boot hidle hgrown =>
      intro t q hq
      rw [hcore.forest.chain_nil (hidle t)] at hq
      cases hq

/-- A call or an interrupt. -/
theorem CpuOk.call (h : CpuOk T chain held (.kernel b stack .code)) (n : Nat) :
    CpuOk T chain held (.kernel b (.call n :: stack) .code) := by
  cases h with
  | seated hrun hpde htss hgrown hseat =>
      exact .seated hrun hpde htss (hgrown.call n) hseat
  | guest hrun hpde htss hgrown hw hbase hin =>
      exact .guest hrun hpde htss (hgrown.call n) hw hbase hin
  | boot hidle hgrown => exact .boot hidle (hgrown.call n)

theorem CpuOk.nested (h : CpuOk T chain held (.kernel b stack at_))
    (trap : Trap) :
    CpuOk T chain held (.kernel b (.nested trap at_ :: stack) .code) := by
  cases h with
  | seated hrun hpde htss hgrown hseat =>
      exact .seated hrun hpde htss (hgrown.nested trap) hseat
  | guest hrun hpde htss hgrown hw hbase hin =>
      exact .guest hrun hpde htss (hgrown.nested trap) hw hbase hin
  | boot hidle hgrown => exact .boot hidle (hgrown.nested trap)

/-- A return leads back to the code that was called from. -/
theorem CpuOk.unwind (h : CpuOk T chain held (.kernel b stack .code)) {cpu : Cpu}
    (hunwind : Machine.unwind b stack = some cpu) : CpuOk T chain held cpu := by
  cases h with
  | seated hrun hpde htss hgrown hseat =>
      cases hgrown with
      | base =>
          cases hseat with
          | entry trap =>
              cases hunwind
              exact .user hrun hpde (htss (by decide))
          | own stack hw => exact absurd rfl hw
          | child hw hpar => exact absurd rfl hw
      | call n hgrown =>
          cases hunwind
          exact .seated hrun hpde htss hgrown hseat
      | nested trap hgrown =>
          cases hunwind
          exact .seated hrun hpde htss hgrown hseat
  | guest hrun hpde htss hgrown hw hbase hin =>
      cases hgrown with
      | base => exact absurd rfl hw
      | call n hgrown =>
          cases hunwind
          exact .guest hrun hpde htss hgrown hw hbase hin
      | nested trap hgrown =>
          cases hunwind
          exact .guest hrun hpde htss hgrown hw hbase hin
  | boot hidle hgrown =>
      cases hgrown with
      | base => cases hunwind
      | call n hgrown =>
          cases hunwind
          exact .boot hidle hgrown
      | nested trap hgrown =>
          cases hunwind
          exact .boot hidle hgrown

/-- Kernel code of a process can return. -/
theorem CpuOk.returns (h : CpuOk T chain held (.kernel b stack .code))
    (hrun : T.head ≠ -1) : ∃ cpu, Machine.unwind b stack = some cpu := by
  cases h with
  | seated hrun hpde htss hgrown hseat =>
      cases hgrown with
      | base =>
          cases hseat with
          | entry trap => exact ⟨_, rfl⟩
          | own stack hw => exact absurd rfl hw
          | child hw hpar => exact absurd rfl hw
      | call n hgrown => exact ⟨_, rfl⟩
      | nested trap hgrown => exact ⟨_, rfl⟩
  | guest hrun hpde htss hgrown hw hbase hin =>
      cases hgrown with
      | base => exact absurd rfl hw
      | call n hgrown => exact ⟨_, rfl⟩
      | nested trap hgrown => exact ⟨_, rfl⟩
  | boot hidle hgrown => exact absurd (hidle T.cur) hrun

/-- The code that is executed is the code of the running process. -/
theorem CpuOk.codeOf_eq {cpu : Cpu} (h : CpuOk T chain held cpu)
    (hrun : T.head ≠ -1) : codeOf cpu = some T.head := by
  cases h with
  | user => rfl
  | seated hrun hpde htss hgrown hseat =>
      exact hgrown.owner_eq.trans hseat.owner_eq
  | guest hrun hpde htss hgrown hw hbase hin => exact hgrown.owner_eq
  | boot hidle hgrown => exact absurd (hidle T.cur) hrun

theorem blockOf_stackTop (p : Int) : blockOf (stackTop p) = p := by
  unfold blockOf stackTop KERNEL_STACK_BUTTOM PROCCESS_STACK_SIZE CAL_PCB
    FENCE_FOUR
  omega

variable {M : Machine (Table Sp)} {ok : CStr → Option CStr → Bool}

/-- Entries into the kernel. -/
theorem Inv.gate (h : Inv M chain held) {trap : Trap} {caller : List Frame}
    (hgate : M.gate (tableOps ok) trap = some (b, caller)) :
    CpuOk M.k chain held (.kernel b caller .code) := by
  have hcpu := h.cpu
  unfold Machine.gate at hgate
  cases hM : M.cpu with
  | user p =>
      rw [hM] at hcpu hgate
      cases hcpu with
      | user hrun hpde htss =>
          cases hgate
          have hblock : blockOf ((tableOps ok).tssEsp0 M.k) = M.k.head := by
            show blockOf M.k.tssEsp0 = _
            rw [htss, blockOf_stackTop]
          rw [hblock]
          exact .seated hrun hpde (fun _ => htss) .base (.entry trap)
  | kernel b' stack at_ =>
      rw [hM] at hcpu hgate
      dsimp only at hgate
      split at hgate
      · cases hgate
      · cases hgate
        exact hcpu.nested trap
  | wild =>
      rw [hM] at hgate
      cases hgate

/-- The kernel goes on with new activations on its block. -/
theorem Inv.onStack (h : Inv M chain held)
    (hcpu : CpuOk M.k chain held (.kernel b stack at_)) :
    Inv (M.onStack b stack at_) chain held :=
  { core := h.core.push (hcpu.within h.core), cpu := hcpu }

/-- A stack pointer leads to what is still on the block. -/
theorem fetch_kept {K : Type} {m : Machine K} (h : stack <:+ m.mem b) :
    m.fetch (spOf b stack) = some stack := by
  obtain ⟨above, habove⟩ := h
  have hlen : (spOf b stack).path.length = stack.length := List.length_map _
  have hdrop : (m.mem b).drop ((m.mem b).length - stack.length) = stack := by
    rw [← habove, List.length_append, Nat.add_sub_cancel, List.drop_left]
  unfold Machine.fetch
  dsimp only
  rw [hlen]
  show (if ((m.mem b).drop ((m.mem b).length - stack.length)).map Frame.layout =
      stack.map Frame.layout then
    some ((m.mem b).drop ((m.mem b).length - stack.length)) else none) = _
  rw [hdrop, if_pos rfl]

end Processor

end MongOS.Proofs.KernelStacks
