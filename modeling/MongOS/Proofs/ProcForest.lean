import Mathlib.Tactic.IntervalCases
import MongOS.Verified.Linked
import MongOS.Verified.Run
import MongOS.Proofs.ProcTable
import MongOS.Proofs.SampleImage

/-!
# The process forest

Every terminal runs a stack of processes: the running one, its parent, and so
on down to the base shell, whose parent is `-1`.  `Forest T chain` says that
`chain t` lists the stack of terminal `t`, that the stacks are disjoint, and
that the allocation bitmap and its counter agree with them.

* `Forest.spawn` — a new process is pushed on the stack of its terminal.
* `Forest.leave` — the running process is popped.
* `Forest.step` — every step of the process system pushes, pops, or leaves the
  stacks alone.
* `processes_form_forest` — the invariant in every reachable state.
-/

namespace MongOS.Proofs.ProcForest

open MongOS.Model
open MongOS.Verified
open MongOS.Proofs.ProcTable

variable {σ : Type}

/-- `chain t` is the stack of processes of terminal `t`. -/
structure Forest (T : Table σ) (chain : Tid → List Int) : Prop where
  linked : ∀ t, Linked T.parent (-1) (T.running t) (chain t)
  range : ∀ t, ∀ p ∈ chain t, 1 ≤ p ∧ p ≤ MAX_PROCESS
  disjoint : ∀ t u, t ≠ u → (chain t).Disjoint (chain u)
  pid : ∀ t, ∀ p ∈ chain t, T.pid p = p
  used : ∀ p, T.used (p - 1) = 1 ↔ ∃ t, p ∈ chain t
  bit : ∀ i, T.used i = 0 ∨ T.used i = 1
  count : T.count = Table.live T.used

/-! ## Counting bits -/

/-- Setting a clear bit adds one to the count. -/
theorem live_set {used : Int → Int} {i : Nat} (hi : i < MAX_PID)
    (hclear : used i = 0) :
    Table.live (Function.update used i 1) = Table.live used + 1 := by
  unfold MAX_PID at hi
  have hrange : List.range MAX_PID = [0, 1, 2, 3, 4, 5] := rfl
  simp only [Table.live, hrange, Function.update_apply, List.countP_cons,
    List.countP_nil]
  interval_cases i <;> simp_all <;> omega

/-- Clearing a set bit takes one off the count. -/
theorem live_clear {used : Int → Int} {i : Nat} (hi : i < MAX_PID)
    (hset : used i = 1) :
    Table.live (Function.update used i 0) + 1 = Table.live used := by
  have hzero : Function.update used (i : Int) 0 i = 0 :=
    Function.update_self ..
  have hback := live_set hi hzero
  rw [Function.update_idem, ← hset, Function.update_eq_self] at hback
  exact hback.symm

theorem live_le (used : Int → Int) : Table.live used ≤ MAX_PID := by
  have hle : Table.live used ≤ (List.range MAX_PID).length :=
    List.countP_le_length
  rwa [List.length_range] at hle

/-! ## Pushing and popping -/

theorem mem_push {chain : Tid → List Int} {u t : Tid} {p q : Int} :
    q ∈ Function.update chain u (p :: chain u) t ↔
      (q = p ∧ t = u) ∨ q ∈ chain t := by
  by_cases ht : t = u
  · subst ht
    simp
  · simp [ht]

theorem mem_pop {chain : Tid → List Int} {u t : Tid} {c q : Int}
    {rest : List Int} (hchain : chain u = c :: rest)
    (hq : q ∈ Function.update chain u rest t) : q ∈ chain t := by
  by_cases ht : t = u
  · subst ht
    rw [Function.update_self] at hq
    rw [hchain]
    exact List.mem_cons_of_mem _ hq
  · rwa [Function.update_of_ne ht] at hq

namespace Forest

variable {T T' : Table σ} {chain : Tid → List Int}

/-! ## What the invariant says about one process -/

/-- A terminal runs a process exactly when its stack is not empty. -/
theorem chain_cons (hF : Forest T chain) {t : Tid} (hrun : T.running t ≠ -1) :
    ∃ rest, chain t = T.running t :: rest := by
  have hlinked := hF.linked t
  cases hchain : chain t with
  | nil =>
      rw [hchain] at hlinked
      exact absurd hlinked hrun
  | cons p rest =>
      rw [hchain] at hlinked
      exact ⟨rest, by rw [hlinked.1]⟩

/-- Otherwise its stack is empty. -/
theorem chain_nil (hF : Forest T chain) {t : Tid} (hidle : T.running t = -1) :
    chain t = [] := by
  have hlinked := hF.linked t
  cases hchain : chain t with
  | nil => rfl
  | cons p rest =>
      rw [hchain] at hlinked
      exact absurd (hlinked.1.symm.trans hidle) hlinked.2.1

theorem running_mem (hF : Forest T chain) {t : Tid} (hrun : T.running t ≠ -1) :
    T.running t ∈ chain t := by
  obtain ⟨rest, hrest⟩ := hF.chain_cons hrun
  rw [hrest]
  exact List.mem_cons_self ..

theorem ne_sentinel (hF : Forest T chain) {t : Tid} {p : Int}
    (hp : p ∈ chain t) : p ≠ -1 := (hF.linked t).ne_nil hp

theorem nodup (hF : Forest T chain) (t : Tid) : (chain t).Nodup :=
  (hF.linked t).nodup

/-- A process belongs to one terminal. -/
theorem tid_unique (hF : Forest T chain) {t u : Tid} {p : Int}
    (ht : p ∈ chain t) (hu : p ∈ chain u) : t = u := by
  by_contra hne
  exact hF.disjoint t u hne ht hu

/-- The parent of a process stands behind it on the same stack. -/
theorem parent_mem (hF : Forest T chain) {t : Tid} {p : Int}
    (hp : p ∈ chain t) (hpar : T.parent p ≠ -1) :
    T.parent p ∈ chain t ∧ T.parent p ≠ T.running t := by
  have hlinked := hF.linked t
  have hmem : T.parent p ∈ chain t := by
    obtain ⟨l, r, hsplit⟩ := List.append_of_mem hp
    rw [hsplit] at hlinked ⊢
    have hnext := hlinked.next_eq
    cases r with
    | nil => exact absurd hnext hpar
    | cons q r =>
        rw [hnext]
        simp
  have hrun : T.running t ≠ -1 := by
    cases hchain : chain t with
    | nil => simp [hchain] at hp
    | cons q r =>
        rw [hchain] at hlinked
        exact hlinked.1 ▸ hlinked.2.1
  exact ⟨hmem, hlinked.next_ne_start hrun hp⟩

/-- A process has one child at most. -/
theorem parent_inj (hF : Forest T chain) {t u : Tid} {p q : Int}
    (hp : p ∈ chain t) (hq : q ∈ chain u) (heq : T.parent p = T.parent q)
    (hpar : T.parent p ≠ -1) : p = q := by
  have ht := (hF.parent_mem hp hpar).1
  have hu := (hF.parent_mem hq (heq ▸ hpar)).1
  have htu : t = u := hF.tid_unique ht (heq ▸ hu)
  subst htu
  exact (hF.linked t).next_inj hp hq heq hpar

/-- So the parent of a process runs on no terminal. -/
theorem parent_ne_running (hF : Forest T chain) {t : Tid} {p : Int}
    (hp : p ∈ chain t) (hpar : T.parent p ≠ -1) (u : Tid) :
    T.parent p ≠ T.running u := by
  obtain ⟨hmem, hne⟩ := hF.parent_mem hp hpar
  by_cases hu : u = t
  · subst hu
    exact hne
  · intro heq
    have hrun : T.running u ≠ -1 := heq ▸ hpar
    have hother := hF.running_mem hrun
    rw [← heq] at hother
    exact hu (hF.tid_unique hother hmem)

theorem parent_ne_head (hF : Forest T chain) {t : Tid} {p : Int}
    (hp : p ∈ chain t) (hpar : T.parent p ≠ -1) : T.parent p ≠ T.head :=
  hF.parent_ne_running hp hpar T.cur

/-- The links determine the stacks. -/
theorem chain_unique {chain' : Tid → List Int} (hF : Forest T chain)
    (hF' : Forest T chain') : chain = chain' :=
  funext fun t => (hF.linked t).unique (hF'.linked t)

theorem used_of_mem (hF : Forest T chain) {t : Tid} {p : Int}
    (hp : p ∈ chain t) : T.used (p - 1) = 1 := (hF.used p).2 ⟨t, hp⟩

/-- A free pid is on no stack. -/
theorem free_notMem (hF : Forest T chain) {p : Int}
    (hfree : T.used (p - 1) = 0) (t : Tid) : p ∉ chain t := by
  intro hp
  have hset := hF.used_of_mem hp
  omega

/-- A free pid runs on no terminal. -/
theorem running_ne_free (hF : Forest T chain) {i : Nat}
    (hfree : T.lowestFree = some i) (t : Tid) :
    T.running t ≠ (i : Int) + 1 := by
  intro heq
  have hmem := hF.running_mem (t := t) (by omega)
  refine hF.free_notMem ?_ t hmem
  rw [heq, Int.add_sub_cancel]
  exact (lowestFree_some hfree).2

/-- Two terminals run different processes. -/
theorem running_ne_head (hF : Forest T chain) (hhead : T.head ≠ -1) {t : Tid}
    (ht : t ≠ T.cur) : T.running t ≠ T.head := by
  intro heq
  have hmem := hF.running_mem (t := t) (heq ▸ hhead)
  rw [heq] at hmem
  exact ht (hF.tid_unique hmem (hF.running_mem hhead))

/-- A process that ends leaves a pid free. -/
theorem leave_free (hF : Forest T chain) (hrun : T.head ≠ -1) :
    T.leave.lowestFree ≠ none := by
  have hmem := hF.running_mem (t := T.cur) hrun
  have hpid : T.pid T.head = T.head := hF.pid T.cur _ hmem
  obtain ⟨hpos, hmax⟩ := hF.range T.cur _ hmem
  have hpos : 1 ≤ T.head := hpos
  have hmax : T.head ≤ 6 := hmax
  rw [Ne, lowestFree_none]
  intro hall
  have hbit := hall (T.head - 1).toNat (by unfold MAX_PID; omega)
  rw [leave_used, hpid, Int.toNat_of_nonneg (by omega),
    Function.update_self] at hbit
  exact hbit rfl

/-! ## The operations -/

/-- The stacks depend only on these five fields. -/
theorem congr (hF : Forest T chain) (hrunning : T'.running = T.running)
    (hparent : T'.parent = T.parent) (hpid : T'.pid = T.pid)
    (hused : T'.used = T.used) (hcount : T'.count = T.count) :
    Forest T' chain :=
  { linked := by rw [hrunning, hparent]; exact hF.linked
    range := hF.range
    disjoint := hF.disjoint
    pid := by rw [hpid]; exact hF.pid
    used := by rw [hused]; exact hF.used
    bit := by rw [hused]; exact hF.bit
    count := by rw [hcount, hused]; exact hF.count }

theorem save (hF : Forest T chain) (esp ebp : σ) :
    Forest (T.save esp ebp) chain := by
  unfold Table.save
  split
  · exact hF.congr rfl rfl rfl rfl rfl
  · exact hF

theorem visit (hF : Forest T chain) (t : Tid) : Forest (T.visit t) chain :=
  hF.congr rfl rfl rfl rfl rfl

theorem resume (hF : Forest T chain) (t : Tid) : Forest (T.resume t) chain :=
  hF.congr rfl rfl rfl rfl rfl

theorem enter (hF : Forest T chain) (p : Int) : Forest (T.enter p) chain :=
  hF.congr rfl rfl rfl rfl rfl

theorem reload (hF : Forest T chain) : Forest T.reload chain :=
  hF.congr rfl rfl rfl rfl rfl

/-- A pid that `get_pid` hands out is pushed on the current stack, above the
running process if there is one. -/
theorem spawn (hF : Forest T chain) {i : Nat} (hfree : T.lowestFree = some i)
    (esp ebp : σ) :
    Forest (T.spawn ((i : Int) + 1) esp ebp)
      (Function.update chain T.cur (((i : Int) + 1) :: chain T.cur)) := by
  obtain ⟨hlt, hclear⟩ := lowestFree_some hfree
  have hbit : (i : Int) + 1 - 1 = i := by omega
  have hfresh : ∀ t, (i : Int) + 1 ∉ chain t :=
    hF.free_notMem (by rw [hbit]; exact hclear)
  have hpos : 1 ≤ (i : Int) + 1 ∧ (i : Int) + 1 ≤ MAX_PROCESS := by
    unfold MAX_PID at hlt
    unfold MAX_PROCESS
    omega
  -- the links of the old stacks are not written
  have hkeep : ∀ t, Linked (Function.update T.parent ((i : Int) + 1) T.head)
      (-1) (T.running t) (chain t) := by
    intro t
    refine (hF.linked t).congr fun q hq => ?_
    rw [Function.update_of_ne]
    exact fun heq => hfresh t (heq ▸ hq)
  refine
    { linked := ?linked, range := ?range, disjoint := ?disjoint, pid := ?pid
      used := ?used, bit := ?bit, count := ?count }
  case linked =>
    intro t
    rw [spawn_running, spawn_parent]
    by_cases ht : t = T.cur
    · subst ht
      rw [Function.update_self, Function.update_self]
      refine ⟨rfl, by omega, ?_⟩
      rw [Function.update_self]
      exact hkeep T.cur
    · rw [Function.update_of_ne ht, Function.update_of_ne ht]
      exact hkeep t
  case range =>
    intro t q hq
    rcases mem_push.1 hq with ⟨rfl, _⟩ | hold
    · exact hpos
    · exact hF.range t q hold
  case disjoint =>
    intro t u hne q ht hu
    rcases mem_push.1 ht with ⟨rfl, rfl⟩ | ht
    · rcases mem_push.1 hu with ⟨_, rfl⟩ | hu
      · exact hne rfl
      · exact hfresh u hu
    · rcases mem_push.1 hu with ⟨rfl, _⟩ | hu
      · exact hfresh t ht
      · exact hF.disjoint t u hne ht hu
  case pid =>
    intro t q hq
    rw [spawn_pid]
    rcases mem_push.1 hq with ⟨rfl, _⟩ | hold
    · exact Function.update_self ..
    · have hne : q ≠ (i : Int) + 1 := by
        rintro rfl
        exact hfresh t hold
      rw [Function.update_of_ne hne]
      exact hF.pid t q hold
  case used =>
    intro q
    rw [spawn_used, hbit]
    by_cases hq : q = (i : Int) + 1
    · subst hq
      rw [hbit, Function.update_self]
      exact iff_of_true rfl ⟨T.cur, mem_push.2 (.inl ⟨rfl, rfl⟩)⟩
    · rw [Function.update_of_ne (by omega), hF.used q]
      simp only [mem_push, hq, false_and, false_or]
  case bit =>
    intro j
    rw [spawn_used, hbit]
    by_cases hj : j = i
    · subst hj
      exact .inr (Function.update_self ..)
    · rw [Function.update_of_ne hj]
      exact hF.bit j
  case count =>
    have hle := live_le T.used
    have hnext := live_set hlt hclear
    have hmax : MAX_PID = 6 := rfl
    rw [spawn_count, spawn_used, hbit, hF.count, hnext, incU32,
      if_neg (by omega)]

/-- The running process is popped and its parent is on top again. -/
theorem leave (hF : Forest T chain) {c : Int} {rest : List Int}
    (hchain : chain T.cur = c :: rest) :
    Forest T.leave (Function.update chain T.cur rest) := by
  have hlinked := hF.linked T.cur
  rw [hchain] at hlinked
  obtain ⟨hhead, hc, htail⟩ := hlinked
  have hhead : T.head = c := hhead
  have hcmem : c ∈ chain T.cur := by simp [hchain]
  have hcpid : T.pid T.head = c := by
    rw [hhead]
    exact hF.pid T.cur c hcmem
  obtain ⟨hpos, hmax⟩ := hF.range T.cur c hcmem
  have hnonneg : 0 ≤ c - 1 := by omega
  obtain ⟨i, hi⟩ := Int.eq_ofNat_of_zero_le hnonneg
  have hlt : i < MAX_PID := by
    unfold MAX_PROCESS at hmax
    unfold MAX_PID
    omega
  have hset : T.used i = 1 := hi ▸ hF.used_of_mem hcmem
  have hnotin : c ∉ rest := by
    have hnodup := hF.nodup T.cur
    rw [hchain] at hnodup
    exact (List.nodup_cons.1 hnodup).1
  have hmem : ∀ t q, q ∈ Function.update chain T.cur rest t ↔
      q ≠ c ∧ q ∈ chain t := by
    intro t q
    refine ⟨fun hq => ⟨?_, mem_pop hchain hq⟩, ?_⟩
    · rintro rfl
      have ht := hF.tid_unique (mem_pop hchain hq) hcmem
      rw [ht, Function.update_self] at hq
      exact hnotin hq
    · rintro ⟨hne, hq⟩
      by_cases ht : t = T.cur
      · subst ht
        rw [hchain] at hq
        rw [Function.update_self]
        exact (List.mem_cons.1 hq).resolve_left hne
      · rwa [Function.update_of_ne ht]
  refine
    { linked := ?linked, range := ?range, disjoint := ?disjoint, pid := ?pid
      used := ?used, bit := ?bit, count := ?count }
  case linked =>
    intro t
    rw [leave_running, leave_parent]
    by_cases ht : t = T.cur
    · subst ht
      rw [Function.update_self, Function.update_self, hhead]
      exact htail
    · rw [Function.update_of_ne ht, Function.update_of_ne ht]
      exact hF.linked t
  case range => exact fun t q hq => hF.range t q ((hmem t q).1 hq).2
  case disjoint =>
    intro t u hne q ht hu
    exact hF.disjoint t u hne ((hmem t q).1 ht).2 ((hmem u q).1 hu).2
  case pid =>
    rw [leave_pid]
    exact fun t q hq => hF.pid t q ((hmem t q).1 hq).2
  case used =>
    intro q
    rw [leave_used, hcpid]
    by_cases hq : q = c
    · subst hq
      rw [Function.update_self]
      apply iff_of_false (by omega)
      rintro ⟨t, ht⟩
      exact ((hmem t q).1 ht).1 rfl
    · rw [Function.update_of_ne (by omega), hF.used q]
      simp only [hmem, ne_eq, hq, not_false_eq_true, true_and]
  case bit =>
    intro j
    rw [leave_used, hcpid]
    by_cases hj : j = c - 1
    · subst hj
      exact .inl (Function.update_self ..)
    · rw [Function.update_of_ne hj]
      exact hF.bit j
  case count =>
    have hle := live_le T.used
    have hnext := live_clear hlt hset
    have hmaxPid : MAX_PID = 6 := rfl
    rw [leave_count, leave_used, hcpid, hF.count, hi, decU32,
      if_neg (by omega)]
    omega

/-- Every step of the process system pushes a process, pops one, pops one and
pushes another, or leaves the stacks as they are. -/
theorem step (hF : Forest T chain) {e : ProcEvent σ}
    (hstep : Step T e T') : ∃ chain', Forest T' chain' := by
  cases hstep with
  | fail => exact ⟨chain, hF⟩
  | exec stk command esp ebp i hhead hfree =>
      exact ⟨_, (hF.spawn hfree esp ebp).enter _⟩
  | exit stk status esp ebp hhead hchild =>
      obtain ⟨rest, hchain⟩ := hF.chain_cons hhead
      exact ⟨_, (hF.leave hchain).reload⟩
  | restart stk status esp ebp i hhead hbase hfree =>
      obtain ⟨rest, hchain⟩ := hF.chain_cons hhead
      exact ⟨_, ((hF.leave hchain).spawn hfree esp ebp).enter _⟩
  | lost stk status esp ebp hhead hbase =>
      obtain ⟨rest, hchain⟩ := hF.chain_cons hhead
      exact ⟨_, hF.leave hchain⟩
  | resume t stk esp ebp espExe ebpExe hbusy =>
      exact ⟨chain, (hF.save esp ebp).resume t⟩
  | start t stk esp ebp espExe ebpExe i hidle hfree =>
      have hvisit := (hF.save esp ebp).visit t
      rw [← lowestFree_save_visit T esp ebp t] at hfree
      exact ⟨_, (hvisit.spawn hfree espExe ebpExe).enter _⟩
  | stuck t stk esp ebp espExe ebpExe hidle =>
      exact ⟨chain, (hF.save esp ebp).visit t⟩

end Forest

/-! ## Reachable states -/

/-- The state left by `init_terminal` has empty stacks. -/
theorem forest_initialised {k : Kernel σ} (h0 : Initialised k) :
    Forest (table k) fun _ => [] :=
  { linked := h0.running
    range := by simp
    disjoint := by simp
    pid := by simp
    used := by simp [table, h0.pidSt]
    bit := fun i => .inl (h0.pidSt i)
    count := by
      rw [show (table k).count = 0 from h0.pidCnt]
      simp [Table.live, table, h0.pidSt] }

theorem forest_reachable {fs : FileSys} {k0 k : Kernel σ}
    {es : List (ProcEvent σ)} (h0 : Initialised k0)
    (hrun : Run (ProcStep fs) k0 es k) : ∃ chain, Forest (table k) chain := by
  refine hrun.invariant (fun k => ∃ chain, Forest (table k) chain)
    ⟨_, forest_initialised h0⟩ ?_
  rintro k e k' ⟨chain, hF⟩ hstep
  exact hF.step (procStep_table hstep)

/-- What the processes of a kernel look like: `chain t` are the processes of
terminal `t` from the running one to its base shell. -/
structure ProcessForest (k : Kernel σ) (chain : Tid → List Int) : Prop where
  linked : ∀ t,
    Linked (fun p => (k.pcb p).parPid) (-1) (k.runningPid t) (chain t)
  nodup : ∀ t, (chain t).Nodup
  disjoint : ∀ t u, t ≠ u → (chain t).Disjoint (chain u)
  allocated : ∀ p, k.pidSt (p - 1) = 1 ↔ ∃ t, p ∈ chain t
  bits : ∀ i, k.pidSt i = 0 ∨ k.pidSt i = 1
  pid : ∀ t, ∀ p ∈ chain t, (k.pcb p).pid = p
  counter : k.pidCnt =
    (List.range MAX_PID).countP fun (i : Nat) => k.pidSt i == 1
  fresh : ∀ t, (getPid k).2 ∉ chain t

/-- In every reachable state the parent links of each terminal form a finite
chain without repetition, the chains are disjoint, exactly their members are
allocated and carry their own pid, the counter counts them, and `get_pid` hands
out none of them. -/
theorem processes_form_forest {fs : FileSys} {k0 k : Kernel σ}
    {es : List (ProcEvent σ)} (h0 : Initialised k0)
    (hrun : Run (ProcStep fs) k0 es k) : ∃ chain, ProcessForest k chain := by
  obtain ⟨chain, hF⟩ := forest_reachable h0 hrun
  have hfresh : ∀ t, (getPid k).2 ∉ chain t := by
    intro t hmem
    cases hfree : (table k).lowestFree with
    | none =>
        rw [getPid_none hfree] at hmem
        exact hF.ne_sentinel hmem rfl
    | some i =>
        obtain ⟨hpid, -, -⟩ := getPid_some hfree
        rw [hpid] at hmem
        refine hF.free_notMem ?_ t hmem
        rw [show (i : Int) + 1 - 1 = i by omega]
        exact (lowestFree_some hfree).2
  exact ⟨chain,
    { linked := hF.linked
      nodup := hF.nodup
      disjoint := hF.disjoint
      allocated := hF.used
      bits := hF.bit
      pid := hF.pid
      counter := hF.count
      fresh := hfresh }⟩

/-- Three processes on two terminals. -/
theorem shellRun_forest :
    Initialised (SampleImage.idleKernel (0 : Nat)) ∧
      Run (ProcStep SampleImage.shellImage) (SampleImage.idleKernel 0)
        SampleImage.shellRun SampleImage.shellRunEnd ∧
      SampleImage.shellRunEnd.pidCnt = 3 ∧
      ∃ chain, ProcessForest SampleImage.shellRunEnd chain :=
  ⟨SampleImage.initialised_idleKernel 0, SampleImage.shellRun_run, by decide,
    processes_form_forest (SampleImage.initialised_idleKernel 0)
      SampleImage.shellRun_run⟩

end MongOS.Proofs.ProcForest
