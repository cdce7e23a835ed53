import MongOS.Proofs.KernelStacks

/-!
# The steps of the machine keep the stacks apart

One lemma for each kind of step: calls, returns and the end of `execute`
(`inv_trap`, `inv_call`, `inv_ret`, `inv_tss`, `inv_iret`), a call of `execute`
(`inv_execute`), `halt` (`inv_halt`) and a PIT interrupt (`inv_pit`).  A PIT
interrupt needs a condition: it does not hit a base shell that is a guest on
another stack, and it finds a process or a pid on the next terminal.
-/

namespace MongOS.Proofs.MachineInvariant

open MongOS.Model
open MongOS.Verified
open MongOS.Proofs.ProcTable
open MongOS.Proofs.MachineTable
open MongOS.Proofs.ProcForest
open MongOS.Proofs.KernelStacks

variable {M M' : Machine (Table Sp)} {chain : Tid → List Int} {held : Held}
  {ok : CStr → Option CStr → Bool}

/-- What the processes that do not run hold is carried from one state to the
next, and every child keeps its parent. -/
structure Carried (T : Table Sp) (chain : Tid → List Int) (held : Held)
    (T' : Table Sp) (chain' : Tid → List Int) (held' : Held) : Prop where
  holds : ∀ q, q ≠ -1 → q ≠ T.head → held' q = held q
  stays : ∀ t, ∀ q ∈ chain t, q ≠ T.head → q ∈ chain' t
  parent : ∀ t, ∀ q ∈ chain t, T.parent q ≠ -1 → T'.parent q = T.parent q

/-- The invariant holds again, and everything is carried over. -/
def Goes (T : Table Sp) (chain : Tid → List Int) (held : Held)
    (M' : Machine (Table Sp)) : Prop :=
  ∃ chain' held', Inv M' chain' held' ∧
    Carried T chain held M'.k chain' held'

theorem goes_same {T : Table Sp} (h : Inv M' chain held)
    (hparent : M'.k.parent = T.parent) : Goes T chain held M' :=
  ⟨chain, held, h,
    { holds := fun _ _ _ => rfl
      stays := fun _ _ hq _ => hq
      parent := fun _ q _ _ => congrFun hparent q }⟩

/-! ## Calls, returns and the end of `execute` -/

theorem inv_trap (h : Inv M chain held) {trap : Trap}
    (hstep : M.trapStep (tableOps ok) trap = some M') :
    Inv M' chain held ∧ M'.k.parent = M.k.parent := by
  unfold Machine.trapStep at hstep
  obtain ⟨⟨b, caller⟩, hgate, rfl⟩ := Option.map_eq_some_iff.1 hstep
  exact ⟨h.onStack (h.gate hgate), rfl⟩

theorem inv_call (h : Inv M chain held) {n : Nat}
    (hstep : M.callStep n = some M') :
    Inv M' chain held ∧ M'.k.parent = M.k.parent := by
  have hcpu := h.cpu
  unfold Machine.callStep at hstep
  split at hstep
  · rename_i b stack hM
    cases hstep
    rw [hM] at hcpu
    exact ⟨h.onStack (hcpu.call n), rfl⟩
  · cases hstep

theorem inv_ret (h : Inv M chain held) (hstep : M.retStep = some M') :
    Inv M' chain held ∧ M'.k.parent = M.k.parent := by
  have hcpu := h.cpu
  unfold Machine.retStep at hstep
  split at hstep
  · rename_i b stack hM
    obtain ⟨cpu, hunwind, rfl⟩ := Option.map_eq_some_iff.1 hstep
    rw [hM] at hcpu
    exact ⟨{ core := h.core, cpu := hcpu.unwind hunwind }, rfl⟩
  · cases hstep

/-- In its end, `execute` belongs to the running process. -/
theorem pid_of_window {T : Table Sp} {b pid : Int} {rest : List Frame}
    {at_ : Point} (h : CpuOk T chain held (.kernel b (.execute pid :: rest) at_))
    (hat : at_ ≠ .code) : pid = T.head := by
  cases h with
  | seated hrun hpde htss hgrown hseat =>
      obtain ⟨rfl, rfl⟩ := hgrown.eq_base hat
      cases hseat with
      | own => rfl
      | child => rfl
  | guest hrun hpde htss hgrown hw hbase hin =>
      obtain ⟨heq, -⟩ := hgrown.eq_base hat
      cases heq
      rfl
  | boot hidle hgrown =>
      obtain ⟨-, hcode⟩ := hgrown.eq_base hat
      exact absurd hcode hat

/-- The assignment to `tss.esp0`. -/
theorem cpu_enter {T : Table Sp} {b : Int} {rest : List Frame}
    (h : CpuOk T chain held (.kernel b (.execute T.head :: rest) .preTss)) :
    CpuOk (T.enter T.head) chain held
      (.kernel b (.execute T.head :: rest) .preIret) := by
  have hset : TssSet (T.enter T.head).tssEsp0 (T.enter T.head).head .preIret :=
    fun _ => rfl
  cases h with
  | seated hrun hpde htss hgrown hseat =>
      obtain ⟨rfl, rfl⟩ := hgrown.eq_base (by decide)
      cases hseat with
      | own stack hw => exact .seated hrun hpde hset .base (.own _ (by decide))
      | child hw hpar =>
          exact .seated hrun hpde hset .base (.child (by decide) hpar)
  | guest hrun hpde htss hgrown hw hbase hin =>
      obtain ⟨heq, -⟩ := hgrown.eq_base (by decide)
      cases heq
      exact .guest hrun hpde hset .base (by decide) hbase hin
  | boot hidle hgrown =>
      obtain ⟨-, hcode⟩ := hgrown.eq_base (by decide)
      cases hcode

theorem inv_tss (h : Inv M chain held)
    (hstep : M.tssStep (tableOps ok) = some M') :
    Inv M' chain held ∧ M'.k.parent = M.k.parent := by
  have hcpu := h.cpu
  unfold Machine.tssStep at hstep
  split at hstep
  · rename_i b pid rest hM
    cases hstep
    rw [hM] at hcpu
    have hpid := pid_of_window hcpu (by decide)
    subst hpid
    have hcore := h.core.congr (h.core.forest.enter M.k.head) rfl rfl rfl rfl
    exact ⟨{ core := hcore, cpu := cpu_enter hcpu }, rfl⟩
  · cases hstep

theorem inv_iret (h : Inv M chain held) (hstep : M.iretStep = some M') :
    Inv M' chain held ∧ M'.k.parent = M.k.parent := by
  have hcpu := h.cpu
  unfold Machine.iretStep at hstep
  split at hstep
  · rename_i b pid rest hM
    cases hstep
    rw [hM] at hcpu
    have hpid := pid_of_window hcpu (by decide)
    subst hpid
    refine ⟨{ core := h.core, cpu := ?_ }, rfl⟩
    cases hcpu with
    | seated hrun hpde htss hgrown hseat =>
        obtain ⟨-, rfl⟩ := hgrown.eq_base (by decide)
        exact .user hrun hpde (htss (by decide))
    | guest hrun hpde htss hgrown hw hbase hin =>
        obtain ⟨-, rfl⟩ := hgrown.eq_base (by decide)
        exact .user hrun hpde (htss (by decide))
    | boot hidle hgrown =>
        obtain ⟨-, hcode⟩ := hgrown.eq_base (by decide)
        cases hcode
  · cases hstep

/-! ## A call of `execute` -/

theorem start_cases (ok : Bool) (T : Table Sp) (sp : Sp) :
    start ok T sp = (T, none) ∨ ∃ i, T.lowestFree = some i ∧
      start ok T sp = (T.spawn ((i : Int) + 1) sp sp, some ((i : Int) + 1)) := by
  unfold start
  split
  · cases hfree : T.lowestFree with
    | none => exact .inl rfl
    | some i => exact .inr ⟨i, rfl, rfl⟩
  · exact .inl rfl

theorem start_free {T : Table Sp} (hfree : T.lowestFree ≠ none) (sp : Sp) :
    ∃ i, T.lowestFree = some i ∧
      start true T sp = (T.spawn ((i : Int) + 1) sp sp, some ((i : Int) + 1)) := by
  obtain ⟨i, hi⟩ := Option.ne_none_iff_exists'.1 hfree
  refine ⟨i, hi, ?_⟩
  unfold start
  rw [hi]
  rfl

/-- `execute` has reached `sti` for a new process: a child of the running
process, on its stack, or a base shell, on any stack. -/
theorem inv_started {T : Table Sp} {mem : Int → List Frame}
    (h : Core T mem chain held T.head) {i : Nat} (hfree : T.lowestFree = some i)
    {b : Int} {stack : List Frame} (hin : Within chain held T.head b stack)
    (hcaller : T.head ≠ -1 → b = T.head ∧ stack = [.entry .syscall T.head])
    (cpu : Cpu) :
    Inv
      (Machine.onStack
        { k := T.spawn ((i : Int) + 1) (spOf b (.execute 0 :: stack))
            (spOf b (.execute 0 :: stack))
          mem := mem, cpu := cpu }
        b (.execute ((i : Int) + 1) :: stack) .preTss)
      (Function.update chain T.cur (((i : Int) + 1) :: chain T.cur))
      (Function.update held T.head (b, .execute ((i : Int) + 1) :: stack)) := by
  have hcore := h.spawn hfree b hin hcaller
  have hwithin := hcore.within_mem b
  rw [Function.update_self] at hwithin
  have hparent : (T.spawn ((i : Int) + 1) (spOf b (.execute 0 :: stack))
      (spOf b (.execute 0 :: stack))).parent ((i : Int) + 1) = T.head := by
    rw [spawn_parent]
    exact Function.update_self ..
  have hhead := spawn_head T ((i : Int) + 1) (spOf b (.execute 0 :: stack))
    (spOf b (.execute 0 :: stack))
  have hpde := spawn_pde T ((i : Int) + 1) (spOf b (.execute 0 :: stack))
    (spOf b (.execute 0 :: stack))
  unfold Machine.onStack
  generalize T.spawn ((i : Int) + 1) (spOf b (.execute 0 :: stack))
    (spOf b (.execute 0 :: stack)) = T' at hcore hparent hhead hpde ⊢
  have hrun : T'.head ≠ -1 := by omega
  rw [← hhead] at hcore hparent hpde hwithin ⊢
  refine { core := hcore, cpu := ?_ }
  by_cases hbase : T.head = -1
  · exact .guest hrun hpde (fun hno => absurd rfl hno) .base (by decide)
      (hparent.trans hbase) hwithin
  · obtain ⟨rfl, rfl⟩ := hcaller hbase
    rw [← hparent] at hbase ⊢
    exact .seated hrun hpde (fun hno => absurd rfl hno) .base
      (.child (by decide) hbase)

/-- The new process is the last thing that its parent has to wait for. -/
theorem carried_started {T : Table Sp} (hF : Forest T chain) (held : Held)
    {i : Nat} (hfree : T.lowestFree = some i) (esp : Sp)
    (entry : Int × List Frame) :
    Carried T chain held (T.spawn ((i : Int) + 1) esp esp)
      (Function.update chain T.cur (((i : Int) + 1) :: chain T.cur))
      (Function.update held T.head entry) where
  holds q _ hne := Function.update_of_ne hne ..
  stays t q hq _ := mem_push.2 (.inr hq)
  parent t q hq _ := by
    have hclear : T.used ((i : Int) + 1 - 1) = 0 := by
      rw [show (i : Int) + 1 - 1 = i by omega]
      exact (lowestFree_some hfree).2
    rw [spawn_parent, Function.update_of_ne]
    rintro rfl
    exact hF.free_notMem hclear t hq

theorem inv_execute (h : Inv M chain held) {stk : CStr} {command : Option CStr}
    (hstep : M.executeStep (tableOps ok) stk command = some M') :
    Goes M.k chain held M' := by
  have hcpu := h.cpu
  unfold Machine.executeStep at hstep
  split at hstep
  · rename_i b pid rest hM
    rw [hM] at hcpu
    have hwithin := hcpu.within h.core
    dsimp only at hstep
    rcases start_cases (ok stk command) M.k
        (spOf b (.execute 0 :: .entry .syscall pid :: rest)) with
      hret | ⟨i, hfree, hspawn⟩
    · -- `execute` returns, and so does the system call
      have hexecute : (tableOps ok).execute M.k stk command
          (spOf b (.execute 0 :: .entry .syscall pid :: rest)) = (M.k, none) :=
        hret
      rw [hexecute] at hstep
      unfold Machine.afterExecute at hstep
      obtain ⟨cpu, hunwind, rfl⟩ := Option.map_eq_some_iff.1 hstep
      exact goes_same { core := h.core, cpu := hcpu.unwind hunwind } rfl
    · have hexecute : (tableOps ok).execute M.k stk command
          (spOf b (.execute 0 :: .entry .syscall pid :: rest)) =
          (M.k.spawn ((i : Int) + 1)
            (spOf b (.execute 0 :: .entry .syscall pid :: rest))
            (spOf b (.execute 0 :: .entry .syscall pid :: rest)),
          some ((i : Int) + 1)) := hspawn
      rw [hexecute] at hstep
      cases hstep
      refine ⟨_, _, inv_started h.core hfree hwithin ?_ M.cpu,
        carried_started h.core.forest held hfree _ _⟩
      -- only the entry from user code of the running process looks like this
      intro _
      cases hcpu with
      | seated hrun hpde htss hgrown hseat =>
          cases hgrown with
          | base =>
              cases hseat with
              | entry trap => exact ⟨rfl, rfl⟩
      | guest hrun hpde htss hgrown hw hbase hin => cases hgrown
      | boot hidle hgrown => cases hgrown
  · cases hstep

/-! ## Loading a stack pointer -/

theorem resumeExecute_kept {K : Type} {m : Machine K} {b p : Int}
    {stack : List Frame} (h : (.execute p :: stack) <:+ m.mem b) :
    m.resumeExecute (spOf b (.execute p :: stack)) =
      .kernel b stack .code := by
  unfold Machine.resumeExecute
  rw [fetch_kept h]
  rfl

theorem resumeSwitch_kept {K : Type} {m : Machine K} {b : Int}
    {caller : List Frame} (h : (.pit :: caller) <:+ m.mem b) :
    m.resumeSwitch (spOf b (.pit :: caller)) =
      (Machine.unwind b caller).getD .wild := by
  unfold Machine.resumeSwitch
  rw [fetch_kept h]
  rfl

/-! ## `halt` -/

theorem mem_rest {T : Table Sp} {rest : List Int}
    (hchain : chain T.cur = T.head :: rest) {t : Tid} {q : Int}
    (hq : q ∈ chain t) (hne : q ≠ T.head) :
    q ∈ Function.update chain T.cur rest t := by
  by_cases ht : t = T.cur
  · subst ht
    rw [hchain] at hq
    rw [Function.update_self]
    exact (List.mem_cons.1 hq).resolve_left hne
  · rwa [Function.update_of_ne ht]

/-- A base shell is started where no process runs: everything that was carried
to this point is carried on. -/
theorem Carried.restart {T T₁ T₂ : Table Sp}
    {chain₁ chain₂ : Tid → List Int} {held₁ held₂ : Held}
    (hF : Forest T chain) (h : Carried T chain held T₁ chain₁ held₁)
    (h' : Carried T₁ chain₁ held₁ T₂ chain₂ held₂) (hidle : T₁.head = -1)
    (hchild : ∀ t, ∀ q ∈ chain t, T.parent q ≠ -1 → q ∈ chain₁ t) :
    Carried T chain held T₂ chain₂ held₂ where
  holds q hq hne := by
    rw [h'.holds q hq (by rwa [hidle]), h.holds q hq hne]
  stays t q hq hne := by
    apply h'.stays t q (h.stays t q hq hne)
    rw [hidle]
    exact hF.ne_sentinel hq
  parent t q hq hpar := by
    have hsame := h.parent t q hq hpar
    rw [h'.parent t q (hchild t q hq hpar) (by rwa [hsame]), hsame]

theorem carried_leave {T : Table Sp} (held : Held) {rest : List Int}
    (hchain : chain T.cur = T.head :: rest) :
    Carried T chain held T.leave (Function.update chain T.cur rest) held where
  holds _ _ _ := rfl
  stays _ _ hq hne := mem_rest hchain hq hne
  parent _ _ _ _ := rfl

/-- `halt` of a child: the parent goes on behind its call of `execute`. -/
theorem halt_child_goes {T : Table Sp} {mem : Int → List Frame}
    (h : Core T mem chain held T.head) (hrun : T.head ≠ -1)
    (hchild : T.parent T.head ≠ -1) {m : Machine (Table Sp)}
    (hk : m.k = T.leave.reload) (hmem : m.mem = mem) :
    Goes T chain held
      { m with cpu := m.resumeExecute (T.savedEsp (T.parent T.head)) } := by
  obtain ⟨rest, hchain⟩ := h.forest.chain_cons (t := T.cur) hrun
  have hleave := h.leave hchain
  have hin := h.forest.running_mem (t := T.cur) hrun
  obtain ⟨hpar, hne⟩ := h.forest.parent_mem hin hchild
  have hheld : held (T.parent T.head) = (T.parent T.head,
      [.execute T.head, .entry .syscall (T.parent T.head)]) :=
    h.waiting T.cur _ hin hchild
  have hsaved : T.savedEsp (T.parent T.head) = spOf (T.parent T.head)
      [.execute T.head, .entry .syscall (T.parent T.head)] := by
    have hany := h.saved T.cur (T.parent T.head) hpar hne
    rwa [hheld] at hany
  have hkept : [.execute T.head, .entry .syscall (T.parent T.head)] <:+
      m.mem (T.parent T.head) := by
    have hany := h.kept T.cur (T.parent T.head) hpar hne
    rwa [hheld, ← hmem] at hany
  have hhead : T.leave.reload.head = T.parent T.head := leave_head T
  rw [hsaved, resumeExecute_kept hkept]
  refine ⟨Function.update chain T.cur rest, held,
    { core := ?core, cpu := ?cpu }, ?carried⟩
  case core =>
    rw [← hhead] at hleave
    have hcore := hleave.congr hleave.forest.reload rfl rfl rfl rfl
    rw [hmem, hk]
    exact hcore
  case cpu =>
    rw [hk, ← hhead]
    exact .seated (hhead ▸ hchild) rfl (fun _ => rfl) .base (.entry .syscall)
  case carried =>
    have hcarried := carried_leave held hchain
    rw [hk]
    exact ⟨hcarried.holds, hcarried.stays, hcarried.parent⟩

/-- `halt` of a base shell: a new one is started. -/
theorem halt_base_goes {T : Table Sp} {mem : Int → List Frame}
    (h : Core T mem chain held T.head) (hrun : T.head ≠ -1)
    (hbase : T.parent T.head = -1) {b : Int} {stack : List Frame}
    (hstack : mem b = stack) (cpu : Cpu) {i : Nat}
    (hfree : T.leave.lowestFree = some i) :
    Goes T chain held
      (Machine.onStack
        { k := T.leave.spawn ((i : Int) + 1) (spOf b (.execute 0 :: stack))
            (spOf b (.execute 0 :: stack))
          mem := mem, cpu := cpu }
        b (.execute ((i : Int) + 1) :: stack) .preTss) := by
  obtain ⟨rest, hchain⟩ := h.forest.chain_cons (t := T.cur) hrun
  have hleave := h.leave hchain
  have hidle : T.leave.head = -1 := (leave_head T).trans hbase
  rw [← leave_head T] at hleave
  have hwithin := hleave.within_mem b
  rw [hstack] at hwithin
  refine ⟨_, _, inv_started hleave hfree hwithin (fun hno => absurd hidle hno)
    cpu, ?_⟩
  refine Carried.restart h.forest (carried_leave held hchain)
    (carried_started hleave.forest held hfree _ _) hidle ?_
  intro t q hq hpar
  apply mem_rest hchain hq
  rintro rfl
  exact hpar hbase

theorem inv_halt (h : Inv M chain held)
    (hok : ∀ stk, ok stk (some shellCmd) = true) {stk : CStr} {status : Byte}
    (hstep : M.haltStep (tableOps ok) stk status = some M') :
    Goes M.k chain held M' := by
  have hcpu := h.cpu
  unfold Machine.haltStep at hstep
  split at hstep
  · rename_i b caller hM
    rw [hM] at hcpu
    split at hstep
    · cases hstep
    · rename_i hcond
      have hrun : M.k.head ≠ -1 := fun hidle => hcond (.inl hidle)
      have hin := (hcpu.within h.core).mono (List.suffix_cons .halt caller)
      have hcore := h.core.push hin
      dsimp only at hstep
      by_cases hbase : M.k.parent M.k.head = -1
      · obtain ⟨i, hfree, hstart⟩ := start_free (h.core.forest.leave_free hrun)
          (spOf b (.execute 0 :: .halt :: caller))
        have hhalt : (tableOps ok).halt M.k stk status
            (spOf b (.execute 0 :: .halt :: caller)) =
            (M.k.leave.spawn ((i : Int) + 1)
              (spOf b (.execute 0 :: .halt :: caller))
              (spOf b (.execute 0 :: .halt :: caller)),
            .restart (some ((i : Int) + 1))) := by
          unfold tableOps
          dsimp only
          rw [if_pos hbase, hok, hstart]
        rw [hhalt] at hstep
        cases hstep
        exact halt_base_goes hcore hrun hbase (Function.update_self ..) _ hfree
      · have hhalt : (tableOps ok).halt M.k stk status
            (spOf b (.execute 0 :: .halt :: caller)) =
            (M.k.leave.reload, .resume (M.k.savedEsp (M.k.parent M.k.head))) :=
          if_neg hbase
        rw [hhalt] at hstep
        cases hstep
        exact halt_child_goes hcore hrun hbase rfl rfl
  · cases hstep

/-! ## PIT interrupts -/

/-- A base shell in the end of `execute` is on its own kernel stack. -/
def Safe (M : Machine (Table Sp)) : Prop :=
  InWindow M.cpu → M.k.parent M.k.head ≠ -1 ∨ OnBlock M.k.head M.cpu

/-- There is a process on the next terminal, or a pid to start one. -/
def Startable (T : Table Sp) : Prop :=
  T.running (T.cur + 1) = -1 → T.lowestFree ≠ none

instance (M : Machine (Table Sp)) : Decidable (Safe M) :=
  inferInstanceAs (Decidable (InWindow M.cpu → _ ∨ _))

instance (T : Table Sp) : Decidable (Startable T) :=
  inferInstanceAs (Decidable (T.running (T.cur + 1) = -1 → _ ≠ _))

/-- What a switch leaves behind: the next terminal runs a process, and the
context that was saved lies on the stack of its process or of its parent. -/
structure Switched (M : Machine (Table Sp)) (chain : Tid → List Int)
    (held : Held) (M' : Machine (Table Sp)) (chain' : Tid → List Int)
    (held' : Held) : Prop where
  inv : Inv M' chain' held'
  carried : Carried M.k chain held M'.k chain' held'
  cur : M'.k.cur = M.k.cur + 1
  runs : M'.k.head ≠ -1
  saved : M.k.head ≠ -1 →
    Preempted M.k.parent M.k.tssEsp0 M.k.head (held' M.k.head)
  stays : M.k.head ≠ -1 → M.k.head ∈ chain' M.k.cur

/-- Where a PIT interrupt is safe, the running process has its seat there. -/
theorem Safe.seat (hsafe : Safe M) (h : Inv M chain held) {b : Int}
    {caller : List Frame} (hgate : M.gate (tableOps ok) .irq = some (b, caller))
    (hrun : M.k.head ≠ -1) :
    ∃ base w, Grown base w caller .code ∧ Seat M.k.parent M.k.head b base w ∧
      TssSet M.k.tssEsp0 M.k.head w := by
  have hcpu := h.gate hgate
  cases hcpu with
  | seated _ hpde htss hgrown hseat => exact ⟨_, _, hgrown, hseat, htss⟩
  | boot hidle hgrown => exact absurd (hidle M.k.cur) hrun
  | guest _ hpde htss hgrown hw hbase hin =>
      unfold Machine.gate at hgate
      cases hM : M.cpu with
      | user pid =>
          rw [hM] at hgate
          cases hgate
          cases hgrown
      | kernel b' stack at_ =>
          rw [hM] at hgate
          cases hgate
          cases hgrown with
          | nested _ hgrown' =>
              have hwindow := hgrown'.inWindow hw b
              rw [← hM] at hwindow
              rcases hsafe hwindow with hpar | hown
              · exact absurd hbase hpar
              · -- the guest is on its own kernel stack
                rw [hM] at hown
                obtain rfl : b = M.k.head := hown
                exact ⟨_, _, hgrown'.nested _, .own _ hw, htss⟩
      | wild =>
          rw [hM] at hgate
          cases hgate

/-- The state in which `process_switch` has saved the context. -/
theorem carried_save (T : Table Sp) (chain : Tid → List Int) (held : Held)
    (sp : Sp) (t : Tid) (entry : Int × List Frame) :
    Carried T chain held ((T.save sp sp).visit t) chain
      (Function.update held T.head entry) where
  holds _ _ hne := Function.update_of_ne hne ..
  stays _ _ hq _ := hq
  parent _ q _ _ := congrFun (save_parent T sp sp) q

/-- A switch to a terminal with a process resumes it. -/
theorem switch_resumes {T : Table Sp} {mem : Int → List Frame}
    (h : Core T mem chain held (-1)) {t : Tid} (hbusy : T.running t ≠ -1)
    {m : Machine (Table Sp)} (hk : m.k = T.resume t) (hmem : m.mem = mem) :
    Inv { m with cpu := m.resumeSwitch (T.savedEsp (T.running t)) } chain
      held := by
  have hin := h.forest.running_mem hbusy
  have hsaved := h.saved t _ hin hbusy
  have hkept := h.kept t _ hin hbusy
  obtain ⟨caller, base, w, hshape, hgrown, hseat, htss⟩ :=
    (h.preempted t hbusy hbusy).shape
  rw [hshape] at hsaved hkept
  rw [← hmem] at hkept
  have hcpu : CpuOk (T.resume t) chain held
      (.kernel (held (T.running t)).1 caller .code) :=
    .seated hbusy rfl htss hgrown hseat
  obtain ⟨cpu, hunwind⟩ := hcpu.returns hbusy
  have hcore := (h.weaken (T.running t)).congr (h.forest.resume t) rfl rfl rfl
    rfl
  rw [hsaved, resumeSwitch_kept hkept, hunwind]
  refine { core := ?core, cpu := ?cpu }
  case core =>
    rw [hmem, hk]
    exact hcore
  case cpu =>
    rw [hk]
    exact hcpu.unwind hunwind

/-- A switch to a terminal without a process starts a base shell, on the stack
of the interrupted code. -/
theorem switch_starts {T : Table Sp} {mem : Int → List Frame}
    (h : Core T mem chain held (-1)) {t : Tid} (hidle : T.running t = -1)
    {b : Int} {stack : List Frame} (hstack : mem b = stack) {i : Nat}
    (hfree : (T.visit t).lowestFree = some i) (cpu : Cpu) :
    Inv
      (Machine.onStack
        { k := (T.visit t).spawn ((i : Int) + 1) (spOf b (.execute 0 :: stack))
            (spOf b (.execute 0 :: stack))
          mem := mem, cpu := cpu }
        b (.execute ((i : Int) + 1) :: stack) .preTss)
      (Function.update chain t (((i : Int) + 1) :: chain t))
      (Function.update held (T.visit t).head
        (b, .execute ((i : Int) + 1) :: stack)) := by
  have hhead : (T.visit t).head = -1 := hidle
  have hcore := (h.weaken (T.visit t).head).congr (h.forest.visit t) rfl rfl rfl
    rfl
  have hwithin := hcore.within_mem b
  rw [hstack] at hwithin
  exact inv_started hcore hfree hwithin (fun hno => absurd hhead hno) cpu

/-- A PIT interrupt under the two conditions is a switch. -/
theorem inv_pit (h : Inv M chain held)
    (hok : ∀ stk, ok stk (some shellCmd) = true) (hsafe : Safe M)
    (hstart : Startable M.k) {stk : CStr}
    (hstep : M.pitStep (tableOps ok) stk = some M') :
    ∃ chain' held', Switched M chain held M' chain' held' := by
  unfold Machine.pitStep at hstep
  obtain ⟨⟨b, caller⟩, hgate, hstep⟩ := Option.bind_eq_some_iff.1 hstep
  dsimp only at hstep
  have hwithin := (h.gate hgate).within h.core
  have hcore := h.core.save b (hsafe.seat h hgate) hwithin
  have hcarried := carried_save M.k chain held (spOf b (.pit :: caller))
    (M.k.cur + 1) (b, .pit :: caller)
  have hsaved : M.k.head ≠ -1 →
      Preempted M.k.parent M.k.tssEsp0 M.k.head (b, .pit :: caller) := by
    intro hrun
    obtain ⟨base, w, hgrown, hseat, htss⟩ := hsafe.seat h hgate hrun
    exact ⟨caller, base, w, rfl, hgrown, hseat, htss⟩
  have hself := Function.update_self M.k.head (b, .pit :: caller) held
  have hstays : M.k.head ≠ -1 → M.k.head ∈ chain M.k.cur :=
    fun hrun => h.core.forest.running_mem hrun
  have hrunning := save_running M.k (spOf b (.pit :: caller))
    (spOf b (.pit :: caller))
  by_cases hidle : M.k.running (M.k.cur + 1) = -1
  · obtain ⟨i, hfree, hspawn⟩ := start_free
      (T := (M.k.save (spOf b (.pit :: caller))
        (spOf b (.pit :: caller))).visit (M.k.cur + 1))
      (by rw [lowestFree_save_visit]; exact hstart hidle)
      (spOf b (.execute 0 :: .pit :: caller))
    have hpit : (tableOps ok).pitIrq M.k stk (spOf b (.pit :: caller))
        (spOf b (.execute 0 :: .pit :: caller)) =
        (((M.k.save (spOf b (.pit :: caller))
            (spOf b (.pit :: caller))).visit (M.k.cur + 1)).spawn
            ((i : Int) + 1) (spOf b (.execute 0 :: .pit :: caller))
            (spOf b (.execute 0 :: .pit :: caller)),
          .started (some ((i : Int) + 1))) := by
      unfold tableOps
      dsimp only
      rw [if_pos hidle, hok, hspawn]
    rw [hpit] at hstep
    cases hstep
    rw [← hrunning] at hidle
    have hstarted := carried_started (hcore.forest.visit (M.k.cur + 1))
      (Function.update held M.k.head (b, .pit :: caller)) hfree
      (spOf b (.execute 0 :: .pit :: caller))
      (b, .execute ((i : Int) + 1) :: .pit :: caller)
    refine ⟨_, _,
      { inv := switch_starts hcore hidle (Function.update_self ..) hfree _
        carried := hcarried.restart h.core.forest hstarted hidle
          fun _ _ hq _ => hq
        cur := spawn_cur .., runs := ?runs, saved := ?saved
        stays := fun hrun => mem_push.2 (.inr (hstays hrun)) }⟩
    case runs =>
      show Table.head (Table.spawn _ _ _ _) ≠ -1
      rw [spawn_head]
      omega
    case saved =>
      intro hrun
      rw [Function.update_of_ne, hself]
      · exact hsaved hrun
      · exact fun heq => hrun (heq.trans hidle)
  · have hpit : (tableOps ok).pitIrq M.k stk (spOf b (.pit :: caller))
        (spOf b (.execute 0 :: .pit :: caller)) =
        ((M.k.save (spOf b (.pit :: caller)) (spOf b (.pit :: caller))).resume
            (M.k.cur + 1),
          .resume ((M.k.save (spOf b (.pit :: caller))
            (spOf b (.pit :: caller))).savedEsp
              (M.k.running (M.k.cur + 1)))) := if_neg hidle
    rw [hpit] at hstep
    cases hstep
    rw [← hrunning] at hidle ⊢
    exact ⟨chain, _,
      { inv := switch_resumes hcore hidle rfl rfl
        carried := ⟨hcarried.holds, hcarried.stays, hcarried.parent⟩
        cur := rfl, runs := hidle
        saved := fun hrun => by rw [hself]; exact hsaved hrun
        stays := hstays }⟩

/-! ## Every step -/

/-- The two conditions on a PIT interrupt. -/
def Allowed (M : Machine (Table Sp)) : MachineEvent → Prop
  | .pit _ => Safe M ∧ Startable M.k
  | _ => True

/-- What the processor does next keeps the invariant. -/
theorem inv_step (h : Inv M chain held)
    (hok : ∀ stk, ok stk (some shellCmd) = true) {e : MachineEvent}
    (hallowed : Allowed M e) (hstep : M.step (tableOps ok) e = some M') :
    Goes M.k chain held M' := by
  cases e with
  | pit stk =>
      obtain ⟨chain', held', hswitch⟩ :=
        inv_pit h hok hallowed.1 hallowed.2 hstep
      exact ⟨chain', held', hswitch.inv, hswitch.carried⟩
  | trap trap =>
      obtain ⟨hinv, hk⟩ := inv_trap h hstep
      exact goes_same hinv hk
  | execute stk command => exact inv_execute h hstep
  | halt stk status => exact inv_halt h hok hstep
  | call n =>
      obtain ⟨hinv, hk⟩ := inv_call h hstep
      exact goes_same hinv hk
  | ret =>
      obtain ⟨hinv, hk⟩ := inv_ret h hstep
      exact goes_same hinv hk
  | tss =>
      obtain ⟨hinv, hk⟩ := inv_tss h hstep
      exact goes_same hinv hk
  | iret =>
      obtain ⟨hinv, hk⟩ := inv_iret h hstep
      exact goes_same hinv hk

/-- The idle loop of `entry`. -/
theorem inv_boot {mem : Int → List Frame} {T : Table Sp}
    (hF : Forest T fun _ => []) (hidle : ∀ t, T.running t = -1) :
    Inv { k := T, mem := mem, cpu := .kernel 1 [.boot] .code } (fun _ => [])
      fun _ => (0, []) where
  core :=
    { forest := hF
      saved := fun _ _ hq => absurd hq List.not_mem_nil
      kept := fun _ _ hq => absurd hq List.not_mem_nil
      waiting := fun _ _ hc => absurd hc List.not_mem_nil
      preempted := fun t hrun _ => absurd (hidle t) hrun }
  cpu := .boot hidle .base

end MongOS.Proofs.MachineInvariant
