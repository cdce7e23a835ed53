import MongOS.Model.Machine
import MongOS.Proofs.ProcTable

/-!
# The machine over process tables

What the processor and the kernel stacks do depends on the process table only.
`tableOps` are the operations of the kernel on process tables, and `step_map`
says that a step commutes with forgetting the rest of the kernel, so that
everything about runs of the machine can be proved, and computed, on tables.
-/

namespace MongOS.Proofs.MachineTable

open MongOS.Model
open MongOS.Proofs.ProcTable

/-- A call of `execute` on a process table; `ok` says that the command names an
executable. -/
def start (ok : Bool) (T : Table Sp) (sp : Sp) : Table Sp × Option Int :=
  if ok then
    match T.lowestFree with
    | some i => (T.spawn ((i : Int) + 1) sp sp, some ((i : Int) + 1))
    | none => (T, none)
  else (T, none)

/-- The operations of the kernel on process tables. -/
def tableOps (ok : CStr → Option CStr → Bool) : KernelOps (Table Sp) where
  running T := T.head
  tssEsp0 T := T.tssEsp0
  execute T stk command sp := start (ok stk command) T sp
  halt T stk _ sp :=
    if T.parent T.head = -1 then
      let r := start (ok stk (some shellCmd)) T.leave sp
      (r.1, .restart r.2)
    else (T.leave.reload, .resume (T.savedEsp (T.parent T.head)))
  pitIrq T stk sp spExe :=
    let t := T.cur + 1
    if T.running t = -1 then
      let r := start (ok stk (some shellCmd)) ((T.save sp sp).visit t) spExe
      (r.1, .started r.2)
    else
      ((T.save sp sp).resume t, .resume ((T.save sp sp).savedEsp (T.running t)))
  executeTail T p := T.enter p

/-! ## The kernel and its process table -/

section Kernel

open Classical in
/-- The command names an executable. -/
noncomputable def loads (fs : FileSys) (stk : CStr) (command : Option CStr) :
    Bool :=
  decide (∃ c, command = some c ∧ Runnable fs stk c)

open Classical in
theorem loads_iff {fs : FileSys} {stk : CStr} {command : Option CStr} :
    loads fs stk command = true ↔ ∃ c, command = some c ∧ Runnable fs stk c :=
  decide_eq_true_iff

theorem loads_shell {fs : FileSys} (h : ShellRunnable fs) (stk : CStr)
    {command : Option CStr}
    (hcommand : command.map CStr.bytes = some shellCmd.bytes) :
    loads fs stk command = true := by
  obtain ⟨d, hfound, hcheck⟩ := (runnable_shell fs stk).2 h
  obtain ⟨c, rfl, hbytes⟩ := Option.map_eq_some_iff.1 hcommand
  rw [← hbytes] at hfound
  exact loads_iff.2 ⟨c, rfl, d, hfound, hcheck⟩

variable (fs : FileSys)

theorem execute_table (k : Kernel Sp) (stk : CStr) (command : Option CStr)
    (sp : Sp) :
    (table (execute fs stk k command sp sp).1,
      (execute fs stk k command sp sp).2.entered) =
      start (loads fs stk command) (table k) sp := by
  unfold start
  by_cases hloads : loads fs stk command = true
  · obtain ⟨c, rfl, hc⟩ := loads_iff.1 hloads
    rw [if_pos hloads]
    cases hfree : (table k).lowestFree with
    | none =>
        have hfull : ∃ value, execute fs stk k (some c) sp sp = (k, .ret value) :=
          execute_full (some c) sp sp hfree
        obtain ⟨value, hret⟩ := hfull
        rw [hret]
        rfl
    | some i =>
        obtain ⟨j, entAdd, hj, hres, htable⟩ :=
          execute_spawned sp sp hc (by rw [hfree]; exact nofun)
        rw [hfree] at hj
        cases hj
        rw [hres, htable]
        rfl
  · have hunrunnable : ∀ c, command = some c → ¬ Runnable fs stk c :=
      fun c hc hrunnable => hloads (loads_iff.2 ⟨c, hc, hrunnable⟩)
    have hnone : ∃ value, execute fs stk k command sp sp = (k, .ret value) :=
      execute_unrunnable sp sp hunrunnable
    obtain ⟨value, hret⟩ := hnone
    rw [if_neg hloads, hret]
    rfl

/-- The operations of two kernels that agree through `φ`. -/
structure OpsHom {K K' : Type} (o : KernelOps K) (o' : KernelOps K')
    (φ : K → K') : Prop where
  running : ∀ k, o'.running (φ k) = o.running k
  tssEsp0 : ∀ k, o'.tssEsp0 (φ k) = o.tssEsp0 k
  execute : ∀ k stk command sp, o'.execute (φ k) stk command sp =
    (φ (o.execute k stk command sp).1, (o.execute k stk command sp).2)
  halt : ∀ k stk status sp, o'.halt (φ k) stk status sp =
    (φ (o.halt k stk status sp).1, (o.halt k stk status sp).2)
  pitIrq : ∀ k stk sp spExe, o'.pitIrq (φ k) stk sp spExe =
    (φ (o.pitIrq k stk sp spExe).1, (o.pitIrq k stk sp spExe).2)
  executeTail : ∀ k p, o'.executeTail (φ k) p = φ (o.executeTail k p)

theorem halt_table (k : Kernel Sp) (stk : CStr) (status : Byte) (sp : Sp) :
    (tableOps (loads fs)).halt (table k) stk status sp =
      (table ((kernelOps fs).halt k stk status sp).1,
        ((kernelOps fs).halt k stk status sp).2) := by
  unfold tableOps kernelOps
  dsimp only
  by_cases hbase : (table k).parent (table k).head = -1
  · obtain ⟨m, hm, hhalt⟩ := halt_base fs k stk status sp sp hbase
    have hstart := execute_table fs m stk (some shellCmd) sp
    rw [if_pos hbase, hhalt, ← hm, ← hstart]
  · obtain ⟨htable, hres⟩ := halt_child fs k stk status sp sp hbase
    rw [if_neg hbase]
    generalize Model.halt fs stk k status sp sp = r at htable hres ⊢
    obtain ⟨m, res⟩ := r
    dsimp only at htable hres
    rw [hres, htable]
    rfl

theorem pitIrq_table (k : Kernel Sp) (stk : CStr) (sp spExe : Sp) :
    (tableOps (loads fs)).pitIrq (table k) stk sp spExe =
      (table ((kernelOps fs).pitIrq k stk sp spExe).1,
        ((kernelOps fs).pitIrq k stk sp spExe).2) := by
  unfold tableOps kernelOps Model.pitIrq
  dsimp only
  have htable := table_vidMem k (k.con.currentTid + 1)
  generalize hk : ({ k with con := vidMem k.con (k.con.currentTid + 1) } :
    Kernel Sp) = k' at htable ⊢
  by_cases hidle : (table k).running ((table k).cur + 1) = -1
  · have hidle' : k'.runningPid (k.con.currentTid + 1) = -1 := by
      rw [show k'.runningPid = (table k').running from rfl, htable]
      exact hidle
    obtain ⟨m, hm, hswitch⟩ :=
      processSwitch_idle fs k' stk sp sp spExe spExe hidle'
    have hstart := execute_table fs m stk (some shellCmd) spExe
    rw [htable] at hm
    rw [if_pos hidle, hswitch]
    rw [show (table k).cur = k.con.currentTid from rfl, ← hm, ← hstart]
  · have hbusy : k'.runningPid (k.con.currentTid + 1) ≠ -1 := by
      rw [show k'.runningPid = (table k').running from rfl, htable]
      exact hidle
    obtain ⟨hresume, hres⟩ :=
      processSwitch_resume fs k' stk sp sp spExe spExe hbusy
    rw [htable] at hresume hres
    rw [if_neg hidle]
    generalize processSwitch fs stk k' (k.con.currentTid + 1) sp sp spExe
      spExe = r at hresume hres ⊢
    obtain ⟨m, res⟩ := r
    dsimp only at hresume hres
    rw [hres, hresume]
    rw [show k'.runningPid = (table k').running from rfl, htable]
    rfl

/-- The process table of the kernel. -/
theorem table_hom : OpsHom (kernelOps fs) (tableOps (loads fs)) table where
  running _ := rfl
  tssEsp0 _ := rfl
  execute k stk command sp := (execute_table fs k stk command sp).symm
  halt := halt_table fs
  pitIrq := pitIrq_table fs
  executeTail _ _ := rfl

end Kernel

/-! ## Steps -/

/-- Change the kernel of a machine. -/
def mapMachine {K K' : Type} (φ : K → K') (m : Machine K) : Machine K' :=
  { k := φ m.k, mem := m.mem, cpu := m.cpu }

section Steps

variable {K K' : Type} {o : KernelOps K} {o' : KernelOps K'} {φ : K → K'}

theorem map_afterExecute (m : Machine K) (b : Int) (stack caller : List Frame)
    (pid : Option Int) :
    (m.afterExecute b stack caller pid).map (mapMachine φ) =
      (mapMachine φ m).afterExecute b stack caller pid := by
  cases pid with
  | some p => rfl
  | none =>
      unfold Machine.afterExecute
      dsimp only
      rw [Option.map_map]
      rfl

theorem map_gate (h : OpsHom o o' φ) (m : Machine K) (trap : Trap) :
    (mapMachine φ m).gate o' trap = m.gate o trap := by
  unfold Machine.gate mapMachine
  rw [h.tssEsp0]

theorem map_cpu (m : Machine K) : (mapMachine φ m).cpu = m.cpu := rfl

theorem map_k (m : Machine K) : (mapMachine φ m).k = φ m.k := rfl

/-- A step of the machine is a step over the other kernel. -/
theorem step_map (h : OpsHom o o' φ) (m : Machine K) (e : MachineEvent) :
    (m.step o e).map (mapMachine φ) = (mapMachine φ m).step o' e := by
  cases e with
  | pit stk =>
      show (m.pitStep o stk).map _ = (mapMachine φ m).pitStep o' stk
      unfold Machine.pitStep
      rw [map_gate h]
      cases m.gate o .irq with
      | none => rfl
      | some g =>
          obtain ⟨b, caller⟩ := g
          simp only [Option.bind_some]
          rw [map_k, h.pitIrq]
          cases (o.pitIrq m.k stk (spOf b (.pit :: caller))
            (spOf b (.execute 0 :: .pit :: caller))).2 with
          | started pid => exact map_afterExecute _ b _ caller pid
          | resume sp => rfl
  | trap trap =>
      show (m.trapStep o trap).map _ = (mapMachine φ m).trapStep o' trap
      unfold Machine.trapStep
      rw [map_gate h, Option.map_map]
      rfl
  | execute stk command =>
      show (m.executeStep o stk command).map _ =
        (mapMachine φ m).executeStep o' stk command
      unfold Machine.executeStep
      rw [map_cpu]
      split
      · dsimp only
        rw [map_k, h.execute]
        exact map_afterExecute _ _ _ _ _
      · rfl
  | halt stk status =>
      show (m.haltStep o stk status).map _ =
        (mapMachine φ m).haltStep o' stk status
      unfold Machine.haltStep
      rw [map_cpu]
      split
      · rename_i b caller hcpu
        rw [map_k, h.running]
        split
        · rfl
        · dsimp only
          rw [h.halt]
          cases (o.halt m.k stk status
            (spOf b (.execute 0 :: .halt :: caller))).2 with
          | restart pid => exact map_afterExecute _ b _ caller pid
          | resume sp => rfl
      · rfl
  | call n =>
      show (m.callStep n).map _ = (mapMachine φ m).callStep n
      unfold Machine.callStep
      rw [map_cpu]
      split <;> rfl
  | ret =>
      show m.retStep.map _ = (mapMachine φ m).retStep
      unfold Machine.retStep
      rw [map_cpu]
      split
      · rw [Option.map_map]
        rfl
      · rfl
  | tss =>
      show (m.tssStep o).map _ = (mapMachine φ m).tssStep o'
      unfold Machine.tssStep
      rw [map_cpu]
      split
      · rw [map_k, h.executeTail]
        rfl
      · rfl
  | iret =>
      show m.iretStep.map _ = (mapMachine φ m).iretStep
      unfold Machine.iretStep
      rw [map_cpu]
      split <;> rfl

end Steps

/-- The machine as far as the process table goes. -/
def tableMachine (m : Machine (Kernel Sp)) : Machine (Table Sp) := mapMachine table m

theorem table_of_same {k k' : Kernel Sp} (h : SameProcesses k k') :
    table k' = table k :=
  Table.ext h.currentTid h.runningPid h.pidCnt h.pidSt (funext h.pid)
    (funext h.parPid) (funext h.savedEsp) (funext h.savedEbp) (funext h.esp0)
    h.pde h.tssEsp0

/-- Every step of the machine is one on process tables. -/
theorem machineStep_table {fs : FileSys} {m m' : Machine (Kernel Sp)}
    {e : MachineEvent} (h : MachineStep fs m e m') :
    (tableMachine m).step (tableOps (loads fs)) e = some (tableMachine m') := by
  obtain ⟨n, hstep, hmem, hcpu, hsame⟩ := h
  have habs : tableMachine m' = tableMachine n := by
    unfold tableMachine mapMachine
    rw [hmem, hcpu, table_of_same hsame]
  rw [habs, tableMachine, ← step_map (table_hom fs), hstep]
  rfl

theorem same_refl (k : Kernel Sp) : SameProcesses k k :=
  ⟨rfl, rfl, rfl, rfl, fun _ => rfl, fun _ => rfl, fun _ => rfl, fun _ => rfl,
    fun _ => rfl, rfl, rfl⟩

/-- And every step on tables is taken by the machine. -/
theorem machineStep_of_table {fs : FileSys} {m : Machine (Kernel Sp)}
    {M' : Machine (Table Sp)} {e : MachineEvent}
    (h : (tableMachine m).step (tableOps (loads fs)) e = some M') :
    ∃ m', MachineStep fs m e m' ∧ tableMachine m' = M' := by
  have hmap := step_map (table_hom fs) m e
  rw [show mapMachine table m = tableMachine m from rfl, h] at hmap
  obtain ⟨n, hn, habs⟩ := Option.map_eq_some_iff.1 hmap
  exact ⟨n, ⟨n, hn, rfl, rfl, same_refl n.k⟩, habs⟩

end MongOS.Proofs.MachineTable
