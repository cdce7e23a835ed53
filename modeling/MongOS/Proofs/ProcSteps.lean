import MongOS.Proofs.ExecuteChecks
import MongOS.Proofs.ScreenFrame

/-!
# The steps of the process system on kernels

`ProcTable` follows the process functions on the process table.  The results
about other data of the control blocks and about the page tables need the
kernel itself: `execute_installs`, `step_execute`, `step_halt` and
`step_switch` say which kernel a step ends in, in terms of the parts that
`ProcTable` has cut the functions into.
-/

namespace MongOS.Proofs.ProcSteps

open MongOS.Model
open MongOS.Proofs.ProcTable
open MongOS.Proofs.ScreenFrame
open MongOS.Proofs.ExecuteChecks

variable {σ : Type}

/-- What a call of `execute` leaves behind that has installed a process on pid
`i + 1`. -/
structure Installs (k : Kernel σ) (command : CStr) (i : Nat) (esp ebp : σ)
    (k' : Kernel σ) : Prop where
  free : (table k).lowestFree = some i
  pidSt : k'.pidSt = Function.update k.pidSt i 1
  pcb : k'.pcb = (installed k command i esp ebp).pcb
  con : k'.con = (installed k command i esp ebp).con

/-- `execute` returns and has changed nothing, without an executable or a free
pid, or it has installed an executable on the lowest free pid. -/
theorem execute_installs (fs : FileSys) (stk : CStr) (k : Kernel σ)
    (command : Option CStr) (esp ebp : σ) :
    ((∃ value, execute fs stk k command esp ebp = (k, .ret value)) ∧
      ∀ c, command = some c → Runnable fs stk c →
        (table k).lowestFree = none) ∨
      ∃ (c : CStr) (i entAdd : Nat), command = some c ∧ Runnable fs stk c ∧
        (execute fs stk k command esp ebp).2 = .enter ((i : Int) + 1) entAdd ∧
        Installs k c i esp ebp
          (finishExecute (execute fs stk k command esp ebp)) := by
  rcases execute_cases fs stk k command esp ebp with hret | hspawn
  · obtain ⟨value, hret⟩ := hret
    refine .inl ⟨⟨value, hret⟩, ?_⟩
    rintro c rfl hrun
    by_contra hfree
    obtain ⟨i, entAdd, -, henter, -⟩ := execute_spawned esp ebp hrun hfree
    rw [hret] at henter
    cases henter
  · right
    obtain ⟨i, hfree, htable⟩ := finishExecute_spawned hspawn
    obtain ⟨j, entAdd, -, henter, -⟩ := hspawn
    obtain ⟨c, d, rfl, hfound⟩ := found_of_enter henter
    have hrunnable : Runnable fs stk c := by
      by_contra hno
      rw [execute_unrunnable_some esp ebp hno] at henter
      cases henter
    obtain ⟨i', hfree', hpid, -, -, hload⟩ := execute_enters hfound henter
    rw [hfree] at hfree'
    cases hfree'
    rw [hpid] at henter
    have hused := congrArg Table.used htable
    generalize execute fs stk k (some c) esp ebp = r at henter hload hused ⊢
    obtain ⟨k', res⟩ := r
    subst henter
    subst hload
    refine ⟨c, i, entAdd, rfl, hrunnable, rfl,
      { free := hfree, pidSt := ?_, pcb := rfl, con := rfl }⟩
    refine hused.trans ((spawn_used _ _ _ _).trans ?_)
    rw [Int.add_sub_cancel]
    rfl

/-! ## `execute` and `halt` -/

/-- One round of the clean-up loop. -/
def closeRound (fs : FileSys) (pid : Int) (k : Kernel σ) (i : Int) : Kernel σ :=
  if ((k.pcb pid).farray i).flags = FREE then k else (close fs k i).1

theorem closeAll_eq (fs : FileSys) (k : Kernel σ) (pid : Int) :
    closeAll fs k pid = [2, 3, 4, 5, 6, 7].foldl (closeRound fs pid) k := rfl

theorem step_execute {fs : FileSys} {k k' : Kernel σ} {stk : CStr}
    {command : Option CStr} {esp ebp : σ}
    (h : ProcStep fs k (.execute stk command esp ebp) k') :
    k.running ≠ -1 ∧
      k' = finishExecute (execute fs stk k command esp ebp) := by
  simp only [ProcStep, procStep] at h
  split at h
  · cases h
  · rename_i hhead
    cases h
    exact ⟨hhead, rfl⟩

/-- `halt` starts a base shell again, or goes back to the parent. -/
theorem step_halt {fs : FileSys} {k k' : Kernel σ} {stk : CStr} {status : Byte}
    {esp ebp : σ} (h : ProcStep fs k (.halt stk status esp ebp) k') :
    k.running ≠ -1 ∧
      (((k.pcb k.running).parPid = -1 ∧
        k' = finishExecute (execute fs stk ((afterClose fs k).setRunning (-1))
          (some shellCmd) esp ebp)) ∨
      ((k.pcb k.running).parPid ≠ -1 ∧
        k' = backToParent (afterClose fs k) (k.pcb k.running).parPid)) := by
  simp only [ProcStep, procStep] at h
  split at h
  · cases h
  · rename_i hhead
    refine ⟨hhead, ?_⟩
    by_cases hbase : (table k).parent k.running = -1
    · rw [halt_restarts fs stk status esp ebp hbase] at h
      cases h
      exact .inl ⟨hbase, rfl⟩
    · rw [halt_returns fs stk status esp ebp hbase] at h
      cases h
      exact .inr ⟨hbase, rfl⟩

/-! ## `process_switch` -/

/-- What the console functions keep of a console keeps the process table. -/
theorem table_setCon (k : Kernel σ) {con : Console}
    (hrun : (input con).running = (input k.con).running)
    (hcur : con.currentTid = k.con.currentTid) :
    table { k with con := con } = table k := by
  have hrunning : ({ k with con := con } : Kernel σ).runningPid =
      k.runningPid := hrun
  unfold ProcTable.table
  rw [hrunning]
  simp only [hcur]

theorem step_switch {fs : FileSys} {k k' : Kernel σ} {tid : Tid} {stk : CStr}
    {esp ebp espExe ebpExe : σ}
    (h : ProcStep fs k (.switch tid stk esp ebp espExe ebpExe) k') :
    (k.runningPid tid = -1 ∧
      k' = finishExecute (execute fs stk (visited k tid esp ebp)
        (some shellCmd) espExe ebpExe)) ∨
    (k.runningPid tid ≠ -1 ∧ k' = resumed k tid esp ebp) := by
  simp only [ProcStep, procStep] at h
  by_cases hidle : k.runningPid tid = -1
  · rw [processSwitch_visited stk esp ebp espExe ebpExe hidle] at h
    cases h
    exact .inl ⟨hidle, rfl⟩
  · rw [processSwitch_resumed stk esp ebp espExe ebpExe hidle] at h
    cases h
    exact .inr ⟨hidle, rfl⟩

/-- A switch stores stack pointers in a control block and nothing else. -/
theorem saveRunning_proj {α : Type} (proj : Pcb σ → α)
    (hsaved : ∀ pcb esp ebp x,
      proj { pcb with savedEbp := ebp, savedEsp := esp, esp0 := x } = proj pcb)
    (k : Kernel σ) (esp ebp : σ) (p : Int) :
    proj ((saveRunning k esp ebp).pcb p) = proj (k.pcb p) := by
  unfold saveRunning
  split
  · exact proj_modifyPcb proj k _ p _ fun pcb => hsaved pcb esp ebp _
  · rfl

theorem saveRunning_pidSt (k : Kernel σ) (esp ebp : σ) :
    (saveRunning k esp ebp).pidSt = k.pidSt := by
  unfold saveRunning
  split <;> rfl

end MongOS.Proofs.ProcSteps
