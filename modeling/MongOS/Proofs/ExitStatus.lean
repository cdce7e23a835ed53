import MongOS.Proofs.SavedFrames

/-!
# What a parent learns about the end of its child

A process ends by calling `halt` with a status byte, or by an exception, which
makes `err_handle` call `halt` with the status `EXCEPTION`.  In both cases
`halt_asm` returns to the parent's `execute` with a value that `halt` computes
from the status alone, so that `halt(255)` of a program and an exception cannot
be told apart.
-/

namespace MongOS.Proofs.ExitStatus

open MongOS.Model
open MongOS.Verified
open MongOS.Proofs.ProcTable
open MongOS.Proofs.ProcForest
open MongOS.Proofs.SavedFrames

variable {σ : Type}

/-- The two ways a process ends. -/
inductive Ending where
  | exception
  | exit (status : Byte)
  deriving DecidableEq

/-- The kernel function that ends the running process. -/
def endProcess (fs : FileSys) (stk : CStr) (k : Kernel σ) (esp ebp : σ) :
    Ending → Kernel σ × HaltResult σ
  | .exception => errHandle fs stk k esp ebp
  | .exit status => halt fs stk k status esp ebp

/-- The value that an ending is turned into. -/
def endingValue : Ending → Nat
  | .exception => EXCEPT_RET
  | .exit status => returnValue status

/-- A value tells the parent how its child ended: 256 for an exception, and the
status otherwise. -/
structure Tells (value : Nat) (ending : Ending) : Prop where
  exception : value = 256 ↔ ending = .exception
  exit : ∀ status, ending = .exit status → value = status.toNat

/-- The value of an ending tells it, unless it is an exit with status 255. -/
theorem tells_iff (ending : Ending) :
    Tells (endingValue ending) ending ↔ ending ≠ .exit 255 := by
  cases ending with
  | exception =>
      refine iff_of_true ?_ nofun
      exact { exception := iff_of_true rfl rfl, exit := nofun }
  | exit status =>
      have hlt : status.toNat < 256 := status.toNat_lt
      by_cases hstatus : status = 255
      · subst hstatus
        refine iff_of_false (fun htells => ?_) (not_not.2 rfl)
        have hexception := htells.exception.1 rfl
        cases hexception
      · have hvalue : endingValue (.exit status) = status.toNat := if_neg hstatus
        refine iff_of_true ?_ (fun h => hstatus (by cases h; rfl))
        rw [hvalue]
        refine { exception := iff_of_false (by omega) nofun, exit := ?_ }
        intro s hs
        cases hs
        rfl

/-- An ending of a child goes back to the parent's `execute`. -/
theorem endProcess_child (fs : FileSys) (k : Kernel σ) (stk : CStr)
    (ending : Ending) (esp ebp : σ) (hpar : (k.pcb k.running).parPid ≠ -1) :
    (endProcess fs stk k esp ebp ending).2 =
      .resume (k.pcb (k.pcb k.running).parPid).savedEsp
        (k.pcb (k.pcb k.running).parPid).savedEbp (endingValue ending) := by
  cases ending with
  | exception => exact (halt_child fs k stk EXCEPTION esp ebp hpar).2
  | exit status => exact (halt_child fs k stk status esp ebp hpar).2

/-- In every reachable state the end of a process with a parent makes the
parent's own call of `execute` return, and the value it returns tells the
parent how the child ended if and only if the child did not call `halt(255)`. -/
theorem exit_status_reaches_parent {fs : FileSys} {k0 k : Kernel σ}
    {es : List (ProcEvent σ)} (h0 : Initialised k0)
    (hrun : Run (ProcStep fs) k0 es k) (hhead : k.running ≠ -1)
    (hpar : (k.pcb k.running).parPid ≠ -1) :
    ∃ esp ebp,
      SpawnedBy fs k0 es k k.con.currentTid k.running (k.pcb k.running).parPid
        esp ebp ∧
      ∀ stk espExe ebpExe ending, ∃ value,
        (endProcess fs stk k espExe ebpExe ending).2 = .resume esp ebp value ∧
          (Tells value ending ↔ ending ≠ .exit 255) := by
  obtain ⟨chain, hF⟩ := forest_reachable h0 hrun
  have hc : k.running ∈ chain k.con.currentTid := hF.running_mem hhead
  refine ⟨_, _, frame_kept h0 hrun hF hc hpar, fun stk espExe ebpExe ending => ?_⟩
  exact ⟨endingValue ending, endProcess_child fs k stk ending espExe ebpExe hpar,
    tells_iff ending⟩

/-- The second shell of `shellRun` ends. -/
theorem shellRun_tells :
    ∃ esp ebp,
      SpawnedBy SampleImage.shellImage (SampleImage.idleKernel 0)
        SampleImage.shellRun SampleImage.shellRunEnd
        SampleImage.shellRunEnd.con.currentTid SampleImage.shellRunEnd.running
        (SampleImage.shellRunEnd.pcb SampleImage.shellRunEnd.running).parPid
        esp ebp ∧
      ∀ stk espExe ebpExe ending, ∃ value,
        (endProcess SampleImage.shellImage stk SampleImage.shellRunEnd espExe
          ebpExe ending).2 = .resume esp ebp value ∧
          (Tells value ending ↔ ending ≠ .exit 255) :=
  exit_status_reaches_parent (SampleImage.initialised_idleKernel 0)
    SampleImage.shellRun_run (by decide) (by decide)

/-- When it calls `halt(255)`, its parent gets 256, as after an exception. -/
theorem halt_255_reported_as_exception :
    Run (ProcStep SampleImage.shellImage) (SampleImage.idleKernel 0)
      SampleImage.shellRun SampleImage.shellRunEnd ∧
    ∃ esp ebp,
      (endProcess SampleImage.shellImage ⟨0, []⟩ SampleImage.shellRunEnd 50 51
        (.exit 255)).2 = .resume esp ebp 256 ∧
      (endProcess SampleImage.shellImage ⟨0, []⟩ SampleImage.shellRunEnd 50 51
        .exception).2 = .resume esp ebp 256 ∧
      ¬ Tells 256 (.exit 255) := by
  refine ⟨SampleImage.shellRun_run, 20, 21, ?_, ?_, fun htells => ?_⟩
  · exact endProcess_child _ _ _ (.exit 255) 50 51 (by decide)
  · exact endProcess_child _ _ _ .exception 50 51 (by decide)
  · have hexception := htells.exception.1 rfl
    cases hexception

end MongOS.Proofs.ExitStatus
