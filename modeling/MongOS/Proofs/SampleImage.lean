import MongOS.Verified.Run
import MongOS.Model.System

/-!
# A small image and a kernel before its first process

Concrete data for the results about runs: an image whose only program is
`shell`, the 40 bytes that `handle_execuable_check` looks at, and the kernel
with no process started.
-/

namespace MongOS.Proofs.SampleImage

open MongOS.Model
open MongOS.Verified

/-- The ELF header of the program: the magic number and, at offset 24, the
entry point `0x08048000`. -/
def programBytes : List Byte :=
  [0x7f, 0x45, 0x4c, 0x46, 0, 0, 0, 0, 0, 0, 0, 0, 0, 0, 0, 0, 0, 0, 0, 0, 0, 0,
    0, 0, 0x00, 0x80, 0x04, 0x08, 0, 0, 0, 0, 0, 0, 0, 0, 0, 0, 0, 0]

def shellEntry : Dentry :=
  { filename := [115, 104, 101, 108, 108] ++ List.replicate 27 0
    type := 2
    indexNode := 0
    reserved := List.replicate 24 0 }

def shellImage : FileSys :=
  { bootB := some
      { numDirEntries := 1
        numInodes := 1
        numDataBlocks := 1
        dirEntries := fun _ => shellEntry }
    inodeSt := fun _ => { size := 40, dataBlocks := fun _ => 0 }
    datab := fun i => programBytes.getD i 0 }

theorem shell_runnable : ShellRunnable shellImage :=
  ⟨shellEntry, rfl, by decide⟩

/-- The console of an empty system, with blank screens. -/
def idleConsole : Console :=
  { multiTerminal := fun t =>
      { keyboardBuffer := fun _ => 0, bufferSize := 0, terminalEnable := false
        screenX := 0, screenY := 0
        videoCurPos := VIDEO + (t.val + 1) * PAGE
        vidmap := 0, runningPid := -1 }
    currentTid := 0
    displayTerminal := 0
    pageTableVideo := VIDEO / PAGE
    userMapping := fun _ => { present := 0, address := 0 }
    screenT := 0
    mem := fun _ => 0
    cursorPos := 0
    keys := { capsLock := 0, lrShift := 0, lCtrl := 0, lAlt := 0, capsOn := 0 }
    stored := [] }

/-- The kernel with no process started. -/
def idleKernel {σ : Type} (s : σ) : Kernel σ :=
  { con := idleConsole
    pidCnt := 0
    pidSt := fun _ => 0
    pcb := fun _ =>
      { pid := 0, parPid := 0
        farray := fun _ => { fotp := none, inode := 0, filePos := 0, flags := 0 }
        savedEsp := s, savedEbp := s, esp0 := 0
        args := fun _ => 0, name := fun _ => 0, vidmap := 0
        rtcTrigger := 0, rtcCounter := 0, rtcMaxcount := 0 }
    pde := 0
    tssEsp0 := KERNEL_STACK_BUTTOM
    userMem := fun _ _ => 0 }

theorem initialised_idleKernel {σ : Type} (s : σ) : Initialised (idleKernel s) :=
  { running := fun _ => rfl, pidSt := fun _ => rfl, pidCnt := rfl }

/-- Start a base shell on terminal 1, run a second shell in it, switch to
terminal 2 and back. -/
def shellRun : List (ProcEvent Nat) :=
  [.switch 1 ⟨0, []⟩ 10 11 12 13,
    .execute ⟨0, []⟩ (some shellCmd) 20 21,
    .switch 2 ⟨0, []⟩ 30 31 32 33,
    .switch 1 ⟨0, []⟩ 40 41 42 43]

/-- The state at the end of `shellRun`. -/
def shellRunEnd : Kernel Nat :=
  (follow (procStep shellImage) (idleKernel 0) shellRun).getD (idleKernel 0)

theorem shellRun_run :
    Run (ProcStep shellImage) (idleKernel 0) shellRun shellRunEnd :=
  follow_run_getD (procStep shellImage) (by decide)

/-- Start a base shell on terminal 1 and five shells inside it. -/
def sixShells : List (ProcEvent Nat) :=
  .switch 1 ⟨0, []⟩ 10 11 12 13 ::
    List.replicate 5 (.execute ⟨0, []⟩ (some shellCmd) 20 21)

/-- The state at the end of `sixShells`: no pid is free. -/
def sixShellsEnd : Kernel Nat :=
  (follow (procStep shellImage) (idleKernel 0) sixShells).getD (idleKernel 0)

theorem sixShells_run :
    Run (ProcStep shellImage) (idleKernel 0) sixShells sixShellsEnd :=
  follow_run_getD (procStep shellImage) (by decide +kernel)

end MongOS.Proofs.SampleImage
