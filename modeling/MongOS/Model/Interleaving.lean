import MongOS.Model.System
import MongOS.Model.UserPrograms

/-!
# The whole kernel, and a program among other processes

`KernelEvent` are the steps of the system taken together: the system calls of the
process that runs, what its program stores, and the interrupts of the PIT, the RTC
and the keyboard.  Every call and every interrupt is one step.  A system call that
waits is an event that leaves the caller where it is; the call is made again when it
can go on.  A process that ends by a fault is the event `halt` with the status
`EXCEPTION`.

The buffers of `read` and `getargs` are addresses, and what these calls store there
is stored on the user page; `Tame` says that they lie on it, and that no PIT
interrupt looks for a pid in vain.  What a program stores on the page that `vidmap`
opens changes the screen only and is left out.

`JobStep` runs one program of `UserPrograms` as process `p` in this system: the
program makes its calls while `p` runs, and at any other time, or between two
calls, the kernel takes other steps.  The arrays of the program are part of it.
-/

namespace MongOS.Model

variable {σ : Type}

/-- A step of the kernel or of the process that runs. -/
inductive KernelEvent (σ : Type) where
  | video (e : VideoEvent σ)
  | «open» (filename : CStr)
  | read (fd : Int) (buf : Nat) (nbytes : Int)
  | write (fd : Int) (buf : Option (Nat → Byte)) (nbytes : Int)
  | close (fd : Int)
  | getargs (below above : List Byte) (buf : Nat) (nbytes : Int)
  | store (va : Nat) (b : Byte)
  | rtc
  | keyboard (ch : Byte)

/-- What the running process does; the others are interrupts. -/
def KernelEvent.byProcess : KernelEvent σ → Bool
  | .video (.execute ..) => true
  | .video (.halt ..) => true
  | .video (.vidmap _) => true
  | .video (.pit ..) => false
  | .video (.terminalSwitch _) => false
  | .open _ => true
  | .read .. => true
  | .write .. => true
  | .close _ => true
  | .getargs .. => true
  | .store .. => true
  | .rtc => false
  | .keyboard _ => false

/-- The interrupts of the PIT, counted. -/
def KernelEvent.ticks : KernelEvent σ → Nat
  | .video (.pit ..) => 1
  | _ => 0

/-! ## The user page -/

/-- Where the user page ends. -/
def USER_END : Nat := USER_BASE + 2 ^ PDE_OFFSET

/-- The `n` bytes from `va` on lie on the user page. -/
def OnPage (va n : Nat) : Prop := USER_BASE ≤ va ∧ va + n ≤ USER_END

instance (va n : Nat) : Decidable (OnPage va n) :=
  inferInstanceAs (Decidable (_ ∧ _))

/-- The array at an address of the user page; `NULL` is `none`. -/
def userArray (k : Kernel σ) (va : Nat) : Option (Nat → Byte) :=
  if va = 0 then none else some fun i => k.userByte (va + i)

/-- The user page with an array stored at an address. -/
def storeUser (k : Kernel σ) (va : Nat) (a : Nat → Byte) : Kernel σ :=
  let off := va - USER_BASE
  let page := fun i => if off ≤ i then a (i - off) else k.userMem k.pde i
  { k with userMem := Function.update k.userMem k.pde page }

/-- How a call with an array at `va` ends; one that faults does not. -/
def finishCall (va : Nat) (k : Kernel σ) : CallResult → Option (Kernel σ)
  | .ret _ a => some (if va = 0 then k else storeUser k va a)
  | .waits => some k
  | .faults => none

/-! ## Steps -/

/-- What the running process does in the kernel or on its page. -/
def processStep (fs : FileSys) (k : Kernel σ) : KernelEvent σ → Option (Kernel σ)
  | .open filename => some («open» fs k filename).1
  | .read fd buf nbytes =>
      let r := read fs k fd (userArray k buf) nbytes
      finishCall buf r.1 r.2
  | .write fd buf nbytes =>
      match write k fd buf nbytes with
      | (_, .faults) => none
      | (k, _) => some k
  | .close fd => some (close fs k fd).1
  | .getargs below above buf nbytes =>
      finishCall buf k
        (getargs k below above (USER_END - buf) (userArray k buf) nbytes)
  | .store va b =>
      some (storeUser k va fun i => if i = 0 then b else k.userByte (va + i))
  | _ => none

/-- One step. -/
def kernelStep (fs : FileSys) (k : Kernel σ) : KernelEvent σ → Option (Kernel σ)
  | .video e => videoStep fs k e
  | .rtc => some (rtcIrq k)
  | .keyboard ch => some { k with con := keyboardIrq k.con ch }
  | e => if k.running = -1 then none else processStep fs k e

def KernelStep (fs : FileSys) (k : Kernel σ) (e : KernelEvent σ) (k' : Kernel σ) :
    Prop := kernelStep fs k e = some k'

/-- A PIT interrupt finds a process on the next terminal or a pid for its base
shell, and what a process stores lies on its page.  The remainder loop of `mycopy`
may store up to eight bytes behind the buffer of a `read`. -/
def Tame (k : Kernel σ) : KernelEvent σ → Prop
  | .video (.vidmap screenStart) =>
      screenStart / 2 ^ PDE_OFFSET = PDE_INDEX → OnPage screenStart 4
  | .video e => Served k e
  | .read _ buf nbytes => buf = 0 ∨ OnPage buf (nbytes.toNat + 8)
  | .getargs _ _ buf _ => buf = 0 ∨ OnPage buf 0
  | .store va _ => OnPage va 1
  | _ => True

instance (k : Kernel σ) : (e : KernelEvent σ) → Decidable (Tame k e)
  | .video (.vidmap _) => inferInstanceAs (Decidable (_ → OnPage _ 4))
  | .video (.pit ..) => inferInstanceAs (Decidable (CanStart k))
  | .video (.execute ..) => isTrue trivial
  | .video (.halt ..) => isTrue trivial
  | .video (.terminalSwitch _) => isTrue trivial
  | .read .. => inferInstanceAs (Decidable (_ ∨ OnPage _ _))
  | .getargs .. => inferInstanceAs (Decidable (_ ∨ OnPage _ 0))
  | .store .. => inferInstanceAs (Decidable (OnPage _ 1))
  | .open _ => isTrue trivial
  | .write .. => isTrue trivial
  | .close _ => isTrue trivial
  | .rtc => isTrue trivial
  | .keyboard _ => isTrue trivial

/-- The event is nothing that process `p` does. -/
def Foreign (p : Int) (k : Kernel σ) (e : KernelEvent σ) : Prop :=
  e.byProcess = true → k.running ≠ p

instance (p : Int) (k : Kernel σ) (e : KernelEvent σ) : Decidable (Foreign p k e) :=
  inferInstanceAs (Decidable (_ → _))

/-- A tame step of the others. -/
def Aside (p : Int) (k : Kernel σ) (e : KernelEvent σ) : Prop :=
  Tame k e ∧ Foreign p k e

instance (p : Int) (k : Kernel σ) (e : KernelEvent σ) : Decidable (Aside p k e) :=
  inferInstanceAs (Decidable (_ ∧ _))

end MongOS.Model
