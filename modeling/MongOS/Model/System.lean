import MongOS.Model.Process

/-!
# The process system, one step a call

The processes of the three terminals as a transition system in which every
`execute`, `halt` and `process_switch` is one step: an `execute` that succeeds
has entered user mode when the step ends.  The stack pointers that the calls
store are inputs of the events; the kernel only moves them around.
-/

namespace MongOS.Model

variable {σ : Type}

/-- A call of one of the process functions, with the stack pointers of the
activations that store theirs and the stack contents around `fname`. -/
inductive ProcEvent (σ : Type) where
  | switch (tid : Tid) (stk : CStr) (esp ebp espExe ebpExe : σ)
  | execute (stk : CStr) (command : Option CStr) (esp ebp : σ)
  | halt (stk : CStr) (status : Byte) (esp ebp : σ)

/-- A call of `execute` to its end: entering user mode, or returning. -/
def finishExecute : Kernel σ × ExecResult → Kernel σ
  | (k, .ret _) => k
  | (k, .enter pid _) => executeTail k pid

/-- One step.  `execute` and `halt` are calls of the process that runs on the
current terminal, so there must be one. -/
def procStep (fs : FileSys) (k : Kernel σ) : ProcEvent σ → Option (Kernel σ)
  | .switch tid stk esp ebp espExe ebpExe =>
      match processSwitch fs stk k tid esp ebp espExe ebpExe with
      | (k, .started r) => some (finishExecute (k, r))
      | (k, .resume _ _) => some k
  | .execute stk command esp ebp =>
      if k.running = -1 then none
      else some (finishExecute (execute fs stk k command esp ebp))
  | .halt stk status esp ebp =>
      if k.running = -1 then none
      else
        match halt fs stk k status esp ebp with
        | (k, .restart r) => some (finishExecute (k, r))
        | (k, .resume _ _ _) => some k

/-- The step relation of the process system. -/
def ProcStep (fs : FileSys) (k : Kernel σ) (e : ProcEvent σ) (k' : Kernel σ) :
    Prop := procStep fs k e = some k'

/-! ## Descriptor calls between the process calls -/

/-- A call of one of the process functions, a descriptor call of the process
that runs on the current terminal, or an interrupt of the RTC. -/
inductive RtcEvent (σ : Type) where
  | proc (e : ProcEvent σ)
  | «open» (filename : CStr)
  | close (fd : Int)
  | write (fd : Int) (buf : Option (Nat → Byte)) (nbytes : Int)
  | irq

/-- One step. -/
def rtcStep (fs : FileSys) (k : Kernel σ) : RtcEvent σ → Option (Kernel σ)
  | .proc e => procStep fs k e
  | .open filename =>
      if k.running = -1 then none else some («open» fs k filename).1
  | .close fd => if k.running = -1 then none else some (close fs k fd).1
  | .write fd buf nbytes =>
      if k.running = -1 then none else some (write k fd buf nbytes).1
  | .irq => some (rtcIrq k)

def RtcStep (fs : FileSys) (k : Kernel σ) (e : RtcEvent σ) (k' : Kernel σ) :
    Prop := rtcStep fs k e = some k'

/-! ## Video mappings between the process calls -/

/-- A call of `execute`, `halt` or `vidmap` by the process that runs on the
current terminal, an interrupt of the PIT, or a terminal switch. -/
inductive VideoEvent (σ : Type) where
  | execute (stk : CStr) (command : Option CStr) (esp ebp : σ)
  | halt (stk : CStr) (status : Byte) (esp ebp : σ)
  | vidmap (screenStart : Nat)
  | pit (stk : CStr) (esp ebp espExe ebpExe : σ)
  | terminalSwitch (tid : Tid)

/-- One step. -/
def videoStep (fs : FileSys) (k : Kernel σ) : VideoEvent σ → Option (Kernel σ)
  | .execute stk command esp ebp =>
      procStep fs k (.execute stk command esp ebp)
  | .halt stk status esp ebp => procStep fs k (.halt stk status esp ebp)
  | .vidmap screenStart =>
      if k.running = -1 then none else some (vidmap k screenStart).1
  | .pit stk esp ebp espExe ebpExe =>
      match pitIrq fs stk k esp ebp espExe ebpExe with
      | (k, .started r) => some (finishExecute (k, r))
      | (k, .resume _ _) => some k
  | .terminalSwitch tid => some { k with con := terminalSwitch k.con tid }

def VideoStep (fs : FileSys) (k : Kernel σ) (e : VideoEvent σ) (k' : Kernel σ) :
    Prop := videoStep fs k e = some k'

/-! ## File operations -/

/-- An operation that uses the file system: the lookups of `filesys.c`, or a
system call. -/
inductive FileOp (σ : Type) where
  | readDentryByName (fname : CStr)
  | readDentryByIndex (index : Nat)
  | dirRead (fd : Nat) (buf : Nat → Byte) (nbytes : Int)
  | «open» (filename : CStr)
  | read (fd : Int) (buf : Option (Nat → Byte)) (nbytes : Int)
  | close (fd : Int)
  | execute (stk : CStr) (command : Option CStr) (esp ebp : σ)

/-- One operation.  None of them assigns the pointers of the file system. -/
def fileStep (s : FileSys × Kernel σ) : FileOp σ → FileSys × Kernel σ
  | .readDentryByName _ => s
  | .readDentryByIndex _ => s
  | .dirRead _ _ _ => s
  | .open filename => (s.1, («open» s.1 s.2 filename).1)
  | .read fd buf nbytes => (s.1, (read s.1 s.2 fd buf nbytes).1)
  | .close fd => (s.1, (close s.1 s.2 fd).1)
  | .execute stk command esp ebp =>
      (s.1, finishExecute (execute s.1 stk s.2 command esp ebp))

def FileStep (s : FileSys × Kernel σ) (op : FileOp σ)
    (s' : FileSys × Kernel σ) : Prop := fileStep s op = s'

/-- The file system holds an executable named `shell`. -/
def ShellRunnable (fs : FileSys) : Prop :=
  ∃ d, readDentryByName fs (fnamePtr ⟨0, []⟩ (handleCommand shellCmd.bytes).1) =
      some d ∧
    handleExecuableCheck fs d ≠ FAIL_U32

/-- Some pid is free. -/
def PidFree (k : Kernel σ) : Prop := ∃ i < MAX_PID, k.pidSt i = 0

instance (k : Kernel σ) : Decidable (PidFree k) :=
  inferInstanceAs (Decidable (∃ i < MAX_PID, k.pidSt i = 0))

/-- The next terminal has a process, or there is a pid for its base shell. -/
def CanStart (k : Kernel σ) : Prop :=
  k.runningPid (k.con.currentTid + 1) = -1 → PidFree k

instance (k : Kernel σ) : Decidable (CanStart k) :=
  inferInstanceAs (Decidable (_ = (-1 : Int) → PidFree k))

/-- A PIT interrupt finds a process on the next terminal, or a pid for its base
shell. -/
def Served (k : Kernel σ) : VideoEvent σ → Prop
  | .pit _ _ _ _ _ => CanStart k
  | _ => True

instance (k : Kernel σ) : (e : VideoEvent σ) → Decidable (Served k e)
  | .pit .. => inferInstanceAs (Decidable (CanStart k))
  | .execute .. => isTrue trivial
  | .halt .. => isTrue trivial
  | .vidmap _ => isTrue trivial
  | .terminalSwitch _ => isTrue trivial

/-- The state left by `init_terminal`: no process on any terminal, every pid
free. -/
structure Initialised (k : Kernel σ) : Prop where
  running : ∀ t, k.runningPid t = -1
  pidSt : ∀ i, k.pidSt i = 0
  pidCnt : k.pidCnt = 0

end MongOS.Model
