import MongOS.Model.System

/-!
# The processor and the kernel stacks (`interrupt.S`, `sys_w.S`, `syscall.c`)

`execute` runs on the kernel stack of its caller, `process_switch` saves a
position on whatever stack it runs on, and interrupts are enabled again between
`sti` and `IRET` at the end of `execute`.  This file follows the kernel stacks
through these steps.

A kernel stack is the 8 KB block of a pid: block `b` lies below `0x800000 -
(b - 1) * 0x2000`.  Its contents are a list of activations, the innermost
first.  A stack pointer is a block and the layout of the activations it lies
in, which is what its address depends on; whoever loads it continues in the
activations that are there by then, with the local variables they have then.
A new activation overwrites what lay on the block beyond the current one.
Where a loaded stack pointer does not fit what is on the block, the processor
runs `wild`.

The machine is stated over the operations it needs of a kernel, and used at
the kernel of `syscall.c` (`kernelOps`).
-/

namespace MongOS.Model

/-- How the kernel is entered. -/
inductive Trap where
  | syscall
  | irq
  | exception
  deriving DecidableEq

/-- Where the innermost activation is: in code in general, or in the end of
`execute`, between `sti` and the assignment to `tss.esp0`, or between this and
`IRET`. -/
inductive Point where
  | code
  | preTss
  | preIret
  deriving DecidableEq

/-- An activation on a kernel stack: the idle loop of `entry`; the entry from
user code of a process; an interrupt or exception of kernel code, with the point
it returns to; `execute` with its variable `pid`; any other function. -/
inductive Frame where
  | boot
  | entry (trap : Trap) (pid : Int)
  | nested (trap : Trap) (at_ : Point)
  | call (n : Nat)
  | pit
  | halt
  | execute (pid : Int)
  deriving DecidableEq

/-- The layout of an activation: all but the values in it. -/
inductive Layout where
  | boot
  | entry (trap : Trap)
  | nested (trap : Trap)
  | call (n : Nat)
  | pit
  | halt
  | execute
  deriving DecidableEq

def Frame.layout : Frame → Layout
  | .boot => .boot
  | .entry trap _ => .entry trap
  | .nested trap _ => .nested trap
  | .call n => .call n
  | .pit => .pit
  | .halt => .halt
  | .execute _ => .execute

/-- A stack pointer; `esp` and `ebp` are always stored and loaded together. -/
structure Sp where
  block : Int
  path : List Layout
  deriving DecidableEq

/-- The position of the innermost of these activations on block `b`. -/
def spOf (b : Int) (stack : List Frame) : Sp :=
  { block := b, path := stack.map Frame.layout }

/-- The block of the first word that is pushed below `esp0`. -/
def blockOf (esp0 : Int) : Int :=
  (KERNEL_STACK_BUTTOM + 3 - esp0) / PROCCESS_STACK_SIZE + 1

/-- What the processor executes: user code of a process, or kernel code. -/
inductive Cpu where
  | user (pid : Int)
  | kernel (block : Int) (stack : List Frame) (at_ : Point)
  | wild
  deriving DecidableEq

/-- How `halt` ends: `execute` has returned or reached `sti`, or a stack pointer
is loaded. -/
inductive HaltEnd where
  | restart (pid : Option Int)
  | resume (sp : Sp)

/-- How `pit_irq` ends, in the same way. -/
inductive PitEnd where
  | started (pid : Option Int)
  | resume (sp : Sp)

/-- The operations of a kernel; `execute` gives the pid if it reaches `sti`. -/
structure KernelOps (K : Type) where
  running : K → Int
  tssEsp0 : K → Int
  execute : K → CStr → Option CStr → Sp → K × Option Int
  halt : K → CStr → Byte → Sp → K × HaltEnd
  pitIrq : K → CStr → Sp → Sp → K × PitEnd
  executeTail : K → Int → K

/-- The pid with which `execute` reaches `sti`. -/
def ExecResult.entered : ExecResult → Option Int
  | .ret _ => none
  | .enter pid _ => some pid

/-- The kernel of `syscall.c`. -/
def kernelOps (fs : FileSys) : KernelOps (Kernel Sp) where
  running k := k.running
  tssEsp0 k := k.tssEsp0
  execute k stk command sp :=
    let r := Model.execute fs stk k command sp sp
    (r.1, r.2.entered)
  halt k stk status sp :=
    match Model.halt fs stk k status sp sp with
    | (k, .restart r) => (k, .restart r.entered)
    | (k, .resume esp _ _) => (k, .resume esp)
  pitIrq k stk sp spExe :=
    match Model.pitIrq fs stk k sp sp spExe spExe with
    | (k, .started r) => (k, .started r.entered)
    | (k, .resume esp _) => (k, .resume esp)
  executeTail k pid := Model.executeTail k pid

/-- The kernel, the contents of the stack blocks, and the processor. -/
structure Machine (K : Type) where
  k : K
  mem : Int → List Frame
  cpu : Cpu

namespace Machine

variable {K : Type}

/-- Continue on block `b` with the activations `stack`. -/
def onStack (m : Machine K) (b : Int) (stack : List Frame) (at_ : Point) :
    Machine K :=
  { k := m.k
    mem := Function.update m.mem b stack
    cpu := .kernel b stack at_ }

/-- The stack after an entry into the kernel: an empty kernel stack, or the
stack of the kernel code that was interrupted. -/
def gate (o : KernelOps K) (m : Machine K) (trap : Trap) :
    Option (Int × List Frame) :=
  match m.cpu with
  | .user pid => some (blockOf (o.tssEsp0 m.k), [.entry trap pid])
  | .kernel b stack at_ =>
      if trap = .syscall then none else some (b, .nested trap at_ :: stack)
  | .wild => none

/-- Return from the innermost activation. -/
def unwind (b : Int) : List Frame → Option Cpu
  | .entry _ pid :: _ => some (.user pid)
  | .nested _ at_ :: stack => some (.kernel b stack at_)
  | .call _ :: stack => some (.kernel b stack .code)
  | _ => none

/-- The activations that a stack pointer leads to. -/
def fetch (m : Machine K) (sp : Sp) : Option (List Frame) :=
  let stack := (m.mem sp.block).drop ((m.mem sp.block).length - sp.path.length)
  if stack.map Frame.layout = sp.path then some stack else none

/-- `halt_asm`: return from the `execute` that stored the stack pointer. -/
def resumeExecute (m : Machine K) (sp : Sp) : Cpu :=
  match m.fetch sp with
  | some (.execute _ :: stack) => .kernel sp.block stack .code
  | _ => .wild

/-- The end of `process_switch`: return from the `pit_irq` that stored the stack
pointer, and from the interrupt. -/
def resumeSwitch (m : Machine K) (sp : Sp) : Cpu :=
  match m.fetch sp with
  | some (.pit :: stack) => (unwind sp.block stack).getD .wild
  | _ => .wild

/-- After a call of `execute` on top of `stack`: it has reached `sti`, or it
has returned, and so does its caller, to the code behind `caller`. -/
def afterExecute (m : Machine K) (b : Int) (stack caller : List Frame) :
    Option Int → Option (Machine K)
  | some pid => some (m.onStack b (.execute pid :: stack) .preTss)
  | none => (unwind b caller).map fun cpu => { m with cpu := cpu }

end Machine

/-- What happens next: a PIT interrupt; another entry into the kernel; a call of
`execute`, of `halt` or of another function in kernel code, and a return; the
two steps at the end of `execute`. -/
inductive MachineEvent where
  | pit (stk : CStr)
  | trap (trap : Trap)
  | execute (stk : CStr) (command : Option CStr)
  | halt (stk : CStr) (status : Byte)
  | call (n : Nat)
  | ret
  | tss
  | iret

/-- `halt` is called by the system call and by `err_handle`. -/
def callsHalt : List Frame → Bool
  | .entry trap _ :: _ => trap != .irq
  | .nested trap _ :: _ => trap == .exception
  | _ => false

namespace Machine

variable {K : Type}

variable (o : KernelOps K) (m : Machine K)

/-- A PIT interrupt. -/
def pitStep (stk : CStr) : Option (Machine K) :=
  (m.gate o .irq).bind fun (b, caller) =>
    let stack := .pit :: caller
    let r := o.pitIrq m.k stk (spOf b stack) (spOf b (.execute 0 :: stack))
    let m := { m with k := r.1 }.onStack b stack .code
    match r.2 with
    | .started pid => m.afterExecute b stack caller pid
    | .resume sp => some { m with cpu := m.resumeSwitch sp }

def trapStep (trap : Trap) : Option (Machine K) :=
  (m.gate o trap).map fun (b, stack) => m.onStack b stack .code

/-- Only the system call calls `execute`. -/
def executeStep (stk : CStr) (command : Option CStr) : Option (Machine K) :=
  match m.cpu with
  | .kernel b (.entry .syscall pid :: rest) .code =>
      let caller := .entry .syscall pid :: rest
      let r := o.execute m.k stk command (spOf b (.execute 0 :: caller))
      { m with k := r.1 }.afterExecute b caller caller r.2
  | _ => none

/-- A `halt` needs a running process. -/
def haltStep (stk : CStr) (status : Byte) : Option (Machine K) :=
  match m.cpu with
  | .kernel b caller .code =>
      if o.running m.k = -1 ∨ callsHalt caller = false then none
      else
        let stack := .halt :: caller
        let r := o.halt m.k stk status (spOf b (.execute 0 :: stack))
        let m := { m with k := r.1 }.onStack b stack .code
        match r.2 with
        | .restart pid => m.afterExecute b stack caller pid
        | .resume sp => some { m with cpu := m.resumeExecute sp }
  | _ => none

def callStep (n : Nat) : Option (Machine K) :=
  match m.cpu with
  | .kernel b stack .code => some (m.onStack b (.call n :: stack) .code)
  | _ => none

def retStep : Option (Machine K) :=
  match m.cpu with
  | .kernel b stack .code =>
      (unwind b stack).map fun cpu => { m with cpu := cpu }
  | _ => none

def tssStep : Option (Machine K) :=
  match m.cpu with
  | .kernel b (.execute pid :: stack) .preTss =>
      some
        { m with
          k := o.executeTail m.k pid
          cpu := .kernel b (.execute pid :: stack) .preIret }
  | _ => none

def iretStep : Option (Machine K) :=
  match m.cpu with
  | .kernel _ (.execute pid :: _) .preIret => some { m with cpu := .user pid }
  | _ => none

/-- One step. -/
def step : MachineEvent → Option (Machine K)
  | .pit stk => pitStep o m stk
  | .trap trap => trapStep o m trap
  | .execute stk command => executeStep o m stk command
  | .halt stk status => haltStep o m stk status
  | .call n => callStep m n
  | .ret => retStep m
  | .tss => tssStep o m
  | .iret => iretStep m

end Machine

/-- Kernels that agree in the fields of the process table: other system calls
and interrupt handlers change the rest of the kernel as they like. -/
structure SameProcesses (k k' : Kernel Sp) : Prop where
  currentTid : k'.con.currentTid = k.con.currentTid
  runningPid : k'.runningPid = k.runningPid
  pidCnt : k'.pidCnt = k.pidCnt
  pidSt : k'.pidSt = k.pidSt
  pid : ∀ p, (k'.pcb p).pid = (k.pcb p).pid
  parPid : ∀ p, (k'.pcb p).parPid = (k.pcb p).parPid
  savedEsp : ∀ p, (k'.pcb p).savedEsp = (k.pcb p).savedEsp
  savedEbp : ∀ p, (k'.pcb p).savedEbp = (k.pcb p).savedEbp
  esp0 : ∀ p, (k'.pcb p).esp0 = (k.pcb p).esp0
  pde : k'.pde = k.pde
  tssEsp0 : k'.tssEsp0 = k.tssEsp0

/-- The step relation: a step of the machine, and whatever the rest of the
kernel does meanwhile. -/
def MachineStep (fs : FileSys) (m : Machine (Kernel Sp)) (e : MachineEvent)
    (m' : Machine (Kernel Sp)) : Prop :=
  ∃ n, Machine.step (kernelOps fs) m e = some n ∧ m'.mem = n.mem ∧ m'.cpu = n.cpu ∧
    SameProcesses n.k m'.k

/-- The idle loop of `entry`, before any process: it runs on the boot stack,
which lies in block 1. -/
structure Booted (m : Machine (Kernel Sp)) : Prop where
  kernel : Initialised m.k
  cpu : m.cpu = .kernel 1 [.boot] .code

end MongOS.Model
