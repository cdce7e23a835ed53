import MongOS.Verified.BitField
import MongOS.Verified.WordStack

/-!
# Entering the kernel and leaving it (`idt.c`, `sys_w.S`, `interrupt.S`)

The interrupt descriptor table, the way the processor uses it, and the assembler
code between a process and the C functions of the kernel, with the stub of
`ece391syscall.S` on the other side.

A piece of code is a `Routine`, one step for one instruction; the code at a label
that is called or returned to is given by the address of the label.  There is no
result when a C function does not come back.  `eip` is the address at which the
processor goes on; it is kept where a return or an interrupt uses it.  The data
segment registers `ds`, `es`, `fs` and `gs` are left out: none of this code saves
them.
-/

namespace MongOS.Model.X86

open MongOS.Verified

/-! ## The processor -/

/-- The general registers but `esp`. -/
inductive Reg where
  | eax | ecx | edx | ebx | ebp | esi | edi
  deriving DecidableEq

/-- The registers but the data segments, and the memory; `stack` has `esp`. -/
structure Processor where
  regs : Reg → Word
  eip : Word
  eflags : Word
  cs : Word
  ss : Word
  stack : WordStack Word

abbrev Routine := Processor → Option Processor

/-! The bits of `eflags` that the instructions below set or read. -/

namespace Flags

def CF : BitField := { offset := 0, width := 1 }
def PF : BitField := { offset := 2, width := 1 }
def AF : BitField := { offset := 4, width := 1 }
def ZF : BitField := { offset := 6, width := 1 }
def SF : BitField := { offset := 7, width := 1 }
def TF : BitField := { offset := 8, width := 1 }
def IF : BitField := { offset := 9, width := 1 }
def OF : BitField := { offset := 11, width := 1 }
def NT : BitField := { offset := 14, width := 1 }
def RF : BitField := { offset := 16, width := 1 }
def VM : BitField := { offset := 17, width := 1 }

/-- An even number of ones in the low byte. -/
def parity (r : Word) : Bool :=
  ((List.range 8).filter fun i => r.getLsbD i).length % 2 == 0

/-- The status flags of a result. -/
def status (r : Word) (carry adjust overflow : Bool) (eflags : Word) : Word :=
  eflags |> CF.set carry.toNat |> PF.set (parity r).toNat |> AF.set adjust.toNat
    |> ZF.set (r == 0).toNat |> SF.set r.msb.toNat |> OF.set overflow.toNat

/-- The flags of `a - b`. -/
def sub (a b : Word) : Word → Word :=
  let r := a - b
  status r (a.ult b) ((a &&& 15).ult (b &&& 15)) (a.msb != b.msb && r.msb != a.msb)

/-- The flags of `a + b`. -/
def add (a b : Word) : Word → Word :=
  let r := a + b
  status r (r.ult a) (decide (15 < (a &&& 15).toNat + (b &&& 15).toNat))
    (a.msb == b.msb && r.msb != a.msb)

/-- The condition of `jle`; the one of `jg` is the opposite. -/
def le (eflags : Word) : Bool :=
  ZF.get eflags == 1 || SF.get eflags != OF.get eflags

end Flags

namespace Processor

/-- The privilege level. -/
def cpl (s : Processor) : Nat := s.cs.toNat % 4

def movl (v : Word) (r : Reg) (s : Processor) : Processor :=
  { s with regs := Function.update s.regs r v }

/-- `movl n(%esp), %r` -/
def load (n : Word) (r : Reg) (s : Processor) : Processor :=
  s.movl (s.stack.mem (s.stack.esp + n)) r

def push (v : Word) (s : Processor) : Processor := { s with stack := s.stack.push v }

def pushl (r : Reg) (s : Processor) : Processor := s.push (s.regs r)

def popl (r : Reg) (s : Processor) : Processor :=
  { s.movl s.stack.top r with stack := s.stack.drop 1 }

def pushfl (s : Processor) : Processor := s.push s.eflags

def popfl (s : Processor) : Processor :=
  { s with eflags := s.stack.top, stack := s.stack.drop 1 }

/-- `pushal`, with `esp` as it was before. -/
def pushal (s : Processor) : Processor :=
  s |> pushl .eax |> pushl .ecx |> pushl .edx |> pushl .ebx |> push s.stack.esp
    |> pushl .ebp |> pushl .esi |> pushl .edi

/-- `popal`, which skips the word of `esp`. -/
def popal (s : Processor) : Processor :=
  let s := s |> popl .edi |> popl .esi |> popl .ebp
  let s := { s with stack := s.stack.drop 1 }
  s |> popl .ebx |> popl .edx |> popl .ecx |> popl .eax

def cmpl (b : Word) (r : Reg) (s : Processor) : Processor :=
  { s with eflags := Flags.sub (s.regs r) b s.eflags }

def addEsp (b : Word) (s : Processor) : Processor :=
  { s with
    eflags := Flags.add s.stack.esp b s.eflags
    stack := { s.stack with esp := s.stack.esp + b } }

def ret (s : Processor) : Processor :=
  { s with eip := s.stack.top, stack := s.stack.drop 1 }

def leave (s : Processor) : Processor :=
  popl .ebp { s with stack := { s.stack with esp := s.regs .ebp } }

/-- `iret`: to an outer level it also pops `esp` and `ss`. -/
def iret (s : Processor) : Processor :=
  let t := { s with
    eip := s.stack.top
    cs := (s.stack.drop 1).top
    eflags := (s.stack.drop 2).top
    stack := s.stack.drop 3 }
  if s.cpl < t.cpl then
    { t with
      ss := (t.stack.drop 1).top
      stack := { t.stack with esp := t.stack.top } }
  else t

end Processor

/-! ## The interrupt descriptor table -/

def NUM_VEC : Nat := 256
def KERNEL_CS : Nat := 0x10
def USER_CS : Nat := 0x23
def USER_DS : Nat := 0x2B
def DEVICE_PIT : Nat := 0x20
def DEVICE_KEYBOARD : Nat := 0x21
def DEVICE_RTC : Nat := 0x28
def VECTOR_SYSTEM_CALL : Nat := 0x80

/-! The fields of `idt_desc_t`. -/

namespace IdtDesc

def offset15_00 : BitField := { offset := 0, width := 16 }
def segSelector : BitField := { offset := 16, width := 16 }
def reserved4 : BitField := { offset := 32, width := 8 }
def reserved3 : BitField := { offset := 40, width := 1 }
def reserved2 : BitField := { offset := 41, width := 1 }
def reserved1 : BitField := { offset := 42, width := 1 }
def size : BitField := { offset := 43, width := 1 }
def reserved0 : BitField := { offset := 44, width := 1 }
def dpl : BitField := { offset := 45, width := 2 }
def present : BitField := { offset := 47, width := 1 }
def offset31_16 : BitField := { offset := 48, width := 16 }

end IdtDesc

/-- `idt`. -/
abbrev Idt := Nat → BitVec 64

/-- The functions whose addresses are in the table. -/
inductive Handler where
  | divideErrorException | debugException | nmiInterruptException
  | breakpointException | overflowException | boundRangeException
  | invalidOpcodeException | deviceNotAvailableException | doubleFaultException
  | coprocessorSegmentOverrunException | invalidTssException
  | segmentNotPresentException | stackFaultException | generalProtectionException
  | pageFaultException | x87FpuErrorException | alignmentCheckException
  | machineCheckException | simdFloatingPointException
  | irtPit | irtKb | irtRtc | syscallW
  deriving DecidableEq

/-- `IDT_FUNCS`: the number with which an exception handler calls `err_handle`. -/
def Handler.errNum : Handler → Option Nat
  | .divideErrorException => some 0x00
  | .debugException => some 0x01
  | .nmiInterruptException => some 0x02
  | .breakpointException => some 0x03
  | .overflowException => some 0x04
  | .boundRangeException => some 0x05
  | .invalidOpcodeException => some 0x06
  | .deviceNotAvailableException => some 0x07
  | .doubleFaultException => some 0x08
  | .coprocessorSegmentOverrunException => some 0x09
  | .invalidTssException => some 0x0A
  | .segmentNotPresentException => some 0x0B
  | .stackFaultException => some 0x0C
  | .generalProtectionException => some 0x0D
  | .pageFaultException => some 0x0E
  | .x87FpuErrorException => some 0x10
  | .alignmentCheckException => some 0x11
  | .machineCheckException => some 0x12
  | .simdFloatingPointException => some 0x13
  | _ => none

/-- `SET_IDT_ENTRY`. -/
def setIdtEntry (handler : Word) (e : BitVec 64) : BitVec 64 :=
  e |> IdtDesc.offset31_16.set (handler.toNat / 2 ^ 16)
    |> IdtDesc.offset15_00.set (handler.toNat % 2 ^ 16)
    |> IdtDesc.present.set 1

/-- The calls of `SET_IDT_ENTRY` in `idt_init`. -/
def idtEntries : List (Nat × Handler) :=
  [(0, .divideErrorException), (1, .debugException), (2, .nmiInterruptException),
    (3, .breakpointException), (4, .overflowException), (5, .boundRangeException),
    (6, .invalidOpcodeException), (7, .deviceNotAvailableException),
    (8, .doubleFaultException), (9, .coprocessorSegmentOverrunException),
    (10, .invalidTssException), (11, .segmentNotPresentException),
    (12, .stackFaultException), (13, .generalProtectionException),
    (14, .pageFaultException), (16, .x87FpuErrorException),
    (17, .alignmentCheckException), (18, .machineCheckException),
    (19, .simdFloatingPointException), (DEVICE_PIT, .irtPit),
    (DEVICE_KEYBOARD, .irtKb), (DEVICE_RTC, .irtRtc), (VECTOR_SYSTEM_CALL, .syscallW)]

/-- One round of the loop of `idt_init`. -/
def initIdtDesc (i : Nat) (e : BitVec 64) : BitVec 64 :=
  e |> IdtDesc.present.set 1
    |> IdtDesc.dpl.set (if i = VECTOR_SYSTEM_CALL then 3 else 0)
    |> IdtDesc.reserved0.set 0
    |> IdtDesc.size.set 1
    |> IdtDesc.reserved1.set 1
    |> IdtDesc.reserved2.set 1
    |> IdtDesc.reserved3.set (if 0x20 ≤ i ∧ i ≤ 0x2F then 0 else 1)
    |> IdtDesc.reserved4.set 0
    |> IdtDesc.segSelector.set KERNEL_CS

/-- `idt_init`, with the addresses that the linker gives the handlers. -/
def idtInit (address : Handler → Word) (idt : Idt) : Idt :=
  let idt := (List.range NUM_VEC).foldl
    (fun idt i => updateAt idt i (initIdtDesc i)) idt
  let idt := idtEntries.foldl
    (fun idt e => updateAt idt e.1 (setIdtEntry (address e.2))) idt
  updateAt idt VECTOR_SYSTEM_CALL (IdtDesc.dpl.set 3)

/-! ## Interrupts -/

/-- What the processor takes from an entry. -/
structure Gate where
  trap : Bool
  dpl : Nat
  selector : Nat
  offset : Word
  deriving DecidableEq

/-- A present gate of 32 bits: the system bit is 0, and of the four bits of the
type the upper three are 1; the lowest one tells a trap gate. -/
def decodeGate (e : BitVec 64) : Option Gate :=
  if IdtDesc.present.get e = 1 ∧ IdtDesc.reserved0.get e = 0 ∧
      IdtDesc.size.get e = 1 ∧ IdtDesc.reserved1.get e = 1 ∧
      IdtDesc.reserved2.get e = 1 then
    some
      { trap := IdtDesc.reserved3.get e == 1
        dpl := IdtDesc.dpl.get e
        selector := IdtDesc.segSelector.get e
        offset := BitVec.ofNat 32
          (IdtDesc.offset31_16.get e * 2 ^ 16 + IdtDesc.offset15_00.get e) }
  else none

/-- The fields of `tss` that the processor reads when it enters the kernel. -/
structure Tss where
  esp0 : Word
  ss0 : Word

/-- The flags on the way into a handler; an interrupt gate turns `IF` off. -/
def entryFlags (trap : Bool) (eflags : Word) : Word :=
  let eflags := eflags |> Flags.TF.set 0 |> Flags.NT.set 0 |> Flags.RF.set 0
    |> Flags.VM.set 0
  if trap then eflags else Flags.IF.set 0 eflags

/-- An interrupt without an error code, of an `int` instruction or of a device.
There is no state when the processor raises an exception instead. -/
def deliver (idt : Idt) (tss : Tss) (n : Nat) (software : Bool) (s : Processor) :
    Option Processor := do
  let gate ← decodeGate (idt n)
  if software = true ∧ gate.dpl < s.cpl then none
  else
    let inner :=
      if gate.selector % 4 < s.cpl then
        { s with
          ss := tss.ss0
          stack := ({ s.stack with esp := tss.esp0 }).pushes [s.ss, s.stack.esp] }
      else s
    some
      { inner with
        eip := gate.offset
        cs := BitVec.ofNat 32 gate.selector
        eflags := entryFlags gate.trap s.eflags
        stack := inner.stack.pushes [s.eflags, s.cs, s.eip] }

/-- The processor's way through an interrupt, with the code at each address. -/
def interrupt (code : Word → Option Routine) (idt : Idt) (tss : Tss) (n : Nat)
    (software : Bool) : Routine := fun s => do
  let e ← deliver idt tss n software s
  let handler ← code e.eip
  handler e

/-! ## `sys_w.S` and `interrupt.S` -/

open Processor

/-- `call f`, where the function returns to the address behind the `call`. -/
def call (f : Routine) (next : Word) : Routine := fun s => do
  let r ← f (s.push next)
  if r.eip = next then some r else none

/-- The system calls. -/
inductive Service where
  | halt | execute | read | write | «open» | close | getargs | vidmap
  | setHandler | sigreturn
  deriving DecidableEq

/-- `syscall_jumptable`. -/
def syscallJumptable : List (Option Service) :=
  [none, some .halt, some .execute, some .read, some .write, some .open,
    some .close, some .getargs, some .vidmap, some .setHandler, some .sigreturn]

/-- From the first `cmp` to `syscall_done`, with the address behind the `call`. -/
def dispatch (service : Service → Routine) (next : Word) : Routine := fun s =>
  let s := s.cmpl 0 .eax
  if Flags.le s.eflags then some (s.movl (-1) .eax)
  else
    let s := s.cmpl 10 .eax
    if !Flags.le s.eflags then some (s.movl (-1) .eax)
    else do
      let f ← syscallJumptable.getD (s.regs .eax).toNat none
      call (service f) next s

/-- `syscall_w`. -/
def syscallW (service : Service → Routine) (next : Word) : Routine := fun s => do
  let s := s |> pushl .edx |> pushl .ecx |> pushl .ebx |> pushl .edi |> pushl .ebp
    |> pushl .esi
  -- the parameters
  let s := s |> pushl .edx |> pushl .ecx |> pushl .ebx
  let s ← dispatch service next s
  let s := s.addEsp 12
  let s := s |> popl .esi |> popl .ebp |> popl .edi |> popl .ebx |> popl .ecx
    |> popl .edx
  some s.iret

/-- `INTERRUPT_WRAP`. -/
def interruptWrap (f : Routine) (next : Word) : Routine := fun s => do
  let s := s |> pushal |> pushfl
  let s ← call f next s
  some (s |> popfl |> popal |> iret)

/-- `set_handler` and `sigreturn` -/
def sysFail : Routine := fun s => some (s.movl (-1) .eax).ret

/-! ## `ece391syscall.S` -/

/-- `DO_CALL`, with the address behind the `int`. -/
def doCall (int80 : Routine) (after number : Word) : Routine := fun s => do
  let s := s |> pushl .ebx |> movl number .eax |> load 8 .ebx |> load 12 .ecx
    |> load 16 .edx
  let s ← int80 { s with eip := after }
  if s.eip = after then some (s |> popl .ebx |> ret) else none

/-- The number of a system call in `ece391sysnum.h`. -/
def sysNumber : Service → Word
  | .halt => 1
  | .execute => 2
  | .read => 3
  | .write => 4
  | .open => 5
  | .close => 6
  | .getargs => 7
  | .vidmap => 8
  | .setHandler => 9
  | .sigreturn => 10

/-! ## C functions that leave their stack -/

/-- What a C function starts with: the address of its frame is in `ebp`. -/
def enterFrame (s : Processor) : Processor :=
  let s := s.pushl .ebp
  s.movl s.stack.esp .ebp

/-- `leave; ret`, the end of a C function and of the `asm` statements below. -/
def leaveRet (s : Processor) : Processor := s |> leave |> ret

/-- The `asm` of `halt_asm`, with `edx`, `ecx` and `ebx` loaded as it says; the
jump goes to the end of the `asm` of `execute`. -/
def haltAsm (s : Processor) : Processor :=
  let s := { s with stack := { s.stack with esp := s.regs .edx } }
  let s := s.movl (s.regs .ecx) .ebp
  let s := s.movl (s.regs .ebx) .eax
  leaveRet s

/-- `execute`, when it starts a program.  `setup` is what it does until it saves
`esp` and `ebp`, and `program` all that happens until `halt` calls `halt_asm` with
these and with the return value in `ebx`. -/
def executeCall (setup program : Routine) : Routine := fun s => do
  let s ← setup (enterFrame s)
  let savedEsp := s.stack.esp
  let savedEbp := s.regs .ebp
  let h ← program s
  some (haltAsm (h |> movl savedEsp .edx |> movl savedEbp .ecx))

/-- The `asm` of `process_switch`. -/
def switchAsm (sEsp sEbp : Word) (s : Processor) : Processor :=
  let s := { s with stack := { s.stack with esp := sEsp } }
  leaveRet (s.movl sEbp .ebp)

/-- `process_switch`.  It saves `esp` and `ebp` and goes on in another process;
`away` is all that happens until a later `process_switch` loads them again. -/
def processSwitch (away : Routine) : Routine := fun s => do
  let s := enterFrame s
  let savedEsp := s.stack.esp
  let savedEbp := s.regs .ebp
  let b ← away s
  some (switchAsm savedEsp savedEbp b)

/-- `pit_irq`; `before` is what it does before it calls `process_switch`. -/
def pitIrq (before switch : Routine) (next : Word) : Routine := fun s => do
  let s ← before (enterFrame s)
  let s ← call switch next s
  some (leaveRet s)

end MongOS.Model.X86
