import Mathlib.Algebra.Ring.Nat
import Mathlib.Data.List.Basic

/-!
# The interrupt controllers (`i8259.c`)

The two 8259A controllers as far as the driver uses them: the initialization
command words, the mask, and the end of an interrupt.  A request is latched until
it is acknowledged: a device that withdraws its request before that, for which a
controller answers with its line 7, is left out.  The slave's output is line
`SLAVE_POS` of the master.
-/

namespace MongOS.Model.I8259

def MASTER_8259_CMD : Nat := 0x20
def MASTER_8259_DATA : Nat := 0x21
def SLAVE_8259_CMD : Nat := 0xA0
def SLAVE_8259_DATA : Nat := 0xA1
def ICW1 : BitVec 8 := 0x11
def ICW2_MASTER : BitVec 8 := 0x20
def ICW2_SLAVE : BitVec 8 := 0x28
def ICW3_MASTER : BitVec 8 := 0x04
def ICW3_SLAVE : BitVec 8 := 0x02
def ICW4 : BitVec 8 := 0x01
def EOI : BitVec 8 := 0x60
def INIT_MASK : BitVec 8 := 0xFF
def SLAVE_POS : Nat := 2
def TOT_CNT : Nat := 8

/-! ## A controller -/

/-- What a write to the data port means: the mask, or a command word of the
initialization, with the bits of `ICW1` that say which words there are. -/
inductive Stage where
  | ready
  | icw2 (single ic4 : Bool)
  | icw3 (ic4 : Bool)
  | icw4
  deriving DecidableEq

/-- The registers of a controller: the vector of line 0, the lines or the number
of a slave, and the mask, request and in-service registers. -/
structure Pic where
  stage : Stage
  base : Nat
  cascade : BitVec 8
  autoEoi : Bool
  imr : BitVec 8
  irr : BitVec 8
  isr : BitVec 8

namespace Pic

def setBit (x : BitVec 8) (n : Nat) : BitVec 8 := x ||| BitVec.twoPow 8 n

def clearBit (x : BitVec 8) (n : Nat) : BitVec 8 := x &&& ~~~BitVec.twoPow 8 n

/-- A write to the command port: `ICW1` clears the mask, too.  Of the other commands
those that end an interrupt are here, without a rotation of the priorities. -/
def command (b : BitVec 8) (p : Pic) : Pic :=
  if b.getLsbD 4 then
    { p with
      stage := .icw2 (b.getLsbD 1) (b.getLsbD 0)
      autoEoi := false, imr := 0, irr := 0, isr := 0 }
  else if b.getLsbD 3 then p
  else
    match b.toNat / 2 ^ 5 with
    | 1 =>
        match (List.range 8).find? p.isr.getLsbD with
        | some n => { p with isr := clearBit p.isr n }
        | none => p
    | 3 => { p with isr := clearBit p.isr (b.toNat % 8) }
    | _ => p

/-- A write to the data port. -/
def data (b : BitVec 8) (p : Pic) : Pic :=
  match p.stage with
  | .ready => { p with imr := b }
  | .icw2 single ic4 =>
      { p with
        base := b.toNat / 8 * 8
        stage := if single then (if ic4 then .icw4 else .ready) else .icw3 ic4 }
  | .icw3 ic4 => { p with cascade := b, stage := if ic4 then .icw4 else .ready }
  | .icw4 => { p with autoEoi := b.getLsbD 1, stage := .ready }

/-- A line that is requested, is not masked, and comes before all lines in
service. -/
def Ready (p : Pic) (n : Nat) : Bool :=
  p.irr.getLsbD n && !p.imr.getLsbD n &&
    (List.range (n + 1)).all fun m => !p.isr.getLsbD m

/-- The line of highest priority that asks for an interrupt. -/
def request (p : Pic) : Option Nat := (List.range 8).find? p.Ready

/-- The acknowledgement of a line. -/
def serve (p : Pic) (n : Nat) : Pic :=
  { p with
    irr := clearBit p.irr n
    isr := if p.autoEoi then p.isr else setBit p.isr n }

end Pic

/-! ## The driver -/

/-- `master_mask` and `slave_mask`, and the controllers. -/
structure State where
  masterMask : BitVec 8
  slaveMask : BitVec 8
  master : Pic
  slave : Pic

/-- `outb`, on the ports of the controllers. -/
def outb (value : BitVec 8) (port : Nat) (s : State) : State :=
  if port = MASTER_8259_CMD then { s with master := s.master.command value }
  else if port = MASTER_8259_DATA then { s with master := s.master.data value }
  else if port = SLAVE_8259_CMD then { s with slave := s.slave.command value }
  else if port = SLAVE_8259_DATA then { s with slave := s.slave.data value }
  else s

/-- `mask = mask op new_mask` on a `uint8_t` and an `int`. -/
def assign (op : BitVec 32 → BitVec 32 → BitVec 32) (mask : BitVec 8)
    (newMask : BitVec 32) : BitVec 8 :=
  (op (mask.setWidth 32) newMask).setWidth 8

/-- The body of `enable_irq` and of `disable_irq`. -/
def changeMask (op : BitVec 32 → BitVec 32 → BitVec 32) (newMask : Nat → BitVec 32)
    (irqNum : Nat) (s : State) : State :=
  if irqNum ≥ 2 * TOT_CNT then s
  else if irqNum ≥ TOT_CNT then
    let irqNum := irqNum - TOT_CNT
    let s := { s with slaveMask := assign op s.slaveMask (newMask irqNum) }
    outb s.slaveMask SLAVE_8259_DATA s
  else
    let s := { s with masterMask := assign op s.masterMask (newMask irqNum) }
    outb s.masterMask MASTER_8259_DATA s

/-- `enable_irq`. -/
def enableIrq : Nat → State → State :=
  changeMask (· &&& ·) fun irqNum => ~~~(1#32 <<< irqNum)

/-- `disable_irq`. -/
def disableIrq : Nat → State → State :=
  changeMask (· ||| ·) fun irqNum => 1#32 <<< irqNum

/-- `send_eoi`. -/
def sendEoi (irqNum : Nat) (s : State) : State :=
  if irqNum ≥ 2 * TOT_CNT then s
  else if irqNum ≥ TOT_CNT then
    let s := outb (EOI ||| BitVec.ofNat 8 (irqNum - TOT_CNT)) SLAVE_8259_CMD s
    outb (EOI ||| BitVec.ofNat 8 SLAVE_POS) MASTER_8259_CMD s
  else outb (EOI ||| BitVec.ofNat 8 irqNum) MASTER_8259_CMD s

/-- `i8259_init`. -/
def i8259Init (s : State) : State :=
  let s := outb INIT_MASK MASTER_8259_DATA s
  let s := outb INIT_MASK SLAVE_8259_DATA s
  let s := outb ICW1 MASTER_8259_CMD s
  let s := outb ICW1 SLAVE_8259_CMD s
  let s := outb ICW2_MASTER MASTER_8259_DATA s
  let s := outb ICW2_SLAVE SLAVE_8259_DATA s
  let s := outb ICW3_MASTER MASTER_8259_DATA s
  let s := outb ICW3_SLAVE SLAVE_8259_DATA s
  let s := outb ICW4 MASTER_8259_DATA s
  let s := outb ICW4 SLAVE_8259_DATA s
  enableIrq SLAVE_POS s

def KEYBOARD_PICNUM : Nat := 0x01
def RTC_PICNUM : Nat := 0x08
def PIT_IRQ : Nat := 0x0

/-- The calls in `entry`: `i8259_init`, and `enable_irq` in `keyboard_init`,
`RTC_init` and `pit_init`.  The driver's variables start as `INIT_MASK`. -/
def boot (master slave : Pic) : State :=
  { masterMask := INIT_MASK, slaveMask := INIT_MASK, master := master, slave := slave }
    |> i8259Init |> enableIrq KEYBOARD_PICNUM |> enableIrq RTC_PICNUM |> enableIrq PIT_IRQ

/-! ## The controllers and the processor -/

/-- A device asks for an interrupt. -/
def raise (irqNum : Nat) (s : State) : State :=
  if irqNum < TOT_CNT then
    { s with master := { s.master with irr := Pic.setBit s.master.irr irqNum } }
  else
    { s with slave := { s.slave with irr := Pic.setBit s.slave.irr (irqNum - TOT_CNT) } }

/-- The master with the output of the slave on its line, which is not latched. -/
def cascaded (s : State) : Pic :=
  if s.slave.request.isSome then
    { s.master with irr := Pic.setBit s.master.irr SLAVE_POS }
  else s.master

/-- The processor acknowledges an interrupt: the vector that it reads.  A slave
answers if its number is that of the line. -/
def acknowledge (s : State) : Option (Nat × State) :=
  (cascaded s).request.bind fun n =>
    let master := s.master.serve n
    if s.master.cascade.getLsbD n then
      if s.slave.cascade.toNat % 8 = n then
        s.slave.request.map fun j =>
          (s.slave.base + j, { s with master := master, slave := s.slave.serve j })
      else none
    else some (s.master.base + n, { s with master := master })

/-- What happens at the controllers. -/
inductive Event where
  | raise (irqNum : Nat)
  | deliver (vector : Nat)
  | eoi (irqNum : Nat)
  | enable (irqNum : Nat)
  | disable (irqNum : Nat)
  deriving DecidableEq

/-- One step; no device is on the line of the slave. -/
def step (s : State) : Event → Option State
  | .raise n => if n < 16 ∧ n ≠ SLAVE_POS then some (raise n s) else none
  | .deliver v =>
      (acknowledge s).bind fun r => if r.1 = v then some r.2 else none
  | .eoi n => some (sendEoi n s)
  | .enable n => some (enableIrq n s)
  | .disable n => some (disableIrq n s)

def Step (s : State) (e : Event) (t : State) : Prop := step s e = some t

end MongOS.Model.I8259
