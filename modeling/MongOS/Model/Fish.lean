import MongOS.Model.Types

/-!
# The blinking characters of `fish` (`blink.S`, `fish.c`, `blink.h`)

The program keeps a list of `mp1_blink_struct`s, linked from `mp1_list_head`
through the slots of `blink_array`, and draws their characters into the video
memory.  The loops over the list are given fuel: `none` is a loop that has not
ended, or that has followed a null pointer.
-/

namespace MongOS.Model

/-- An element of `blink_array`; a pointer is `none` if it is `NULL`. -/
abbrev Slot := Fin (80 * 25)

/-- `struct mp1_blink_struct`. -/
structure BlinkStruct where
  location : UInt16
  onChar : Byte
  offChar : Byte
  onLength : UInt16
  offLength : UInt16
  countdown : UInt16
  status : UInt16
  next : Option Slot
  deriving DecidableEq

/-- The zeroed structure. -/
def BlinkStruct.zero : BlinkStruct :=
  { location := 0, onChar := 0, offChar := 0, onLength := 0, offLength := 0
    countdown := 0, status := 0, next := none }

/-- The state of the program; `vmem` is the memory at `vmem_base_addr` as far as the
program itself stores there. -/
structure Fish where
  blinkArray : Slot → BlinkStruct
  listHead : Option Slot
  vmem : Nat → Byte

/-- A signed 16-bit reading. -/
def toInt16 (n : UInt16) : Int :=
  if n.toNat < 2 ^ 15 then n.toNat else n.toNat - 2 ^ 16

namespace Fish

def setSlot (b : Fish) (i : Slot) (s : BlinkStruct) : Fish :=
  { b with blinkArray := Function.update b.blinkArray i s }

end Fish

/-- `mp1_poke`, with the byte in `%cl` and the offset in `%eax`. -/
def mp1Poke (b : Fish) (cl : Byte) (eax : Nat) : Fish :=
  { b with vmem := Function.update b.vmem eax cl }

/-- `mp1_malloc`: the first slot whose location is 0. -/
def mp1Malloc (b : Fish) : Option Slot :=
  (List.finRange (80 * 25)).find? fun i => (b.blinkArray i).location = 0

/-- `mp1_free`. -/
def mp1Free (b : Fish) (i : Slot) : Fish := b.setSlot i .zero

/-- The loop of `mp1_find_helper`, with `%ebx` at the pointer. -/
def findLoop (b : Fish) (ax : UInt16) : Nat → Option Slot → Option (Option Slot)
  | 0, _ => none
  | _ + 1, none => some none
  | n + 1, some i =>
      if (b.blinkArray i).location = ax then some (some i)
      else findLoop b ax n (b.blinkArray i).next

/-- `mp1_find_helper`: it compares 16 bits of its argument. -/
def mp1FindHelper (fuel : Nat) (b : Fish) (ax : UInt16) : Option (Option Slot) :=
  findLoop b ax fuel b.listHead

/-- The body of the loop of `mp1_rtc_tasklet`, for one structure. -/
def taskletNode (b : Fish) (i : Slot) : Fish :=
  let s := b.blinkArray i
  let s := { s with countdown := s.countdown - 1 }
  let b := b.setSlot i s
  -- cmpw $0,COUNTDOWN(%ebx); jg next_loop
  if 0 < toInt16 s.countdown then b
  else
    let eax := s.location.toNat * 2
    if s.status &&& 1 ≠ 0 then
      (mp1Poke b s.offChar eax).setSlot i
        { s with countdown := s.offLength, status := s.status ^^^ 1 }
    else
      (mp1Poke b s.onChar eax).setSlot i
        { s with countdown := s.onLength, status := s.status ^^^ 1 }

/-- The loop of `mp1_rtc_tasklet`. -/
def taskletLoop : Nat → Option Slot → Fish → Option Fish
  | 0, _, _ => none
  | _ + 1, none, b => some b
  | n + 1, some i, b =>
      let b := taskletNode b i
      taskletLoop n (b.blinkArray i).next b

/-- `mp1_rtc_tasklet`. -/
def mp1RtcTasklet (fuel : Nat) (b : Fish) : Option Fish :=
  taskletLoop fuel b.listHead b

/-- `mp1_ioctl_add`, with the structure the caller points to. -/
def mp1IoctlAdd (b : Fish) (arg : BlinkStruct) : Fish × Int :=
  if arg.location.toNat ≥ 80 * 25 then (b, -1)
  else
    let s := { arg with status := 1, countdown := arg.onLength }
    match mp1Malloc b with
    | none => (b, -1)
    | some i =>
        let b := b.setSlot i { s with next := b.listHead }
        let b := { b with listHead := some i }
        (mp1Poke b s.onChar (s.location.toNat * 2), 0)

/-- The cell behind `%edx` in `remove_find_prev`: the head of the list, or the
`next` field of a structure. -/
def cell (b : Fish) : Option Slot → Option Slot
  | none => b.listHead
  | some j => (b.blinkArray j).next

def setCell (b : Fish) (edx : Option Slot) (p : Option Slot) : Fish :=
  match edx with
  | none => { b with listHead := p }
  | some j => b.setSlot j { b.blinkArray j with next := p }

/-- `remove_find_prev`: the cell that points to the structure `eax`. -/
def removeFindPrev (b : Fish) (eax : Slot) :
    Nat → Option Slot → Option (Option Slot)
  | 0, _ => none
  | n + 1, edx =>
      if cell b edx = some eax then some edx
      else
        match cell b edx with
        | none => none
        | some j => removeFindPrev b eax n (some j)

/-- `mp1_ioctl_remove`. -/
def mp1IoctlRemove (fuel : Nat) (b : Fish) (arg : UInt32) :
    Option (Fish × Int) :=
  match mp1FindHelper fuel b arg.toUInt16 with
  | none => none
  | some none => some (b, -1)
  | some (some eax) =>
      (removeFindPrev b eax fuel none).map fun edx =>
        (mp1Free (setCell b edx (b.blinkArray eax).next) eax, 0)

/-- `mp1_ioctl_find`, for the location the caller points to: the structure that
is handed over. -/
def mp1IoctlFind (fuel : Nat) (b : Fish) (location : UInt16) :
    Option (Option BlinkStruct) :=
  (mp1FindHelper fuel b location).map fun eax => eax.map b.blinkArray

/-- The character `mp1_ioctl_sync` displays.  `testb` clears the overflow flag
and sets the sign flag from bit 7 of its result; `cmovl` moves if they
differ. -/
def syncChar (s : BlinkStruct) : Byte :=
  let test : Byte := 1 &&& s.status.toUInt8
  if test.toNat ≥ 128 then s.onChar else s.offChar

/-- `sync_copy_loop`. -/
def syncCopy (esi edi : BlinkStruct) : BlinkStruct :=
  { edi with
    onLength := esi.onLength
    offLength := esi.offLength
    countdown := esi.countdown
    status := esi.status }

/-- `mp1_ioctl_sync`: the upper half of the argument is the location to copy
from, the lower half the location to copy to. -/
def mp1IoctlSync (fuel : Nat) (b : Fish) (arg : UInt32) : Option (Fish × Int) :=
  match mp1FindHelper fuel b (arg >>> 16).toUInt16 with
  | none => none
  | some none => some (b, -1)
  | some (some esi) =>
      match mp1FindHelper fuel b arg.toUInt16 with
      | none => none
      | some none => some (b, -1)
      | some (some edi) =>
          let s := syncCopy (b.blinkArray esi) (b.blinkArray edi)
          some (mp1Poke (b.setSlot edi s) (syncChar s) (s.location.toNat * 2), 0)

/-- The calls of `mp1_ioctl`, and the tasklet. -/
inductive FishCall where
  | add (arg : BlinkStruct)
  | remove (arg : UInt32)
  | find (location : UInt16)
  | sync (arg : UInt32)
  | tasklet

/-- The state after a call. -/
def fishCall (fuel : Nat) (b : Fish) : FishCall → Option Fish
  | .add arg => some (mp1IoctlAdd b arg).1
  | .remove arg => (mp1IoctlRemove fuel b arg).map fun r => r.1
  | .find location => (mp1IoctlFind fuel b location).map fun _ => b
  | .sync arg => (mp1IoctlSync fuel b arg).map fun r => r.1
  | .tasklet => mp1RtcTasklet fuel b

/-- The start of `main`. -/
def Fish.start (vmem : Nat → Byte) : Fish :=
  { blinkArray := fun _ => .zero, listHead := none, vmem := vmem }

end MongOS.Model
