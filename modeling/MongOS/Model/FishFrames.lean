import MongOS.Model.Fish
import MongOS.Model.UserPrograms

/-!
# The two frames of `fish` (`fish.c`)

`add_frames` reads two text files side by side, a byte at a time, and puts a
blinking character on the list wherever one of the two texts has a character that
can be seen.  The loops have a bound on their rounds, as in `UserPrograms`.

The memory at `vmem_base_addr` is part of the program here: it holds what the program
stores there, on a page that stays mapped.  What the kernel and other programs store
to the same page is not part of it.
-/

namespace MongOS.Model

/-- The local variables of `add_frames` that its loops change, and the list. -/
structure Frames where
  c0 : Byte
  c1 : Byte
  eof0 : Bool
  eof1 : Bool
  fish : Fish

/-- The first two statements in the inner loop, for one of the files: the next
character, and whether the file has ended. -/
def nextChar (fd : Int) (c : Byte) (eof : Bool) : UserProg (Byte × Bool) :=
  if c ≠ 10 then do
    let r ← ece391Read fd (fun _ => c) 1
    if r.value = 0 then return (10, true) else return (r.buf 0, eof)
  else return (c, eof)

/-- `mp1_ioctl (RTC_ADD)` for the two characters; `blink` is what `blink_struct`
holds in its other fields. -/
def addChar (blink : BlinkStruct) (row col : Nat) (c0 c1 : Byte) (b : Fish) : Fish :=
  if (c0 ≠ 32 ∧ c0 ≠ 10) ∨ (c1 ≠ 32 ∧ c1 ≠ 10) then
    (mp1IoctlAdd b
      { blink with
        onChar := if c0 = 10 then 32 else c0
        offChar := if c1 = 10 then 32 else c1
        location := UInt16.ofNat (row * 80 + col + 40) }).1
  else b

/-- The inner loop, over the columns of a row. -/
def columnLoop (blink : BlinkStruct) (fd0 fd1 : Int) (row : Nat) :
    Nat → Nat → Frames → UserProg (Option Frames)
  | 0, _, _ => return none
  | n + 1, col, s => do
      let (c0, eof0) ← nextChar fd0 s.c0 s.eof0
      let (c1, eof1) ← nextChar fd1 s.c1 s.eof1
      let s := { s with c0 := c0, eof0 := eof0, c1 := c1, eof1 := eof1 }
      if c0 = 10 ∧ c1 = 10 then return some s
      else
        columnLoop blink fd0 fd1 row n (col + 1)
          { s with fish := addChar blink row col c0 c1 s.fish }

/-- The end of a row for one of the files: what its character is then. -/
def endRow (fd : Int) (eof : Bool) : UserProg Byte :=
  if eof then do
    let _ ← ece391Close fd
    return 10
  else return 48

/-- The outer loop, over the rows. -/
def rowLoop (blink : BlinkStruct) (fd0 fd1 : Int) (columns : Nat) :
    Nat → Nat → Frames → UserProg (Option Frames)
  | 0, _, _ => return none
  | n + 1, row, s =>
      if s.eof0 = true ∧ s.eof1 = true then return some s
      else do
        let r ← columnLoop blink fd0 fd1 row columns 0 s
        match r with
        | none => return none
        | some s => do
            let c0 ← endRow fd0 s.eof0
            let c1 ← endRow fd1 s.eof1
            rowLoop blink fd0 fd1 columns n (row + 1) { s with c0 := c0, c1 := c1 }

/-- `add_frames`, with what `blink_struct` holds at first.  The program ends with
`ece391_halt (-1)` if a file cannot be opened; otherwise the list is returned. -/
def addFrames (columns rows : Nat) (junk : BlinkStruct) (f0 f1 : List Byte)
    (b : Fish) : UserProg (Option (Except Int Fish)) := do
  let blink := { junk with onLength := 15, offLength := 15 }
  let fd0 ← ece391Open f0
  if fd0.value < 0 then return some (.error (-1))
  else do
    let fd1 ← ece391Open f1
    if fd1.value < 0 then return some (.error (-1))
    else do
      let r ← rowLoop blink fd0.value fd1.value columns rows 0
        { c0 := 48, c1 := 48, eof0 := false, eof1 := false, fish := b }
      return r.map fun s => .ok s.fish

/-- A `for` loop of `main`: interrupts of the RTC, each with its tasklet. -/
def waitLoop (fuel : Nat) (fd : Int) :
    Nat → (Nat → Byte) → Fish → UserProg (Option ((Nat → Byte) × Fish))
  | 0, garbage, b => return some (garbage, b)
  | n + 1, garbage, b => do
      let r ← ece391Read fd garbage 4
      match mp1RtcTasklet fuel b with
      | none => return none
      | some b => waitLoop fuel fd n r.buf b

/-- The bytes of the rate that `main` writes to the RTC. -/
def rateBytes : Nat → Byte := fun i => if i = 0 then 32 else 0

/-- `mp1_set_video_mode`, with the address of `vmem_base_addr`: the value of that
pointer, or `NULL`. -/
def mp1SetVideoMode (base : Nat) : UserProg Nat := do
  let r ← ece391Vidmap base
  if r.value = -1 then return 0
  else
    return (r.buf 0).toNat + (r.buf 1).toNat * 2 ^ 8 + (r.buf 2).toNat * 2 ^ 16 +
      (r.buf 3).toNat * 2 ^ 24

/-- `main` with its first loop: the descriptor of the RTC, `garbage` and the list, or
the status with which the program ends.  `base` is the address of `vmem_base_addr`
and `vmem` the memory it points to. -/
def fishStart (columns rows fuel wait base : Nat) (junk : BlinkStruct)
    (garbage vmem : Nat → Byte) :
    UserProg (Option (Except Int (Int × (Nat → Byte) × Fish))) := do
  let vmemBaseAddr ← mp1SetVideoMode base
  if vmemBaseAddr = 0 then return some (.error (-1))
  else do
    let rtc ← ece391Open (literal "rtc")
    let r ← addFrames columns rows junk (literal "frame0.txt") (literal "frame1.txt")
      (.start vmem)
    match r with
    | none => return none
    | some (.error status) => return some (.error status)
    | some (.ok b) => do
        let _ ← ece391Write rtc.value rateBytes 4
        let s ← waitLoop fuel rtc.value wait garbage b
        return s.map fun s => .ok (rtc.value, s)

/-- The structure that `main` adds itself. -/
def imBlink (junk : BlinkStruct) : BlinkStruct :=
  { junk with
    onChar := 73
    offChar := 77
    onLength := 7
    offLength := 6
    location := 6 * 80 + 60 }

/-- The rest of `main`, behind its first loop: the exit status and the memory at
`vmem_base_addr`. -/
def fishRest (fuel wait : Nat) (junk : BlinkStruct) (fd : Int) (garbage : Nat → Byte)
    (b : Fish) : UserProg (Option (Int × (Nat → Byte))) := do
  let some (garbage, b) ← waitLoop fuel fd wait garbage (mp1IoctlAdd b (imBlink junk)).1
    | return none
  let some (b, _) := mp1IoctlSync fuel b ((40 : UInt32) <<< 16 ||| (6 * 80 + 60))
    | return none
  let some (garbage, b) ← waitLoop fuel fd wait garbage b | return none
  let some (b, _) := mp1IoctlRemove fuel b (6 * 80 + 60) | return none
  let some (_, b) ← waitLoop fuel fd wait garbage b | return none
  let _ ← ece391Close fd
  return some (0, b.vmem)

def WAIT : Nat := 100

/-- `main`. -/
def fishMain (columns rows fuel base : Nat) (junk junk' : BlinkStruct)
    (garbage vmem : Nat → Byte) : UserProg (Option (Int × (Nat → Byte))) := do
  let r ← fishStart columns rows fuel WAIT base junk garbage vmem
  match r with
  | none => return none
  | some (.error status) => return some (status, vmem)
  | some (.ok (fd, garbage, b)) => fishRest fuel WAIT junk' fd garbage b

end MongOS.Model
