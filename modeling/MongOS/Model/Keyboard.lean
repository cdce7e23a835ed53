import MongOS.Model.Screen

/-!
# Keyboard input and terminal reads (`keyboard.c`, `scancode.h`)

`keyboard_irq` edits the line buffer of the displayed terminal and echoes it;
`read_terminal` hands the line of the running terminal over once Enter has set
its ready flag.
-/

namespace MongOS.Model

/-- `FULL_BUFFER`. -/
def FULL_BUFFER : Nat := 127
/-- `MAX_BUFFER_SIZE`, `K_SIZE` and `LOG_ROWS`. -/
def MAX_BUFFER_SIZE : Nat := 128
def ENTER_ASCII : Byte := 13
def BACKSPACE : Byte := 8
def TAB : Byte := 9
def CHARACTER_MAX : Nat := 0x59

/-- `scancode_table`: the plain and the shifted character of each code from
`0x00` to `0x58`, in the order of the source. -/
def scancodeTable : List (Byte × Byte) := [
    (0, 0), (0, 0), (49, 33), (50, 64), (51, 35), (52, 36), (53, 37), (54, 94),
    (55, 38), (56, 42), (57, 40), (48, 41), (45, 95), (61, 43), (8, 8), (9, 9),
    (113, 81), (119, 87), (101, 69), (114, 82), (116, 84), (121, 89), (117, 85), (105, 73),
    (111, 79), (112, 80), (91, 123), (93, 125), (13, 13), (0, 0), (97, 65), (115, 83),
    (100, 68), (102, 70), (103, 71), (104, 72), (106, 74), (107, 75), (108, 76), (59, 58),
    (39, 34), (96, 126), (0, 0), (92, 124), (122, 90), (120, 88), (99, 67), (118, 86),
    (98, 66), (110, 78), (109, 77), (44, 60), (46, 62), (47, 63), (0, 0), (0, 0),
    (0, 0), (32, 32), (0, 0), (0, 0), (0, 0), (0, 0), (0, 0), (0, 0),
    (0, 0), (0, 0), (0, 0), (0, 0), (0, 0), (0, 0), (0, 0), (55, 0),
    (56, 0), (57, 0), (45, 45), (52, 0), (53, 0), (54, 0), (43, 43), (49, 0),
    (50, 0), (51, 0), (48, 0), (46, 46), (0, 0), (0, 0), (0, 0), (0, 0),
    (0, 0) ]

/-- `get_command_char`: `none` is `K_FALSE`. -/
def getCommandChar (c : Console) (input : Byte) : Option Console :=
  let keys := c.keys
  match input.toNat with
  | 0x2A => some { c with keys := { keys with lrShift := 1 } }
  | 0x36 => some { c with keys := { keys with lrShift := 1 } }
  | 0xAA => some { c with keys := { keys with lrShift := 0 } }
  | 0xB6 => some { c with keys := { keys with lrShift := 0 } }
  | 0x1D => some { c with keys := { keys with lCtrl := 1 } }
  | 0x9D => some { c with keys := { keys with lCtrl := 0 } }
  | 0x3A =>
      some { c with
        keys := { keys with capsOn := 1, capsLock := 1 - keys.capsLock } }
  | 0xBA => some { c with keys := { keys with capsOn := 0 } }
  | 0x38 => some { c with keys := { keys with lAlt := 1 } }
  | 0xB8 => some { c with keys := { keys with lAlt := 0 } }
  | 0x3B => some (if keys.lAlt ≠ 0 then terminalSwitch c 0 else c)
  | 0x3C => some (if keys.lAlt ≠ 0 then terminalSwitch c 1 else c)
  | 0x3D => some (if keys.lAlt ≠ 0 then terminalSwitch c 2 else c)
  | 0x01 => some c
  | _ => none

/-- The character a table row stands for under the modifiers. -/
def selectChar (keys : Modifiers) (row : Byte × Byte) : Byte :=
  if 97 ≤ row.1 ∧ row.1 ≤ 122 then
    if keys.capsLock ≠ keys.lrShift then row.2 else row.1
  else if keys.lrShift ≠ 0 then row.2
  else row.1

/-- The backspace branch on a nonempty buffer: a tab takes four cells. -/
def eraseLast (c : Console) : Console :=
  let tds := c.multiTerminal c.displayTerminal
  let c := displayPutc c BACKSPACE
  let c :=
    if tds.keyboardBuffer (tds.bufferSize - 1) = TAB then
      displayPutc (displayPutc (displayPutc c BACKSPACE) BACKSPACE) BACKSPACE
    else c
  c.modify c.displayTerminal fun t => { t with bufferSize := t.bufferSize - 1 }

/-- `tds->keyboard_buffer[tds->buffer_size] = sch; tds->buffer_size++;` -/
def appendChar (c : Console) (sch : Byte) : Console :=
  c.modify c.displayTerminal fun t =>
    { t with
      keyboardBuffer := Function.update t.keyboardBuffer t.bufferSize sch
      bufferSize := t.bufferSize + 1 }

/-- `keyboard_irq` once the character `sch` is known. -/
def typeChar (c : Console) (sch : Byte) : Console :=
  let tds := c.multiTerminal c.displayTerminal
  if tds.bufferSize = FULL_BUFFER then
    if sch = ENTER_ASCII then
      let c := displayPutc c 10
      c.modify c.displayTerminal fun t =>
        { t with
          keyboardBuffer :=
            Function.update t.keyboardBuffer FULL_BUFFER ENTER_ASCII
          terminalEnable := true
          bufferSize := 0 }
    else if sch = BACKSPACE then eraseLast c
    else c
  else if sch = BACKSPACE then
    if tds.bufferSize = 0 then c else eraseLast c
  else if sch = TAB then
    let c := displayPutc (displayPutc (displayPutc (displayPutc c 32) 32) 32) 32
    appendChar c TAB
  else
    let c := appendChar c sch
    let c := displayPutc c sch
    if sch = ENTER_ASCII then
      c.modify c.displayTerminal fun t =>
        { t with terminalEnable := true, bufferSize := 0 }
    else c

/-- `keyboard_irq`, with the scancode `ch` in the port. -/
def keyboardIrq (c : Console) (ch : Byte) : Console :=
  match getCommandChar c ch with
  | some c => c
  | none =>
      if ch.toNat < CHARACTER_MAX then
        let row := scancodeTable.getD ch.toNat (0, 0)
        if c.keys.lCtrl ≠ 0 ∧ row.1 = 108 then
          let c := clear c
          c.modify c.displayTerminal fun t => { t with bufferSize := 0 }
        else typeChar c (selectChar c.keys row)
      else c

/-- The copy loop of `read_terminal` from index `i` on, with `n` bytes to go;
`i` is also the number of bytes copied. -/
def copyLine (keyboardBuffer : Nat → Byte) (nbytes : Nat) :
    Nat → Nat → (Nat → Byte) → Nat × (Nat → Byte)
  | 0, i, buf => (i, buf)
  | n + 1, i, buf =>
      if i ≥ MAX_BUFFER_SIZE then (i, buf)
      else if keyboardBuffer i = ENTER_ASCII then
        (i + 1, fun j =>
          if j = i then 10 else if i + 1 ≤ j ∧ j < nbytes then 0 else buf j)
      else
        copyLine keyboardBuffer nbytes n (i + 1)
          (Function.update buf i (keyboardBuffer i))

/-- `read_terminal`, for a non-`NULL` buffer; `none` while it waits for the
ready flag. -/
def readTerminal (c : Console) (buf : Nat → Byte) (nbytes : Int) :
    Option (Console × Int × (Nat → Byte)) :=
  let tds := c.multiTerminal c.currentTid
  let nbytes := min nbytes.toNat MAX_BUFFER_SIZE
  if tds.terminalEnable then
    let r := copyLine tds.keyboardBuffer nbytes nbytes 0 buf
    some (c.modify c.currentTid fun t => { t with terminalEnable := false },
      r.1, r.2)
  else none

/-- `write_terminal`, for a non-`NULL` buffer. -/
def writeTerminal (c : Console) (buf : Nat → Byte) (nbytes : Int) :
    Console × Int :=
  ((List.range nbytes.toNat).foldl (fun c i => putc c (buf i)) c, nbytes.toNat)

end MongOS.Model
