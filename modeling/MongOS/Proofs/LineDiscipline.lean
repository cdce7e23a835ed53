import MongOS.Verified.Run
import MongOS.Verified.LineEditor
import MongOS.Proofs.ScreenFrame

/-!
# Typed lines and the reads that receive them

`keyboard_irq` and `read_terminal` share a buffer, a length and a ready flag per
terminal.  Against them stands a line editor for each terminal, without a limit
on the length of a line.

* `lineOf_keyboardIrq` — what a key does to the buffers.
* `lines_reach_readers` — while no key is typed ahead of the reader, the reads
  of a terminal return its lines one by one.
* `typing_ahead_alters_line` — a key typed before the line is read overwrites it.
-/

namespace MongOS.Proofs.LineDiscipline

open MongOS.Model
open MongOS.Verified
open MongOS.Verified.LineEditor
open MongOS.Proofs.ScreenFrame

/-! ## The buffer of a terminal -/

/-- The fields of a terminal that the keyboard and the reader share. -/
@[ext] structure LineBuffer where
  buffer : Nat → Byte
  size : Nat
  ready : Bool

def bufferOf (r : Terminal) : LineBuffer :=
  { buffer := r.keyboardBuffer, size := r.bufferSize, ready := r.terminalEnable }

def lineOf (c : Console) (t : Tid) : LineBuffer := bufferOf (c.multiTerminal t)

theorem lineOf_of_input {c d : Console} (h : input d = input c) (t : Tid) :
    lineOf d t = lineOf c t := by
  have hbuffer := congrFun (congrArg Input.buffer h) t
  have hsize := congrFun (congrArg Input.size h) t
  have hready := congrFun (congrArg Input.ready h) t
  exact LineBuffer.ext hbuffer hsize hready

theorem lineOf_modify_ne (c : Console) {t u : Tid} (f : Terminal → Terminal)
    (h : t ≠ u) : lineOf (c.modify u f) t = lineOf c t := by
  simp [lineOf, Console.modify, Function.update_of_ne h]

theorem lineOf_modify (c : Console) (t : Tid) (f : Terminal → Terminal) :
    lineOf (c.modify t f) t = bufferOf (f (c.multiTerminal t)) := by
  simp [lineOf, Console.modify]

/-- From `c` to `d` only the buffer of the displayed terminal has changed, and
it is `b` now. -/
structure Edits (c d : Console) (b : LineBuffer) : Prop where
  line : lineOf d c.displayTerminal = b
  others : ∀ t, t ≠ c.displayTerminal → lineOf d t = lineOf c t
  cur : d.currentTid = c.currentTid
  display : d.displayTerminal = c.displayTerminal
  keys : d.keys = c.keys

namespace Edits

variable {c d e : Console} {b : LineBuffer}

theorem refl (c : Console) : Edits c c (lineOf c c.displayTerminal) where
  line := rfl
  others _ _ := rfl
  cur := rfl
  display := rfl
  keys := rfl

/-- Output in between changes no buffer. -/
theorem output (h : Edits c d b) (hinput : input e = input d) : Edits c e b where
  line := (lineOf_of_input hinput _).trans h.line
  others t ht := (lineOf_of_input hinput t).trans (h.others t ht)
  cur := (congrArg Input.cur hinput).trans h.cur
  display := (congrArg Input.display hinput).trans h.display
  keys := (congrArg Input.keys hinput).trans h.keys

/-- An assignment to the displayed terminal's fields that does `g` to its
buffer. -/
theorem modify (h : Edits c d b) {f : Terminal → Terminal}
    {g : LineBuffer → LineBuffer} (hf : ∀ r, bufferOf (f r) = g (bufferOf r)) :
    Edits c (d.modify d.displayTerminal f) (g b) where
  line := by
    rw [← h.line, ← h.display, lineOf_modify, hf]
    rfl
  others t ht := by
    rw [lineOf_modify_ne d f (by rwa [h.display]), h.others t ht]
  cur := h.cur
  display := h.display
  keys := h.keys

end Edits

/-- `tds->keyboard_buffer[tds->buffer_size] = sch; tds->buffer_size++;` -/
def LineBuffer.append (b : LineBuffer) (sch : Byte) : LineBuffer :=
  { b with buffer := Function.update b.buffer b.size sch, size := b.size + 1 }

/-- `tds->buffer_size--;` -/
def LineBuffer.shorten (b : LineBuffer) : LineBuffer :=
  { b with size := b.size - 1 }

/-- `tds->terminal_enable = 1; tds->buffer_size = 0;` -/
def LineBuffer.commit (b : LineBuffer) : LineBuffer :=
  { b with ready := true, size := 0 }

theorem edits_appendChar {c d : Console} {b : LineBuffer} (h : Edits c d b)
    (sch : Byte) : Edits c (appendChar d sch) (b.append sch) :=
  h.modify (g := fun b => b.append sch) fun _ => rfl

theorem edits_eraseLast (c : Console) :
    Edits c (eraseLast c) (lineOf c c.displayTerminal).shorten := by
  unfold eraseLast
  dsimp only
  refine ((Edits.refl c).output ?_).modify (g := LineBuffer.shorten) fun _ => rfl
  split <;> simp

/-- What typing the character `sch` does to the buffer. -/
def typeLine (b : LineBuffer) (sch : Byte) : LineBuffer :=
  if sch = BACKSPACE then b.shorten
  else if b.size = FULL_BUFFER ∧ sch ≠ ENTER_ASCII then b
  else if sch = ENTER_ASCII then (b.append ENTER_ASCII).commit
  else b.append sch

/-- `keyboard_irq` does to the displayed terminal's buffer what `typeLine`
says. -/
theorem edits_typeChar (c : Console) (sch : Byte) :
    Edits c (typeChar c sch) (typeLine (lineOf c c.displayTerminal) sch) := by
  have hsize : (c.multiTerminal c.displayTerminal).bufferSize =
      (lineOf c c.displayTerminal).size := rfl
  have hrefl := Edits.refl c
  have herase := edits_eraseLast c
  unfold typeChar typeLine
  dsimp only
  rw [hsize]
  generalize lineOf c c.displayTerminal = b at hrefl herase ⊢
  by_cases hfull : b.size = FULL_BUFFER
  · rw [if_pos hfull]
    by_cases henter : sch = ENTER_ASCII
    · -- Enter still finds room behind a full line
      subst henter
      have hcommit : (b.append ENTER_ASCII).commit =
          { buffer := Function.update b.buffer FULL_BUFFER ENTER_ASCII
            size := 0, ready := true } := by
        rw [LineBuffer.append, LineBuffer.commit, hfull]
      rw [if_pos rfl, if_neg (by decide), if_neg fun h => h.2 rfl, if_pos rfl,
        hcommit]
      exact (hrefl.output (input_displayPutc c 10)).modify
        (g := fun b =>
          { buffer := Function.update b.buffer FULL_BUFFER ENTER_ASCII
            size := 0, ready := true }) fun _ => rfl
    · rw [if_neg henter]
      by_cases hback : sch = BACKSPACE
      · rw [if_pos hback, if_pos hback]
        exact herase
      · rw [if_neg hback, if_neg hback, if_pos ⟨hfull, henter⟩]
        exact hrefl
  · have hroom : ¬(b.size = FULL_BUFFER ∧ sch ≠ ENTER_ASCII) :=
      fun h => hfull h.1
    rw [if_neg hfull]
    by_cases hback : sch = BACKSPACE
    · rw [if_pos hback, if_pos hback]
      by_cases hempty : b.size = 0
      · have hshorten : b.shorten = b := by
          rw [LineBuffer.shorten, hempty]
          exact LineBuffer.ext rfl hempty.symm rfl
        rw [if_pos hempty, hshorten]
        exact hrefl
      · rw [if_neg hempty]
        exact herase
    · rw [if_neg hback, if_neg hback]
      by_cases htab : sch = TAB
      · subst htab
        rw [if_neg hroom, if_pos rfl, if_neg (by decide)]
        exact edits_appendChar (hrefl.output (by simp)) TAB
      · have happend := (edits_appendChar hrefl sch).output
          (input_displayPutc (appendChar c sch) sch)
        rw [if_neg hroom, if_neg htab]
        by_cases henter : sch = ENTER_ASCII
        · subst henter
          rw [if_pos rfl, if_pos rfl]
          exact happend.modify (g := LineBuffer.commit) fun _ => rfl
        · rw [if_neg henter, if_neg henter]
          exact happend

/-! ## Keys -/

/-- What a scancode means under the modifiers: a key without a character in the
table is silent, and so are releases and the keys that `get_command_char`
handles. -/
def keyOf (keys : Modifiers) (ch : Byte) : Key Byte :=
  let row := scancodeTable.getD ch.toNat (0, 0)
  let sch := selectChar keys row
  if keys.lCtrl ≠ 0 ∧ row.1 = 108 then .wipe
  else if sch = BACKSPACE then .backspace
  else if sch = ENTER_ASCII then .enter
  else if sch = 0 then .silent
  else .char sch

theorem lineOf_terminalSwitch (c : Console) (u t : Tid) :
    lineOf (terminalSwitch c u) t = lineOf c t := by
  have hinput := input_terminalSwitch c u
  exact LineBuffer.ext (congrFun (congrArg Input.buffer hinput) t)
    (congrFun (congrArg Input.size hinput) t)
    (congrFun (congrArg Input.ready hinput) t)

/-- `get_command_char` edits no line and leaves the running terminal. -/
theorem getCommandChar_input {c d : Console} {ch : Byte}
    (h : getCommandChar c ch = some d) :
    (∀ t, lineOf d t = lineOf c t) ∧ d.currentTid = c.currentTid := by
  have hfunction : ∀ u, (∀ t,
        lineOf (if c.keys.lAlt ≠ 0 then terminalSwitch c u else c) t =
          lineOf c t) ∧
      (if c.keys.lAlt ≠ 0 then terminalSwitch c u else c).currentTid =
        c.currentTid := by
    intro u
    split
    · exact ⟨lineOf_terminalSwitch c u, congrArg Input.cur (input_terminalSwitch c u)⟩
    · exact ⟨fun _ => rfl, rfl⟩
  unfold getCommandChar at h
  dsimp only at h
  split at h
  case h_11 => cases h; exact hfunction 0
  case h_12 => cases h; exact hfunction 1
  case h_13 => cases h; exact hfunction 2
  case h_15 => cases h
  all_goals cases h; exact ⟨fun _ => rfl, rfl⟩

/-- The key of the table behind a scancode, if there is one. -/
def keyAt (c : Console) (ch : Byte) : Option (Key Byte) :=
  if getCommandChar c ch = none ∧ ch.toNat < CHARACTER_MAX then
    some (keyOf c.keys ch)
  else none

theorem keyAt_some {c : Console} {ch : Byte} {k : Key Byte}
    (h : keyAt c ch = some k) :
    getCommandChar c ch = none ∧ ch.toNat < CHARACTER_MAX ∧
      keyOf c.keys ch = k := by
  unfold keyAt at h
  split at h
  case isTrue hkey => exact ⟨hkey.1, hkey.2, Option.some.inj h⟩
  case isFalse => cases h

theorem keyAt_none {c : Console} {ch : Byte} (h : keyAt c ch = none) :
    ¬(getCommandChar c ch = none ∧ ch.toNat < CHARACTER_MAX) := by
  intro hkey
  rw [keyAt, if_pos hkey] at h
  cases h

/-- A scancode that is not in the table is left to `get_command_char`. -/
theorem keyboardIrq_off {c : Console} {ch : Byte} (h : keyAt c ch = none) :
    keyboardIrq c ch = (getCommandChar c ch).getD c := by
  unfold keyboardIrq
  cases hcommand : getCommandChar c ch with
  | some d => rfl
  | none =>
      have hcode : ¬ch.toNat < CHARACTER_MAX := fun hlt =>
        keyAt_none h ⟨hcommand, hlt⟩
      dsimp only
      rw [if_neg hcode, Option.getD_none]

/-- `keyboard_irq` with a scancode that is. -/
theorem keyboardIrq_on {c : Console} {ch : Byte} {k : Key Byte}
    (h : keyAt c ch = some k) :
    keyboardIrq c ch =
      if c.keys.lCtrl ≠ 0 ∧ (scancodeTable.getD ch.toNat (0, 0)).1 = 108 then
        (clear c).modify (clear c).displayTerminal fun t =>
          { t with bufferSize := 0 }
      else
        typeChar c
          (selectChar c.keys (scancodeTable.getD ch.toNat (0, 0))) := by
  obtain ⟨hnone, hcode, -⟩ := keyAt_some h
  unfold keyboardIrq
  rw [hnone]
  dsimp only
  rw [if_pos hcode]

/-- Enter is not a character of a line. -/
theorem keyAt_ne_enter {c : Console} {ch : Byte} {k : Key Byte}
    (h : keyAt c ch = some k) : k ≠ .char ENTER_ASCII := by
  rintro rfl
  unfold keyAt keyOf at h
  grind

/-- What a key of the table does to the buffer: one without a character stores
a NUL. -/
def lineAfter (b : LineBuffer) : Key Byte → LineBuffer
  | .char sch => if b.size = FULL_BUFFER then b else b.append sch
  | .backspace => b.shorten
  | .enter => (b.append ENTER_ASCII).commit
  | .wipe => { b with size := 0 }
  | .silent => if b.size = FULL_BUFFER then b else b.append 0

/-- Any other scancode leaves the buffers alone. -/
theorem keyboardIrq_none {c : Console} {ch : Byte} (h : keyAt c ch = none) :
    (∀ t, lineOf (keyboardIrq c ch) t = lineOf c t) ∧
      (keyboardIrq c ch).currentTid = c.currentTid := by
  rw [keyboardIrq_off h]
  cases hcommand : getCommandChar c ch with
  | some d => exact getCommandChar_input hcommand
  | none => exact ⟨fun _ => rfl, rfl⟩

theorem typeLine_char {b : LineBuffer} {sch : Byte} (hback : sch ≠ BACKSPACE)
    (henter : sch ≠ ENTER_ASCII) :
    typeLine b sch = if b.size = FULL_BUFFER then b else b.append sch := by
  unfold typeLine
  rw [if_neg hback, if_neg henter]
  by_cases hfull : b.size = FULL_BUFFER
  · rw [if_pos ⟨hfull, henter⟩, if_pos hfull]
  · rw [if_neg fun h => hfull h.1, if_neg hfull]

/-- A key of the table edits the buffer of the displayed terminal. -/
theorem keyboardIrq_some {c : Console} {ch : Byte} {k : Key Byte}
    (h : keyAt c ch = some k) :
    Edits c (keyboardIrq c ch) (lineAfter (lineOf c c.displayTerminal) k) := by
  rw [keyboardIrq_on h]
  obtain ⟨-, -, rfl⟩ := keyAt_some h
  unfold keyOf
  dsimp only
  have htype := edits_typeChar c
    (selectChar c.keys (scancodeTable.getD ch.toNat (0, 0)))
  generalize selectChar c.keys (scancodeTable.getD ch.toNat (0, 0)) = sch
    at htype ⊢
  by_cases hwipe : c.keys.lCtrl ≠ 0 ∧
      (scancodeTable.getD ch.toNat (0, 0)).1 = 108
  · rw [if_pos hwipe, if_pos hwipe]
    exact ((Edits.refl c).output (input_clear c)).modify
      (g := fun b => { b with size := 0 }) fun _ => rfl
  · rw [if_neg hwipe, if_neg hwipe]
    by_cases hback : sch = BACKSPACE
    · subst hback
      exact htype
    · by_cases henter : sch = ENTER_ASCII
      · subst henter
        rw [if_neg hback, if_pos rfl]
        have hline : typeLine (lineOf c c.displayTerminal) ENTER_ASCII =
            ((lineOf c c.displayTerminal).append ENTER_ASCII).commit := by
          rw [typeLine, if_neg hback, if_neg fun h => h.2 rfl, if_pos rfl]
        rw [hline] at htype
        exact htype
      · rw [typeLine_char hback henter] at htype
        rw [if_neg hback, if_neg henter]
        by_cases hsilent : sch = 0
        · subst hsilent
          exact htype
        · rw [if_neg hsilent]
          exact htype

/-! ## Terminals, editors and readers -/

/-- The console, with a line editor for each terminal that is given the keys
typed while the terminal is displayed, and with the results of the reads that
completed on each terminal. -/
structure Desk where
  con : Console
  editor : Tid → Editor Byte
  results : Tid → List (List Byte)

inductive InputEvent
  | key (ch : Byte)
  | terminal (t : Tid)
  | switch (t : Tid)
  | write (ch : Byte)
  | read (buf : Nat → Byte) (nbytes : Int)

/-- The bytes a read returned. -/
def returned (r : Console × Int × (Nat → Byte)) : List Byte :=
  (List.range r.2.1.toNat).map r.2.2

/-- A read that has to wait is no step. -/
def inputStep (D : Desk) : InputEvent → Option Desk
  | .key ch =>
      some
        { con := keyboardIrq D.con ch
          editor :=
            match keyAt D.con ch with
            | some k =>
                Function.update D.editor D.con.displayTerminal
                  ((D.editor D.con.displayTerminal).press k)
            | none => D.editor
          results := D.results }
  | .terminal t => some { D with con := terminalSwitch D.con t }
  | .switch t => some { D with con := switchConsole D.con t }
  | .write ch => some { D with con := putc D.con ch }
  | .read buf nbytes =>
      (readTerminal D.con buf nbytes).map fun r =>
        { con := r.1
          editor := D.editor
          results :=
            Function.update D.results D.con.currentTid
              (D.results D.con.currentTid ++ [returned r]) }

def InputStep (D : Desk) (e : InputEvent) (D' : Desk) : Prop :=
  inputStep D e = some D'

/-- Boot. -/
def Desk.boot (mem : Int → Byte) : Desk :=
  { con := initTerminal mem, editor := fun _ => .empty, results := fun _ => [] }

/-- No line grows longer than 127 characters, and reads ask for 128 bytes. -/
def Sized (D : Desk) : InputEvent → Prop
  | .key ch => ∀ sch, keyAt D.con ch = some (.char sch) →
      (D.editor D.con.displayTerminal).line.length < FULL_BUFFER
  | .read _ nbytes => (MAX_BUFFER_SIZE : Int) ≤ nbytes
  | _ => True

/-- The keys that do no harm to the buffer `b`: while it holds a line that has
not been read, neither a character nor Enter, and a key without a character only
if the line is full. -/
def HeldBack (b : LineBuffer) : Key Byte → Prop
  | .char _ => b.ready = false
  | .enter => b.ready = false
  | .silent => b.size = FULL_BUFFER
  | .backspace => True
  | .wipe => True

/-- No key is typed ahead of the reader. -/
def NotAhead (D : Desk) : InputEvent → Prop
  | .key ch => ∀ k, keyAt D.con ch = some k →
      HeldBack (lineOf D.con D.con.displayTerminal) k
  | _ => True

/-- A line as a read returns it. -/
def delivered (l : List Byte) : List Byte := l ++ [10]

/-- The buffer starts with the line `l`. -/
def Starts (buffer : Nat → Byte) (l : List Byte) : Prop :=
  ∀ (i : Nat) (h : i < l.length), buffer i = l[i]

/-- The buffer holds the line `l`, ended with a carriage return. -/
structure Committed (buffer : Nat → Byte) (l : List Byte) : Prop where
  starts : Starts buffer l
  ended : buffer l.length = ENTER_ASCII
  short : l.length ≤ FULL_BUFFER
  plain : ENTER_ASCII ∉ l

/-- The buffer of a terminal agrees with its line editor: it holds the line that
is typed, or else the last ended line, which has not been read. -/
structure Matches (b : LineBuffer) (e : Editor Byte) (got : List (List Byte)) :
    Prop where
  size : b.size = e.line.length
  short : e.line.length ≤ FULL_BUFFER
  plain : ENTER_ASCII ∉ e.line
  typing : b.ready = false → CaughtUp delivered e got ∧ Starts b.buffer e.line
  waiting : b.ready = true → e.line = [] ∧
    ∃ l, Behind delivered e got l ∧ Committed b.buffer l

theorem Starts.append {buffer : Nat → Byte} {l : List Byte}
    (h : Starts buffer l) (sch : Byte) :
    Starts (Function.update buffer l.length sch) (l ++ [sch]) := by
  intro i hi
  rw [List.length_append, List.length_singleton] at hi
  by_cases hlast : i = l.length
  · subst hlast
    rw [Function.update_self, List.getElem_concat_length rfl]
  · have hlt : i < l.length := by omega
    rw [Function.update_of_ne hlast, List.getElem_append_left hlt]
    exact h i hlt

theorem Starts.dropLast {buffer : Nat → Byte} {l : List Byte}
    (h : Starts buffer l) : Starts buffer l.dropLast := by
  intro i hi
  have hlt : i < l.length := by
    rw [List.length_dropLast] at hi
    omega
  rw [List.getElem_dropLast]
  exact h i hlt

namespace Matches

variable {b : LineBuffer} {e : Editor Byte} {got : List (List Byte)}

theorem char (h : Matches b e got) {sch : Byte} (hsch : sch ≠ ENTER_ASCII)
    (hready : b.ready = false) (hroom : e.line.length < FULL_BUFFER) :
    Matches (b.append sch) (e.press (.char sch)) got where
  size := by
    show b.size + 1 = (e.line ++ [sch]).length
    rw [h.size, List.length_append, List.length_singleton]
  short := by
    show (e.line ++ [sch]).length ≤ FULL_BUFFER
    rw [List.length_append, List.length_singleton]
    exact hroom
  plain := by
    show ENTER_ASCII ∉ e.line ++ [sch]
    rw [List.mem_append, List.mem_singleton]
    rintro (hmem | heq)
    · exact h.plain hmem
    · exact hsch heq.symm
  typing _ := by
    obtain ⟨hcaught, hstarts⟩ := h.typing hready
    refine ⟨hcaught, ?_⟩
    show Starts (Function.update b.buffer b.size sch) (e.line ++ [sch])
    rw [h.size]
    exact hstarts.append sch
  waiting hwait := absurd (hwait.symm.trans hready) (by decide)

theorem backspace (h : Matches b e got) :
    Matches b.shorten (e.press .backspace) got where
  size := by
    show b.size - 1 = e.line.dropLast.length
    rw [h.size, List.length_dropLast]
  short := by
    show e.line.dropLast.length ≤ FULL_BUFFER
    rw [List.length_dropLast]
    exact Nat.le_trans (Nat.sub_le _ _) h.short
  plain hmem := h.plain (List.dropLast_subset _ hmem)
  typing hready := ⟨(h.typing hready).1, (h.typing hready).2.dropLast⟩
  waiting hready := by
    obtain ⟨hempty, hbehind⟩ := h.waiting hready
    refine ⟨?_, hbehind⟩
    show e.line.dropLast = []
    rw [hempty]
    rfl

theorem enter (h : Matches b e got) (hready : b.ready = false) :
    Matches (b.append ENTER_ASCII).commit (e.press .enter) got where
  size := rfl
  short := Nat.zero_le _
  plain := List.not_mem_nil
  typing hno := nomatch hno
  waiting _ := by
    obtain ⟨hcaught, hstarts⟩ := h.typing hready
    refine ⟨rfl, e.line, hcaught.enter, ?_⟩
    show Committed (Function.update b.buffer b.size ENTER_ASCII) e.line
    rw [h.size]
    refine
      { starts := ?starts, ended := Function.update_self .., short := h.short
        plain := h.plain }
    intro i hi
    rw [Function.update_of_ne (Nat.ne_of_lt hi)]
    exact hstarts i hi

theorem wipe (h : Matches b e got) :
    Matches { b with size := 0 } (e.press .wipe) got where
  size := rfl
  short := Nat.zero_le _
  plain := List.not_mem_nil
  typing hready :=
    ⟨(h.typing hready).1, fun _ hi => absurd hi (Nat.not_lt_zero _)⟩
  waiting hready := ⟨rfl, (h.waiting hready).2⟩

/-- The reader takes the line. -/
theorem read (h : Matches b e got) (hready : b.ready = true) :
    ∃ l, Committed b.buffer l ∧
      Matches { b with ready := false } e (got ++ [delivered l]) := by
  obtain ⟨hempty, l, hbehind, hcommitted⟩ := h.waiting hready
  refine ⟨l, hcommitted,
    { size := h.size, short := h.short, plain := h.plain
      typing := fun _ => ⟨hbehind.deliver, ?_⟩, waiting := fun hno => nomatch hno }⟩
  rw [hempty]
  exact fun _ hi => absurd hi (Nat.not_lt_zero _)

/-- Nothing has been read that was not typed. -/
theorem inStep (h : Matches b e got) : InStep delivered e got := by
  cases hready : b.ready with
  | false => exact (h.typing hready).1.inStep
  | true =>
      obtain ⟨-, l, hbehind, -⟩ := h.waiting hready
      exact hbehind.inStep

/-- A key of the table. -/
theorem press (h : Matches b e got) {k : Key Byte}
    (hsized : ∀ sch, k = .char sch → e.line.length < FULL_BUFFER)
    (hplain : k ≠ .char ENTER_ASCII) (hheld : HeldBack b k) :
    Matches (lineAfter b k) (e.press k) got := by
  cases k with
  | char sch =>
      have hroom := hsized sch rfl
      have hnot : ¬b.size = FULL_BUFFER := by
        rw [h.size]
        omega
      rw [lineAfter, if_neg hnot]
      exact h.char (fun heq => hplain (congrArg _ heq)) hheld hroom
  | backspace => exact h.backspace
  | enter => exact h.enter hheld
  | wipe => exact h.wipe
  | silent =>
      have hfull : b.size = FULL_BUFFER := hheld
      rw [lineAfter, if_pos hfull]
      exact h

end Matches

/-! ## The copy loop -/

/-- Byte `j` of a committed line as a read delivers it, zeros behind it. -/
def deliveredAt (l : List Byte) (j : Nat) : Byte := (delivered l).getD j 0

theorem deliveredAt_line (l : List Byte) {j : Nat} (h : j < l.length) :
    deliveredAt l j = l[j] := by
  unfold deliveredAt delivered
  rw [List.getD_eq_getElem?_getD, List.getElem?_append_left h,
    List.getElem?_eq_getElem h, Option.getD_some]

theorem deliveredAt_end (l : List Byte) : deliveredAt l l.length = 10 := by
  unfold deliveredAt delivered
  rw [List.getD_eq_getElem?_getD, List.getElem?_concat_length, Option.getD_some]

theorem deliveredAt_tail (l : List Byte) {j : Nat} (h : l.length < j) :
    deliveredAt l j = 0 := by
  unfold deliveredAt delivered
  have hlen : (l ++ [(10 : Byte)]).length ≤ j := by
    rw [List.length_append, List.length_singleton]
    exact h
  rw [List.getD_eq_getElem?_getD, List.getElem?_eq_none hlen, Option.getD_none]

/-- From index `i` on, the loop delivers the rest of a committed line to the
buffer, up to its size `m`. -/
theorem copyLine_committed {buffer : Nat → Byte} {l : List Byte} {m : Nat}
    (h : Committed buffer l) (hm : m ≤ MAX_BUFFER_SIZE) (n : Nat) :
    ∀ i buf, i + n = m → i ≤ l.length →
      (copyLine buffer m n i buf).1 = min m (l.length + 1) ∧
        ∀ j, (copyLine buffer m n i buf).2 j =
          if i ≤ j ∧ j < m then deliveredAt l j else buf j := by
  induction n with
  | zero =>
      intro i buf hi hil
      rw [copyLine]
      refine ⟨by omega, fun j => ?_⟩
      rw [if_neg (by omega)]
  | succ n ih =>
      intro i buf hi hil
      have hlt : ¬i ≥ MAX_BUFFER_SIZE := by omega
      rw [copyLine, if_neg hlt]
      by_cases hend : i = l.length
      · -- the carriage return becomes a newline
        subst hend
        rw [if_pos h.ended]
        refine ⟨by dsimp only; omega, fun j => ?_⟩
        dsimp only
        by_cases hj : j = l.length
        · subst hj
          rw [if_pos rfl, if_pos (by omega), deliveredAt_end]
        · rw [if_neg hj]
          by_cases htail : l.length + 1 ≤ j ∧ j < m
          · rw [if_pos htail, if_pos (by omega), deliveredAt_tail l htail.1]
          · rw [if_neg htail, if_neg (by omega)]
      · have hil' : i < l.length := by omega
        have hchar : ¬buffer i = ENTER_ASCII := by
          rw [h.starts i hil']
          intro heq
          exact h.plain (heq ▸ List.getElem_mem hil')
        rw [if_neg hchar]
        obtain ⟨hcount, hbytes⟩ := ih (i + 1)
          (Function.update buf i (buffer i)) (by omega) hil'
        refine ⟨hcount, fun j => ?_⟩
        rw [hbytes j]
        by_cases hj : j = i
        · subst hj
          rw [if_neg (by omega), if_pos (by omega), Function.update_self,
            h.starts j hil', deliveredAt_line l hil']
        · rw [Function.update_of_ne hj]
          by_cases hrest : i + 1 ≤ j ∧ j < m
          · rw [if_pos hrest, if_pos (by omega)]
          · rw [if_neg hrest, if_neg (by omega)]

/-- A read of at least 128 bytes returns a committed line as a whole. -/
theorem readTerminal_committed {c : Console} {buf : Nat → Byte} {nbytes : Int}
    {r : Console × Int × (Nat → Byte)} {l : List Byte}
    (h : readTerminal c buf nbytes = some r)
    (hsize : (MAX_BUFFER_SIZE : Int) ≤ nbytes)
    (hline : Committed (lineOf c c.currentTid).buffer l) : returned r = delivered l := by
  unfold readTerminal at h
  dsimp only at h
  rw [Nat.min_eq_right (by omega)] at h
  split at h
  · cases h
    have hshort := hline.short
    have hcopy := copyLine_committed hline (Nat.le_refl _) MAX_BUFFER_SIZE 0 buf
      (Nat.zero_add _) (Nat.zero_le _)
    have hall : min MAX_BUFFER_SIZE (l.length + 1) = l.length + 1 := by
      unfold MAX_BUFFER_SIZE
      unfold FULL_BUFFER at hshort
      omega
    unfold returned
    dsimp only
    rw [show (c.multiTerminal c.currentTid).keyboardBuffer =
      (lineOf c c.currentTid).buffer from rfl]
    generalize copyLine (lineOf c c.currentTid).buffer MAX_BUFFER_SIZE
      MAX_BUFFER_SIZE 0 buf = q at hcopy ⊢
    rw [hcopy.1, hall, Int.toNat_natCast]
    refine List.ext_getElem (by simp [delivered]) fun j hj hj' => ?_
    have hlt : j < MAX_BUFFER_SIZE := by
      rw [List.length_map, List.length_range] at hj
      omega
    rw [List.getElem_map, List.getElem_range, hcopy.2 j,
      if_pos ⟨Nat.zero_le _, hlt⟩, deliveredAt, List.getD_eq_getElem?_getD,
      List.getElem?_eq_getElem hj', Option.getD_some]
  · cases h

/-- A read that completes found the ready flag set, and clears it. -/
theorem readTerminal_ready {c : Console} {buf : Nat → Byte} {nbytes : Int}
    {r : Console × Int × (Nat → Byte)} (h : readTerminal c buf nbytes = some r) :
    (lineOf c c.currentTid).ready = true ∧
      r.1 = c.modify c.currentTid fun t => { t with terminalEnable := false } := by
  unfold readTerminal at h
  dsimp only at h
  split at h
  · rename_i hready
    cases h
    exact ⟨hready, rfl⟩
  · cases h

/-! ## Runs -/

/-- Every terminal's buffer agrees with its editor and its reader. -/
def Agrees (D : Desk) : Prop :=
  ∀ t, Matches (lineOf D.con t) (D.editor t) (D.results t)

theorem agrees_boot (mem : Int → Byte) : Agrees (.boot mem) := by
  intro t
  have hline : lineOf (initTerminal mem) t = lineOf (unclearedConsole mem) t :=
    lineOf_of_input (input_clear _) t
  show Matches (lineOf (initTerminal mem) t) .empty []
  rw [hline]
  exact
    { size := rfl, short := Nat.zero_le _, plain := List.not_mem_nil
      typing := fun _ => ⟨rfl, fun _ hi => absurd hi (Nat.not_lt_zero _)⟩
      waiting := fun hno => nomatch hno }

/-- One step keeps all buffers in agreement. -/
theorem agrees_step {D D' : Desk} {e : InputEvent} (h : Agrees D)
    (hsized : Sized D e) (hahead : NotAhead D e) (hstep : InputStep D e D') :
    Agrees D' := by
  unfold InputStep at hstep
  cases e with
  | key ch =>
      cases hstep
      intro t
      dsimp only
      cases hkey : keyAt D.con ch with
      | none =>
          rw [(keyboardIrq_none hkey).1 t]
          exact h t
      | some k =>
          have hedit := keyboardIrq_some hkey
          dsimp only
          by_cases ht : t = D.con.displayTerminal
          · subst ht
            rw [Function.update_self, hedit.line]
            refine (h D.con.displayTerminal).press ?_ (keyAt_ne_enter hkey)
              (hahead k hkey)
            rintro sch rfl
            exact hsized sch hkey
          · rw [Function.update_of_ne ht, hedit.others t ht]
            exact h t
  | terminal t =>
      cases hstep
      intro u
      show Matches (lineOf (terminalSwitch D.con t) u) _ _
      rw [lineOf_terminalSwitch]
      exact h u
  | switch t =>
      cases hstep
      exact h
  | write ch =>
      cases hstep
      intro u
      show Matches (lineOf (putc D.con ch) u) _ _
      rw [lineOf_of_input (input_putc D.con ch) u]
      exact h u
  | read buf nbytes =>
      unfold inputStep at hstep
      obtain ⟨r, hread, rfl⟩ := Option.map_eq_some_iff.1 hstep
      obtain ⟨hready, hcon⟩ := readTerminal_ready hread
      obtain ⟨l, hcommitted, hmatches⟩ := (h D.con.currentTid).read hready
      have hreturned := readTerminal_committed hread hsized hcommitted
      intro t
      show Matches (lineOf r.1 t) (D.editor t)
        (Function.update D.results D.con.currentTid _ t)
      rw [hreturned, hcon]
      by_cases ht : t = D.con.currentTid
      · subst ht
        rw [Function.update_self, lineOf_modify]
        exact hmatches
      · rw [Function.update_of_ne ht, lineOf_modify_ne _ _ ht]
        exact h t

/-- In every run in which no key is typed ahead of the reader, the reads that
complete on a terminal return the lines that were ended on it, one by one. -/
theorem lines_reach_readers {mem : Int → Byte} {es : List InputEvent} {D : Desk}
    (h : Run (Guarded (fun D e => Sized D e ∧ NotAhead D e) InputStep)
      (.boot mem) es D) (t : Tid) :
    InStep delivered (D.editor t) (D.results t) := by
  have hagrees : Agrees D :=
    h.invariant Agrees (agrees_boot mem) fun _ _ _ hD hstep =>
      agrees_step hD hstep.1.1 hstep.1.2 hstep.2
  exact (hagrees t).inStep

/-! ## Typing ahead -/

/-- Terminal 0 runs and is displayed, no modifier is held, and these are its
buffer, its editor and the results of its reads. -/
structure AtTerminal0 (D : Desk) (b : LineBuffer) (e : Editor Byte)
    (got : List (List Byte)) : Prop where
  keys : D.con.keys =
    { capsLock := 0, lrShift := 0, lCtrl := 0, lAlt := 0, capsOn := 0 }
  display : D.con.displayTerminal = 0
  cur : D.con.currentTid = 0
  line : lineOf D.con 0 = b
  editor : D.editor 0 = e
  results : D.results 0 = got

/-- The scancode `ch` stands for the key `k` when no modifier is held. -/
def Stands (ch : Byte) (k : Key Byte) : Prop :=
  ∀ c : Console, c.keys =
      { capsLock := 0, lrShift := 0, lCtrl := 0, lAlt := 0, capsOn := 0 } →
    keyAt c ch = some k

/-- What a read of 128 bytes returns from a buffer. -/
def readBack (buffer : Nat → Byte) : List Byte :=
  let r := copyLine buffer MAX_BUFFER_SIZE MAX_BUFFER_SIZE 0 fun _ => 0
  (List.range r.1).map r.2

def emptyBuffer : LineBuffer := { buffer := fun _ => 0, size := 0, ready := false }

namespace AtTerminal0

variable {D : Desk} {b : LineBuffer} {e : Editor Byte} {got : List (List Byte)}

theorem of_input {c : Console} {mem : Int → Byte}
    (h : input c = input (unclearedConsole mem)) :
    AtTerminal0 { con := c, editor := fun _ => .empty, results := fun _ => [] }
      emptyBuffer .empty [] where
  keys := congrArg Input.keys h
  display := congrArg Input.display h
  cur := congrArg Input.cur h
  line := lineOf_of_input h 0
  editor := rfl
  results := rfl

theorem boot (mem : Int → Byte) :
    AtTerminal0 (.boot mem) emptyBuffer .empty [] :=
  of_input (input_clear (unclearedConsole mem))

theorem key (h : AtTerminal0 D b e got) {ch : Byte} {k : Key Byte}
    (hch : Stands ch k) :
    ∃ D', inputStep D (.key ch) = some D' ∧
      AtTerminal0 D' (lineAfter b k) (e.press k) got := by
  have hkey := hch D.con h.keys
  have hedit := keyboardIrq_some hkey
  rw [h.display, h.line] at hedit
  refine ⟨_, rfl, ?_⟩
  rw [hkey]
  refine
    { keys := hedit.keys.trans h.keys, display := hedit.display.trans h.display
      cur := hedit.cur.trans h.cur, line := ?line, editor := ?editor
      results := h.results }
  case line =>
    have hline := hedit.line
    rw [h.display] at hline
    exact hline
  case editor =>
    dsimp only
    rw [h.display, Function.update_self, h.editor]

theorem read (h : AtTerminal0 D b e got) (hready : b.ready = true) :
    ∃ D', inputStep D (.read (fun _ => 0) MAX_BUFFER_SIZE) = some D' ∧
      AtTerminal0 D' { b with ready := false } e (got ++ [readBack b.buffer]) := by
  have henable : (D.con.multiTerminal D.con.currentTid).terminalEnable = true := by
    rw [h.cur]
    exact (congrArg LineBuffer.ready h.line).trans hready
  have hbuffer : (D.con.multiTerminal D.con.currentTid).keyboardBuffer =
      b.buffer := by
    rw [h.cur]
    exact congrArg LineBuffer.buffer h.line
  have hmin : min (MAX_BUFFER_SIZE : Int).toNat MAX_BUFFER_SIZE =
      MAX_BUFFER_SIZE := rfl
  unfold inputStep readTerminal
  dsimp only
  rw [hmin, if_pos henable, hbuffer]
  refine ⟨_, rfl, ?_⟩
  refine
    { keys := h.keys, display := h.display, cur := h.cur, line := ?line
      editor := h.editor, results := ?results }
  case line =>
    dsimp only
    rw [h.cur, lineOf_modify]
    show { lineOf D.con 0 with ready := false } = _
    rw [h.line]
  case results =>
    dsimp only
    rw [h.cur, Function.update_self, h.results]
    rfl

theorem notAhead (h : AtTerminal0 D b e got) {ch : Byte} {k : Key Byte}
    (hch : Stands ch k) (hheld : HeldBack b k) : NotAhead D (.key ch) := by
  intro k' hk'
  rw [hch D.con h.keys] at hk'
  cases hk'
  rw [h.display, h.line]
  exact hheld

theorem sized (h : AtTerminal0 D b e got) (ch : Byte)
    (hshort : e.line.length < FULL_BUFFER) : Sized D (.key ch) := by
  intro sch _
  rw [h.display, h.editor]
  exact hshort

end AtTerminal0

theorem stands_a : Stands 0x1E (.char 97) := by
  intro c h
  unfold keyAt
  rw [h]
  rfl

theorem stands_b : Stands 0x30 (.char 98) := by
  intro c h
  unfold keyAt
  rw [h]
  rfl

theorem stands_enter : Stands 0x1C .enter := by
  intro c h
  unfold keyAt
  rw [h]
  rfl

/-- `a`, Enter and a read, in this order. -/
theorem line_reaches_reader :
    ∃ D : Desk, InStep delivered (D.editor 0) (D.results 0) ∧
      D.results 0 = [[97, 10]] := by
  have h0 := AtTerminal0.boot fun _ => 0
  obtain ⟨D₁, hstep₁, h1⟩ := h0.key stands_a
  obtain ⟨D₂, hstep₂, h2⟩ := h1.key stands_enter
  obtain ⟨D₃, hstep₃, h3⟩ := h2.read rfl
  refine ⟨D₃, ?_, ?_⟩
  · have hrun₁ : Run (Guarded (fun D e => Sized D e ∧ NotAhead D e) InputStep)
        (.boot fun _ => 0) [.key 0x1E] D₁ :=
      .single ⟨⟨h0.sized _ (by decide), h0.notAhead stands_a rfl⟩, hstep₁⟩
    have hrun₂ := hrun₁.snoc
      ⟨⟨h1.sized _ (by decide), h1.notAhead stands_enter rfl⟩, hstep₂⟩
    have hquiet : NotAhead D₂ (.read (fun _ => 0) MAX_BUFFER_SIZE) := trivial
    have hrun₃ := hrun₂.snoc ⟨⟨Int.le_refl _, hquiet⟩, hstep₃⟩
    exact lines_reach_readers hrun₃ 0
  · rw [h3.results]
    rfl

/-- `a`, Enter, `b`, and only then a read: it returns `b`. -/
theorem typing_ahead_alters_line :
    ∃ D, Run (Guarded Sized InputStep) (.boot fun _ => 0)
        [.key 0x1E, .key 0x1C, .key 0x30, .read (fun _ => 0) MAX_BUFFER_SIZE] D ∧
      (D.editor 0).lines = [[97]] ∧ D.results 0 = [[98, 10]] ∧
      ¬InStep delivered (D.editor 0) (D.results 0) := by
  have h0 := AtTerminal0.boot fun _ => 0
  obtain ⟨D₁, hstep₁, h1⟩ := h0.key stands_a
  obtain ⟨D₂, hstep₂, h2⟩ := h1.key stands_enter
  obtain ⟨D₃, hstep₃, h3⟩ := h2.key stands_b
  obtain ⟨D₄, hstep₄, h4⟩ := h3.read rfl
  have hlines : (D₄.editor 0).lines = [[97]] := congrArg Editor.lines h4.editor
  have hread : D₄.results 0 = [[98, 10]] := by
    rw [h4.results]
    rfl
  refine ⟨D₄, ?_, hlines, hread, ?_⟩
  · have hrun₁ : Run (Guarded Sized InputStep) (.boot fun _ => 0) [.key 0x1E] D₁ :=
      .single ⟨h0.sized _ (by decide), hstep₁⟩
    have hrun₂ := hrun₁.snoc ⟨h1.sized _ (by decide), hstep₂⟩
    have hrun₃ := hrun₂.snoc ⟨h2.sized _ (by decide), hstep₃⟩
    exact hrun₃.snoc ⟨Int.le_refl _, hstep₄⟩
  · unfold InStep
    rw [hread, hlines]
    decide

end MongOS.Proofs.LineDiscipline
