import Mathlib.Data.List.GetD
import MongOS.Proofs.KeyBounds
import MongOS.Proofs.ModifierKeys

/-!
# The line buffer is what the keys say

Each terminal is given a line editor with room for 127 characters, to which go
the keys typed while the terminal is displayed.  What a scancode means to an
editor is read off the keys that are held and `scancode_table`, not off the
flags of `keyboard_irq`.  The buffer of a terminal holds the line of its editor
as long as the flags match the keys, except that `keyboard_irq` has no test for
the empty entries of the table: such a key stores a NUL.

* `meant`, `keyOf_meant` — what a scancode means, and that `keyboard_irq` takes
  it so while the flags match.
* `heldLine` — the line in a buffer.
* `lines_follow_keys` — while the flags match the keys, the buffers hold the
  editors' lines in exactly those runs in which no key without a character is
  typed while there is room.
* `lines_differ_from_keys` — NumLock at an empty prompt, and letters under flags
  that do not match.
-/

namespace MongOS.Proofs.KeyLines

open MongOS.Model
open MongOS.Verified
open MongOS.Verified.LineEditor
open MongOS.Proofs.ScreenFrame
open MongOS.Proofs.LineDiscipline
open MongOS.Proofs.KeyBounds
open MongOS.Proofs.ModifierKeys

/-! ## What a scancode means -/

/-- One of the shift keys is held. -/
def shiftHeld (h : Held) : Bool := h.leftShift || h.rightShift

/-- Caps-lock is on: its key has gone down an odd number of times. -/
def capsLocked (h : Held) : Bool := h.capsPresses % 2 == 1

/-- The character of a row of the table while these keys are held: caps-lock
concerns the letters only. -/
def meantChar (h : Held) (row : Byte × Byte) : Byte :=
  if 97 ≤ row.1 ∧ row.1 ≤ 122 then
    if shiftHeld h != capsLocked h then row.2 else row.1
  else if shiftHeld h then row.2
  else row.1

/-- What a scancode means to an editor: Ctrl with `l` wipes the line, and a code
without a character means nothing. -/
def meant (h : Held) (ch : Byte) : Key Byte :=
  let row := scancodeTable.getD ch.toNat (0, 0)
  let sch := meantChar h row
  if h.ctrl = true ∧ row.1 = 108 then .wipe
  else if sch = BACKSPACE then .backspace
  else if sch = ENTER_ASCII then .enter
  else if sch = 0 then .silent
  else .char sch

section Meant

variable {keys : Modifiers} {h : Held}

/-- The flags of matching keys. -/
theorem lrShift_eq (hmatch : Match keys h) (hbinary : Binary keys) :
    keys.lrShift = if shiftHeld h then 1 else 0 := by
  have hshift : keys.lrShift = 1 ↔ shiftHeld h = true := by
    rw [hmatch.shift, shiftHeld, Bool.or_eq_true]
  split
  · exact hshift.2 ‹_›
  · exact hbinary.shift.resolve_right fun hone => ‹¬ _› (hshift.1 hone)

theorem capsLock_eq (hmatch : Match keys h) :
    keys.capsLock = if capsLocked h then 1 else 0 := by
  rw [hmatch.caps, capsLocked]
  rcases Nat.mod_two_eq_zero_or_one h.capsPresses with heven | hodd
  · rw [heven]
    rfl
  · rw [hodd]
    rfl

theorem ctrl_iff (hmatch : Match keys h) (hbinary : Binary keys) :
    keys.lCtrl ≠ 0 ↔ h.ctrl = true := by
  rw [← hmatch.ctrl]
  rcases hbinary.ctrl with hzero | hone <;> omega

theorem selectChar_meant (hmatch : Match keys h) (hbinary : Binary keys)
    (row : Byte × Byte) : selectChar keys row = meantChar h row := by
  unfold selectChar meantChar
  rw [lrShift_eq hmatch hbinary, capsLock_eq hmatch]
  cases shiftHeld h <;> cases capsLocked h <;> rfl

/-- While the flags match the keys, `keyboard_irq` takes a key of the table as it
is meant. -/
theorem keyOf_meant (hmatch : Match keys h) (hbinary : Binary keys) (ch : Byte) :
    keyOf keys ch = meant h ch := by
  unfold keyOf meant
  dsimp only
  rw [selectChar_meant hmatch hbinary]
  simp only [ctrl_iff hmatch hbinary]

theorem keyAt_meant {c : Console} {ch : Byte} {k : Key Byte}
    (hmatch : Match c.keys h) (hbinary : Binary c.keys)
    (hkey : keyAt c ch = some k) : meant h ch = k := by
  rw [← keyOf_meant hmatch hbinary]
  exact (keyAt_some hkey).2.2

/-- The rows of the codes that `get_command_char` takes are empty. -/
theorem getCommandChar_row {c d : Console} {ch : Byte}
    (hcommand : getCommandChar c ch = some d) :
    scancodeTable.getD ch.toNat (0, 0) = (0, 0) := by
  unfold getCommandChar at hcommand
  dsimp only at hcommand
  split at hcommand
  case h_15 => cases hcommand
  all_goals rename_i hcode; rw [hcode]; rfl

/-- Every other code means nothing. -/
theorem meant_off {c : Console} {ch : Byte} (hkey : keyAt c ch = none)
    (h : Held) : meant h ch = .silent := by
  have hrow : scancodeTable.getD ch.toNat (0, 0) = (0, 0) := by
    cases hcommand : getCommandChar c ch with
    | some d => exact getCommandChar_row hcommand
    | none =>
        have hcode : ¬ ch.toNat < CHARACTER_MAX := fun hlt =>
          keyAt_none hkey ⟨hcommand, hlt⟩
        exact List.getD_eq_default _ _ (Nat.not_lt.1 hcode)
  unfold meant
  rw [hrow]
  unfold meantChar
  simp [BACKSPACE, ENTER_ASCII]

end Meant

/-! ## The line in a buffer -/

/-- `keyboard_buffer[0 .. buffer_size)`. -/
def heldLine (b : LineBuffer) : List Byte := (List.range b.size).map b.buffer

theorem heldLine_length (b : LineBuffer) : (heldLine b).length = b.size := by
  rw [heldLine, List.length_map, List.length_range]

theorem heldLine_append (b : LineBuffer) (sch : Byte) :
    heldLine (b.append sch) = heldLine b ++ [sch] := by
  have hbefore : (List.range b.size).map (Function.update b.buffer b.size sch) =
      heldLine b := by
    refine List.map_congr_left fun i hi => ?_
    have hne : i ≠ b.size := Nat.ne_of_lt (List.mem_range.1 hi)
    rw [Function.update_of_ne hne]
  show (List.range (b.size + 1)).map (Function.update b.buffer b.size sch) = _
  rw [List.range_succ, List.map_append, hbefore, List.map_singleton,
    Function.update_self]

theorem heldLine_shorten (b : LineBuffer) :
    heldLine b.shorten = (heldLine b).dropLast := by
  obtain ⟨buffer, size, ready⟩ := b
  cases size with
  | zero => rfl
  | succ n =>
      show (List.range n).map buffer = ((List.range (n + 1)).map buffer).dropLast
      rw [List.range_succ, List.map_append, List.map_singleton,
        List.dropLast_concat]

/-- The key `k` does not store a NUL. -/
def Harmless (b : LineBuffer) : Key Byte → Prop
  | .silent => b.size = FULL_BUFFER
  | _ => True

/-- A key of the table does to the line what it does in an editor with room for
127 characters. -/
theorem heldLine_lineAfter {b : LineBuffer} {e : Editor Byte} {k : Key Byte}
    (hshort : b.size ≤ FULL_BUFFER) (hline : heldLine b = e.line)
    (hk : Harmless b k) :
    heldLine (lineAfter b k) = (e.pressWithin FULL_BUFFER k).line := by
  have hlen : e.line.length = b.size := by
    rw [← hline, heldLine_length]
  cases k with
  | char sch =>
      unfold lineAfter Editor.pressWithin
      dsimp only
      rw [hlen]
      by_cases hfull : b.size = FULL_BUFFER
      · rw [if_pos hfull, if_neg (by omega), hline]
      · rw [if_neg hfull, if_pos (by omega), heldLine_append, hline]
        rfl
  | backspace =>
      show heldLine b.shorten = e.line.dropLast
      rw [heldLine_shorten, hline]
  | enter => rfl
  | wipe => rfl
  | silent =>
      have hfull : b.size = FULL_BUFFER := hk
      unfold lineAfter
      dsimp only
      rw [if_pos hfull, hline]
      rfl

/-- A character is no NUL. -/
theorem keyAt_ne_nul {c : Console} {ch : Byte} {k : Key Byte}
    (h : keyAt c ch = some k) : k ≠ .char 0 := by
  rintro rfl
  unfold keyAt keyOf at h
  grind

/-- Typing brings a NUL into a line only as a character. -/
theorem nul_pressWithin {e : Editor Byte} {k : Key Byte} (hk : k ≠ .char 0)
    (h : 0 ∉ e.line) : 0 ∉ (e.pressWithin FULL_BUFFER k).line := by
  cases k with
  | char sch =>
      unfold Editor.pressWithin
      dsimp only
      split
      · show 0 ∉ e.line ++ [sch]
        rw [List.mem_append, List.mem_singleton]
        rintro (hmem | heq)
        · exact h hmem
        · exact hk (congrArg _ heq.symm)
      · exact h
  | backspace => exact fun hmem => h (List.dropLast_subset _ hmem)
  | enter => exact List.not_mem_nil
  | wipe => exact List.not_mem_nil
  | silent => exact h

/-! ## Terminals and their editors -/

/-- The console, the keys that are held, and an editor for each terminal. -/
structure Typing where
  con : Console
  held : Held
  editor : Tid → Editor Byte

/-- The keys after an event. -/
def heldAfter (h : Held) : InputEvent → Held
  | .key ch => h.after ch
  | _ => h

/-- A scancode goes to the editor of the displayed terminal. -/
def editorsAfter (T : Typing) : InputEvent → Tid → Editor Byte
  | .key ch =>
      Function.update T.editor T.con.displayTerminal
        ((T.editor T.con.displayTerminal).pressWithin FULL_BUFFER
          (meant T.held ch))
  | _ => T.editor

def typingStep (T : Typing) (e : InputEvent) : Option Typing :=
  (consoleStep T.con e).map fun c =>
    { con := c, held := heldAfter T.held e, editor := editorsAfter T e }

def TypingStep (T : Typing) (e : InputEvent) (T' : Typing) : Prop :=
  typingStep T e = some T'

def Typing.boot (mem : Int → Byte) : Typing :=
  { con := initTerminal mem, held := .none, editor := fun _ => .empty }

/-- Every buffer holds the line of its editor, and no NUL. -/
def LinesKept (T : Typing) : Prop :=
  ∀ t, heldLine (lineOf T.con t) = (T.editor t).line ∧
    0 ∉ heldLine (lineOf T.con t)

/-- No shift key is released while the other is held, and caps-lock does not
repeat its press code. -/
def DistinctKeys (T : Typing) : InputEvent → Prop
  | .key ch => Distinct T.held ch
  | _ => True

/-- No key without a character is typed while there is room for one. -/
def NoEmptyKey (T : Typing) : InputEvent → Prop
  | .key ch => keyAt T.con ch = some .silent →
      (lineOf T.con T.con.displayTerminal).size = FULL_BUFFER
  | _ => True

theorem heldLine_congr {b b' : LineBuffer} (hbuffer : b'.buffer = b.buffer)
    (hsize : b'.size = b.size) : heldLine b' = heldLine b := by
  rw [heldLine, heldLine, hbuffer, hsize]

theorem typingStep_parts {T T' : Typing} {e : InputEvent}
    (h : TypingStep T e T') :
    ConsoleStep T.con e T'.con ∧ T'.held = heldAfter T.held e ∧
      T'.editor = editorsAfter T e := by
  obtain ⟨c, hc, rfl⟩ := Option.map_eq_some_iff.1 h
  exact ⟨hc, rfl, rfl⟩

/-- A code that means nothing leaves the editors alone. -/
theorem editorsAfter_silent {T : Typing} {ch : Byte}
    (h : meant T.held ch = .silent) : editorsAfter T (.key ch) = T.editor := by
  rw [editorsAfter, h]
  exact Function.update_eq_self _ _

/-- The condition on the key that `NoEmptyKey` puts. -/
theorem NoEmptyKey.harmless {T : Typing} {ch : Byte} {k : Key Byte}
    (h : NoEmptyKey T (.key ch)) (hkey : keyAt T.con ch = some k) :
    Harmless (lineOf T.con T.con.displayTerminal) k := by
  cases k with
  | silent => exact h hkey
  | char | backspace | enter | wipe => exact trivial

/-- The flags match the keys that are held. -/
structure FlagsKept (T : Typing) : Prop where
  agree : Match T.con.keys T.held
  binary : Binary T.con.keys

/-- Only scancodes change the flags. -/
theorem ConsoleStep.keys_kept {c d : Console} {e : InputEvent}
    (h : ConsoleStep c e d) (he : ¬InputEvent.IsKey e) : d.keys = c.keys := by
  unfold ConsoleStep at h
  cases e with
  | key ch => exact absurd trivial he
  | terminal u =>
      cases h
      exact terminalSwitch_keys c u
  | switch u =>
      cases h
      rfl
  | write ch =>
      cases h
      exact congrArg Input.keys (input_putc c ch)
  | read buf nbytes =>
      unfold consoleStep at h
      obtain ⟨r, hread, rfl⟩ := Option.map_eq_some_iff.1 h
      rw [(readTerminal_ready hread).2]
      rfl

theorem flagsKept_step {T T' : Typing} {e : InputEvent} (h : FlagsKept T)
    (hstep : TypingStep T e T') (he : DistinctKeys T e) : FlagsKept T' := by
  obtain ⟨hcon, hheld, -⟩ := typingStep_parts hstep
  by_cases hkeyev : InputEvent.IsKey e
  · cases e with
    | key ch =>
        have hkeys : T'.con.keys = modifiersAfter T.con.keys ch := by
          rw [hcon.key]
          exact keyboardIrq_keys T.con ch
        refine { agree := ?_, binary := ?_ }
        · rw [hkeys, hheld]
          exact match_after h.agree he
        · rw [hkeys]
          exact binary_after h.binary ch
    | terminal | switch | write | read => exact absurd hkeyev id
  · have hkeys := ConsoleStep.keys_kept hcon hkeyev
    have hsame : T'.held = T.held := by
      rw [hheld]
      cases e with
      | key ch => exact absurd trivial hkeyev
      | terminal | switch | write | read => rfl
    refine { agree := ?_, binary := ?_ }
    · rw [hkeys, hsame]
      exact h.agree
    · rw [hkeys]
      exact h.binary

/-- One step keeps the lines, while the flags match. -/
theorem linesKept_step {T T' : Typing} {e : InputEvent} (hshort : Short T.con)
    (hflags : FlagsKept T) (hkept : LinesKept T) (hstep : TypingStep T e T')
    (he : NoEmptyKey T e) : LinesKept T' := by
  obtain ⟨hcon, -, heditor⟩ := typingStep_parts hstep
  intro t
  by_cases hkeyev : InputEvent.IsKey e
  · cases e with
    | key ch =>
        rw [hcon.key, heditor]
        cases hkey : keyAt T.con ch with
        | none =>
            rw [(keyboardIrq_none hkey).1,
              editorsAfter_silent (meant_off hkey T.held)]
            exact hkept t
        | some k =>
            have hedit := keyboardIrq_some hkey
            rw [editorsAfter, keyAt_meant hflags.agree hflags.binary hkey]
            by_cases ht : t = T.con.displayTerminal
            · subst ht
              obtain ⟨hline, hnul⟩ := hkept T.con.displayTerminal
              have hafter := heldLine_lineAfter (hshort T.con.displayTerminal)
                hline (he.harmless hkey)
              rw [Function.update_self, hedit.line, hafter]
              refine ⟨rfl, nul_pressWithin (keyAt_ne_nul hkey) ?_⟩
              rw [← hline]
              exact hnul
            · rw [Function.update_of_ne ht, hedit.others t ht]
              exact hkept t
    | terminal | switch | write | read => exact absurd hkeyev id
  · obtain ⟨hbuffer, hsize⟩ := hcon.line_kept hkeyev t
    have hsame : editorsAfter T e = T.editor := by
      cases e with
      | key ch => exact absurd trivial hkeyev
      | terminal | switch | write | read => rfl
    rw [heditor, hsame, heldLine_congr hbuffer hsize]
    exact hkept t

/-- A key without a character stores a NUL while there is room. -/
theorem emptyKey_stores_nul {T T' : Typing} {e : InputEvent}
    (hstep : TypingStep T e T') (he : ¬NoEmptyKey T e) : ¬LinesKept T' := by
  obtain ⟨hcon, -⟩ := typingStep_parts hstep
  cases e with
  | key ch =>
      unfold NoEmptyKey at he
      rw [Classical.not_imp] at he
      obtain ⟨hkey, hroom⟩ := he
      intro hkept
      have hnul := (hkept T.con.displayTerminal).2
      rw [hcon.key, (keyboardIrq_some hkey).line, lineAfter] at hnul
      rw [if_neg hroom, heldLine_append] at hnul
      exact hnul (List.mem_append_right _ (List.mem_singleton_self 0))
  | terminal | switch | write | read => exact absurd trivial he

theorem linesKept_boot (mem : Int → Byte) : LinesKept (.boot mem) := by
  intro t
  have hline : lineOf (initTerminal mem) t = lineOf (unclearedConsole mem) t :=
    lineOf_of_input (input_clear _) t
  show heldLine (lineOf (initTerminal mem) t) = [] ∧
    0 ∉ heldLine (lineOf (initTerminal mem) t)
  rw [hline]
  exact ⟨rfl, List.not_mem_nil⟩

theorem flagsKept_boot (mem : Int → Byte) : FlagsKept (.boot mem) :=
  { agree := match_boot (input_clear _), binary := binary_boot (input_clear _) }

/-- In the runs in which the flags match the keys, the buffers hold the lines of
the editors, and no NUL, in every state exactly if no key without a character is
typed while there is room. -/
theorem lines_follow_keys {mem : Int → Byte} {es : List InputEvent}
    {T : Typing} :
    Run (Within LinesKept (Guarded DistinctKeys TypingStep)) (.boot mem) es T ↔
      Run (Guarded NoEmptyKey (Guarded DistinctKeys TypingStep))
        (.boot mem) es T := by
  refine Run.within_iff_guarded
    (I := fun T => Short T.con ∧ FlagsKept T ∧ LinesKept T)
    ⟨short_boot mem, flagsKept_boot mem, linesKept_boot mem⟩ ?kept ?broken
  case kept =>
    rintro T e T' ⟨hshort, hflags, hlines⟩ ⟨hdistinct, hstep⟩ he
    have hkept := linesKept_step hshort hflags hlines hstep he
    exact ⟨⟨(typingStep_parts hstep).1.short hshort,
      flagsKept_step hflags hstep hdistinct, hkept⟩, hkept⟩
  case broken =>
    intro T e T' _ hstep he
    exact emptyKey_stores_nul hstep.2 he

/-! ## Three sequences -/

/-- Nothing has been typed on terminal 0, which is displayed. -/
structure Fresh (T : Typing) (keys : Modifiers) (held : Held) : Prop where
  display : T.con.displayTerminal = 0
  line : lineOf T.con 0 = emptyBuffer
  editor : T.editor = fun _ => .empty
  keys : T.con.keys = keys
  held : T.held = held

theorem Fresh.of_input {c : Console} {mem : Int → Byte}
    (h : input c = input (unclearedConsole mem)) :
    Fresh { con := c, held := .none, editor := fun _ => .empty }
      (unclearedConsole mem).keys .none :=
  { display := congrArg Input.display h, line := lineOf_of_input h 0
    editor := rfl, keys := boot_keys h, held := rfl }

/-- The code is that of a modifier: it sets flags and does nothing else. -/
def SetsFlags (ch : Byte) : Prop :=
  ∀ c, getCommandChar c ch = some { c with keys := modifiersAfter c.keys ch }

theorem Fresh.modifier {T : Typing} {keys : Modifiers} {held : Held}
    (h : Fresh T keys held) {ch : Byte} (hch : SetsFlags ch) :
    ∃ T', TypingStep T (.key ch) T' ∧
      Fresh T' (modifiersAfter keys ch) (held.after ch) := by
  have hoff : keyAt T.con ch = none := by
    rw [keyAt, hch]
    exact if_neg fun hkey => Option.some_ne_none _ hkey.1
  have hcon : keyboardIrq T.con ch =
      { T.con with keys := modifiersAfter T.con.keys ch } := by
    rw [keyboardIrq_off hoff, hch]
    rfl
  refine ⟨_, rfl, ?_⟩
  dsimp only
  rw [hcon, editorsAfter_silent (meant_off hoff T.held)]
  exact
    { display := h.display, line := h.line, editor := h.editor
      keys := congrArg (modifiersAfter · ch) h.keys
      held := congrArg (Held.after · ch) h.held }

/-- After codes of modifiers. -/
theorem fresh_run (mem : Int → Byte) {codes : List Byte}
    (hcodes : ∀ ch ∈ codes, SetsFlags ch) :
    ∃ T, Run TypingStep (.boot mem) (codes.map .key) T ∧
      Fresh T (codes.foldl modifiersAfter (unclearedConsole mem).keys)
        (codes.foldl Held.after .none) := by
  induction codes using List.reverseRecOn with
  | nil =>
      have hinput : input (initTerminal mem) = input (unclearedConsole mem) :=
        input_clear _
      exact ⟨.boot mem, .nil, .of_input hinput⟩
  | append_singleton codes ch ih =>
      obtain ⟨T, hrun, hfresh⟩ :=
        ih fun c hc => hcodes c (List.mem_append_left _ hc)
      obtain ⟨T', hstep, hfresh'⟩ :=
        hfresh.modifier (hcodes ch (List.mem_append_right _ (List.mem_singleton_self ch)))
      rw [List.map_append, List.foldl_append, List.foldl_append]
      exact ⟨T', hrun.snoc hstep, hfresh'⟩

/-- The first key that is no modifier: the editor takes it as it is meant, the
buffer as the flags say. -/
theorem Fresh.key {T : Typing} {keys : Modifiers} {held : Held}
    (h : Fresh T keys held) {ch : Byte} (hcommand : ∀ c, getCommandChar c ch = none)
    (hcode : ch.toNat < CHARACTER_MAX) :
    ∃ T', TypingStep T (.key ch) T' ∧
      (T'.editor 0).line =
        (Editor.empty.pressWithin FULL_BUFFER (meant held ch)).line ∧
      heldLine (lineOf T'.con 0) =
        heldLine (lineAfter emptyBuffer (keyOf keys ch)) := by
  have hkey : keyAt T.con ch = some (keyOf keys ch) := by
    rw [keyAt, if_pos ⟨hcommand T.con, hcode⟩, h.keys]
  have hedit := (keyboardIrq_some hkey).line
  rw [h.display, h.line] at hedit
  refine ⟨_, rfl, ?_, ?_⟩
  · dsimp only [editorsAfter]
    rw [h.display, h.editor, h.held, Function.update_self]
  · dsimp only
    rw [hedit]

/-- NumLock at an empty prompt puts a NUL into the line.  With the left shift key
held after the right one was released, and with caps-lock on after it repeated,
`A` is typed as `a`. -/
theorem lines_differ_from_keys :
    (∃ T, Run TypingStep (.boot fun _ => 0) [.key 0x45] T ∧
        (T.editor 0).line = [] ∧ heldLine (lineOf T.con 0) = [0] ∧
        ¬LinesKept T) ∧
      (∃ T, Run TypingStep (.boot fun _ => 0)
          ([0x2A, 0x36, 0xB6, 0x1E].map .key) T ∧
        (T.editor 0).line = [65] ∧ heldLine (lineOf T.con 0) = [97] ∧
        ¬LinesKept T) ∧
      ∃ T, Run TypingStep (.boot fun _ => 0)
          ([0x3A, 0x3A, 0xBA, 0x1E].map .key) T ∧
        (T.editor 0).line = [65] ∧ heldLine (lineOf T.con 0) = [97] ∧
        ¬LinesKept T := by
  -- some modifiers, and one more key that the editor and the buffer take apart
  have htyped : ∀ (codes : List Byte) (ch : Byte) (line line' : List Byte),
      (∀ c ∈ codes, SetsFlags c) → (∀ c, getCommandChar c ch = none) →
      ch.toNat < CHARACTER_MAX →
      (Editor.empty.pressWithin FULL_BUFFER
        (meant (codes.foldl Held.after .none) ch)).line = line →
      heldLine (lineAfter emptyBuffer (keyOf (codes.foldl modifiersAfter
        (unclearedConsole fun _ => 0).keys) ch)) = line' →
      line' ≠ line →
      ∃ T, Run TypingStep (.boot fun _ => 0) (codes.map .key ++ [.key ch]) T ∧
        (T.editor 0).line = line ∧ heldLine (lineOf T.con 0) = line' ∧
        ¬LinesKept T := by
    intro codes ch line line' hcodes hcommand hcode hmeant hstored hne
    obtain ⟨T, hrun, hfresh⟩ := fresh_run (fun _ => 0) hcodes
    obtain ⟨T', hstep, heditor, hheld⟩ := hfresh.key hcommand hcode
    rw [hmeant] at heditor
    rw [hstored] at hheld
    refine ⟨T', hrun.snoc hstep, heditor, hheld, fun hkept => hne ?_⟩
    rw [← hheld, (hkept 0).1, heditor]
  have hshifts : ∀ c ∈ ([0x2A, 0x36, 0xB6] : List Byte), SetsFlags c := by
    intro c hc
    simp only [List.mem_cons, List.not_mem_nil, or_false] at hc
    rcases hc with rfl | rfl | rfl <;> exact fun _ => rfl
  have hcaps : ∀ c ∈ ([0x3A, 0x3A, 0xBA] : List Byte), SetsFlags c := by
    intro c hc
    simp only [List.mem_cons, List.not_mem_nil, or_false] at hc
    rcases hc with rfl | rfl | rfl <;> exact fun _ => rfl
  refine ⟨?_, ?_, ?_⟩
  · exact htyped [] 0x45 [] [0] (fun _ h => absurd h List.not_mem_nil)
      (fun _ => rfl) (by decide) (by decide) (by decide) (by decide)
  · exact htyped [0x2A, 0x36, 0xB6] 0x1E [65] [97] hshifts (fun _ => rfl)
      (by decide) (by decide) (by decide) (by decide)
  · exact htyped [0x3A, 0x3A, 0xBA] 0x1E [65] [97] hcaps (fun _ => rfl)
      (by decide) (by decide) (by decide) (by decide)

end MongOS.Proofs.KeyLines
