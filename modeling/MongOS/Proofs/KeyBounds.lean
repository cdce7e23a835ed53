import MongOS.Proofs.LineDiscipline

/-!
# Keyboard input stays in its buffer

A keyboard buffer has 128 bytes, and `keyboard_irq` indexes it with the length
of the line.  Nothing checks the index: the branch for a full line is taken at
127 exactly, so the length must never get past 127.

* `keyStores` — the stores of a key, branch by branch.
* `input_contained` — in every run from boot the stores stay in the buffer of
  the displayed terminal, and Enter leaves a carriage return in it.
-/

namespace MongOS.Proofs.KeyBounds

open MongOS.Model
open MongOS.Verified
open MongOS.Verified.LineEditor
open MongOS.Proofs.ScreenFrame
open MongOS.Proofs.LineDiscipline

/-! ## The steps of a console -/

/-- A read that has to wait is no step. -/
def consoleStep (c : Console) : InputEvent → Option Console
  | .key ch => some (keyboardIrq c ch)
  | .terminal t => some (terminalSwitch c t)
  | .switch t => some (switchConsole c t)
  | .write ch => some (putc c ch)
  | .read buf nbytes => (readTerminal c buf nbytes).map fun r => r.1

def ConsoleStep (c : Console) (e : InputEvent) (d : Console) : Prop :=
  consoleStep c e = some d

theorem ConsoleStep.key {c d : Console} {ch : Byte}
    (h : ConsoleStep c (.key ch) d) : d = keyboardIrq c ch :=
  (Option.some.inj h).symm

def InputEvent.IsKey : InputEvent → Prop
  | .key _ => True
  | _ => False

/-- Only keys change what a buffer holds: a read clears the ready flag. -/
theorem ConsoleStep.line_kept {c d : Console} {e : InputEvent}
    (h : ConsoleStep c e d) (he : ¬InputEvent.IsKey e) (t : Tid) :
    (lineOf d t).buffer = (lineOf c t).buffer ∧
      (lineOf d t).size = (lineOf c t).size := by
  unfold ConsoleStep at h
  cases e with
  | key ch => exact absurd trivial he
  | terminal u =>
      cases h
      rw [lineOf_terminalSwitch]
      exact ⟨rfl, rfl⟩
  | switch u =>
      cases h
      exact ⟨rfl, rfl⟩
  | write ch =>
      cases h
      rw [lineOf_of_input (input_putc c ch)]
      exact ⟨rfl, rfl⟩
  | read buf nbytes =>
      unfold consoleStep at h
      obtain ⟨r, hread, rfl⟩ := Option.map_eq_some_iff.1 h
      rw [(readTerminal_ready hread).2]
      by_cases ht : t = c.currentTid
      · subst ht
        rw [lineOf_modify]
        exact ⟨rfl, rfl⟩
      · rw [lineOf_modify_ne c _ ht]
        exact ⟨rfl, rfl⟩

/-! ## The stores of a key -/

/-- The stores into `keyboard_buffer` once the character `sch` is known, as
pairs of an index and a byte. -/
def typeStores (bufferSize : Nat) (sch : Byte) : List (Nat × Byte) :=
  if bufferSize = FULL_BUFFER then
    if sch = ENTER_ASCII then [(FULL_BUFFER, ENTER_ASCII)] else []
  else if sch = BACKSPACE then []
  else if sch = TAB then [(bufferSize, TAB)]
  else [(bufferSize, sch)]

/-- The stores of `keyboard_irq` with the scancode `ch` in the port; they go to
the buffer of the displayed terminal. -/
def keyStores (c : Console) (ch : Byte) : List (Nat × Byte) :=
  if getCommandChar c ch = none ∧ ch.toNat < CHARACTER_MAX then
    let row := scancodeTable.getD ch.toNat (0, 0)
    if c.keys.lCtrl ≠ 0 ∧ row.1 = 108 then []
    else
      typeStores (lineOf c c.displayTerminal).size (selectChar c.keys row)
  else []

/-- No other step stores into a buffer. -/
def bufferStores (c : Console) : InputEvent → List (Nat × Byte)
  | .key ch => keyStores c ch
  | _ => []

/-- A buffer after some stores. -/
def afterStores (buffer : Nat → Byte) (stores : List (Nat × Byte)) :
    Nat → Byte :=
  stores.foldl (fun b s => Function.update b s.1 s.2) buffer

/-- The stores account for the buffer that typing leaves. -/
theorem typeLine_stores (b : LineBuffer) (sch : Byte) :
    (typeLine b sch).buffer = afterStores b.buffer (typeStores b.size sch) := by
  unfold typeLine
  by_cases hback : sch = BACKSPACE
  · subst hback
    have hnone : typeStores b.size BACKSPACE = [] := by
      unfold typeStores
      split <;> rfl
    rw [if_pos rfl, hnone]
    rfl
  · rw [if_neg hback, typeStores, if_neg hback]
    by_cases hfull : b.size = FULL_BUFFER
    · rw [if_pos hfull]
      by_cases henter : sch = ENTER_ASCII
      · subst henter
        rw [if_neg fun h => h.2 rfl, if_pos rfl, if_pos rfl, ← hfull]
        rfl
      · rw [if_neg henter, if_neg henter, if_pos ⟨hfull, henter⟩]
        rfl
    · rw [if_neg hfull, if_neg fun h => hfull h.1]
      by_cases htab : sch = TAB
      · subst htab
        rw [if_pos rfl, if_neg (by decide)]
        rfl
      · rw [if_neg htab]
        by_cases henter : sch = ENTER_ASCII
        · subst henter
          rw [if_pos rfl]
          rfl
        · rw [if_neg henter]
          rfl

/-- The stores of a key account for the buffer it leaves. -/
theorem keyboardIrq_stores (c : Console) (ch : Byte) :
    (lineOf (keyboardIrq c ch) c.displayTerminal).buffer =
      afterStores (lineOf c c.displayTerminal).buffer (keyStores c ch) := by
  unfold keyStores
  cases hkey : keyAt c ch with
  | none =>
      rw [if_neg (keyAt_none hkey), (keyboardIrq_none hkey).1]
      rfl
  | some k =>
      obtain ⟨hnone, hcode, -⟩ := keyAt_some hkey
      rw [keyboardIrq_on hkey, if_pos (And.intro hnone hcode)]
      dsimp only
      by_cases hwipe : c.keys.lCtrl ≠ 0 ∧
          (scancodeTable.getD ch.toNat (0, 0)).1 = 108
      · have hclear := ((Edits.refl c).output (input_clear c)).modify
          (f := fun t => { t with bufferSize := 0 })
          (g := fun b => { b with size := 0 }) fun _ => rfl
        rw [if_pos hwipe, if_pos hwipe, hclear.line]
        rfl
      · rw [if_neg hwipe, if_neg hwipe, (edits_typeChar c _).line,
          typeLine_stores]

/-- While the line is not too long, every store is to one of the 128 bytes. -/
theorem keyStores_le {c : Console} {ch : Byte}
    (h : (lineOf c c.displayTerminal).size ≤ FULL_BUFFER) :
    ∀ s ∈ keyStores c ch, s.1 ≤ FULL_BUFFER := by
  intro s hs
  unfold keyStores at hs
  split at hs
  · dsimp only at hs
    split at hs
    · cases hs
    · unfold typeStores at hs
      grind
  · cases hs

/-! ## Buffers of a run -/

/-- A key leaves room for the line. -/
theorem lineAfter_size {b : LineBuffer} (h : b.size ≤ FULL_BUFFER)
    (k : Key Byte) : (lineAfter b k).size ≤ FULL_BUFFER := by
  have happend : ∀ sch, b.size ≠ FULL_BUFFER →
      (b.append sch).size ≤ FULL_BUFFER := by
    intro sch hne
    show b.size + 1 ≤ FULL_BUFFER
    omega
  cases k with
  | char sch =>
      unfold lineAfter
      dsimp only
      split
      · exact h
      · exact happend sch ‹_›
  | backspace => exact Nat.le_trans (Nat.sub_le _ _) h
  | enter => exact Nat.zero_le _
  | wipe => exact Nat.zero_le _
  | silent =>
      unfold lineAfter
      dsimp only
      split
      · exact h
      · exact happend 0 ‹_›

/-- A key changes no buffer, length or ready flag but the displayed
terminal's. -/
theorem keyboardIrq_others (c : Console) (ch : Byte) {t : Tid}
    (ht : t ≠ c.displayTerminal) : lineOf (keyboardIrq c ch) t = lineOf c t := by
  cases hkey : keyAt c ch with
  | none => exact (keyboardIrq_none hkey).1 t
  | some k => exact (keyboardIrq_some hkey).others t ht

/-- No line is longer than 127 characters. -/
def Short (c : Console) : Prop := ∀ t, (lineOf c t).size ≤ FULL_BUFFER

theorem short_boot (mem : Int → Byte) : Short (initTerminal mem) := by
  intro t
  have hline : lineOf (initTerminal mem) t = lineOf (unclearedConsole mem) t :=
    lineOf_of_input (input_clear _) t
  rw [hline]
  exact Nat.zero_le _

theorem ConsoleStep.short {c d : Console} {e : InputEvent}
    (h : ConsoleStep c e d) (hshort : Short c) : Short d := by
  intro t
  by_cases he : InputEvent.IsKey e
  · cases e with
    | key ch =>
        rw [h.key]
        by_cases ht : t = c.displayTerminal
        · subst ht
          cases hkey : keyAt c ch with
          | none =>
              rw [(keyboardIrq_none hkey).1]
              exact hshort _
          | some k =>
              rw [(keyboardIrq_some hkey).line]
              exact lineAfter_size (hshort _) k
        · rw [keyboardIrq_others c ch ht]
          exact hshort t
    | terminal | switch | write | read => exact absurd he id
  · rw [(h.line_kept he t).2]
    exact hshort t

/-- Keyboard input is contained in the state `c`. -/
structure Contained (c : Console) : Prop where
  /-- every length is in bounds -/
  short : ∀ t, (lineOf c t).size ≤ FULL_BUFFER
  /-- every store of the next step is in bounds -/
  bounded : ∀ e, ∀ s ∈ bufferStores c e, s.1 ≤ FULL_BUFFER
  /-- and there are no others -/
  accounted : ∀ e d, ConsoleStep c e d → ∀ t, (lineOf d t).buffer =
    afterStores (lineOf c t).buffer
      (if t = c.displayTerminal then bufferStores c e else [])
  /-- Enter ends the line where it has got to -/
  ended : ∀ ch, keyAt c ch = some .enter →
    (lineOf c c.displayTerminal).size < MAX_BUFFER_SIZE ∧
      lineOf (keyboardIrq c ch) c.displayTerminal =
        ((lineOf c c.displayTerminal).append ENTER_ASCII).commit
  /-- a key concerns only the displayed terminal -/
  others : ∀ ch t, t ≠ c.displayTerminal →
    lineOf (keyboardIrq c ch) t = lineOf c t

theorem Short.contained {c : Console} (h : Short c) : Contained c where
  short := h
  bounded e s hs := by
    cases e with
    | key ch => exact keyStores_le (h _) s hs
    | terminal | switch | write | read => cases hs
  accounted e d hstep t := by
    by_cases he : InputEvent.IsKey e
    · cases e with
      | key ch =>
          rw [hstep.key]
          by_cases ht : t = c.displayTerminal
          · subst ht
            rw [if_pos rfl]
            exact keyboardIrq_stores c ch
          · rw [if_neg ht, keyboardIrq_others c ch ht]
            rfl
      | terminal | switch | write | read => exact absurd he id
    · have hnone : bufferStores c e = [] := by
        cases e with
        | key ch => exact absurd trivial he
        | terminal | switch | write | read => rfl
      rw [(hstep.line_kept he t).1, hnone, ite_self]
      rfl
  ended ch hkey := by
    have hsize := h c.displayTerminal
    refine ⟨?_, (keyboardIrq_some hkey).line⟩
    unfold FULL_BUFFER at hsize
    unfold MAX_BUFFER_SIZE
    omega
  others ch _ ht := keyboardIrq_others c ch ht

/-- In every state the console reaches from boot by keys, terminal switches,
timer switches, output and reads, keyboard input is contained. -/
theorem input_contained {mem : Int → Byte} {es : List InputEvent} {c : Console}
    (h : Run ConsoleStep (initTerminal mem) es c) : Contained c := by
  have hshort : Short c :=
    h.invariant Short (short_boot mem) fun _ _ _ hc hstep => hstep.short hc
  exact hshort.contained

/-- `a`, Enter and a switch to terminal 1. -/
theorem input_contained_enter :
    ∃ c, Run ConsoleStep (initTerminal fun _ => 0)
        [.key 0x1E, .key 0x1C, .terminal 1] c ∧ Contained c := by
  have hrun : Run ConsoleStep (initTerminal fun _ => 0)
      [.key 0x1E, .key 0x1C, .terminal 1] _ :=
    ((Run.nil.snoc rfl).snoc rfl).snoc rfl
  exact ⟨_, hrun, input_contained hrun⟩

end MongOS.Proofs.KeyBounds
