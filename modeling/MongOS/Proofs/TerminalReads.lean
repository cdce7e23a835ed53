import MongOS.Proofs.LineDiscipline

/-!
# Reads of a committed line

Enter leaves a line in the buffer of its terminal, with a carriage return behind
it and the rest of longer lines behind that.  `read_terminal` hands over as much
of the line as the caller has asked for, with a newline for the carriage return.

* `Delivers` — what a read leaves in the caller's memory and in the terminal.
* `readTerminal_delivers` — every read of a committed line delivers it.
-/

namespace MongOS.Proofs.TerminalReads

open MongOS.Model
open MongOS.Proofs.LineDiscipline

/-- The read `r` has delivered the line `l` to the `m` bytes at `buf`, and has
only cleared the ready flag of the running terminal. -/
structure Delivers (c : Console) (l : List Byte) (buf : Nat → Byte) (m : Nat)
    (r : Console × Int × (Nat → Byte)) : Prop where
  count : r.2.1 = (min m (l.length + 1) : Nat)
  bytes : ∀ i, i < min m (l.length + 1) →
    (delivered l)[i]? = some (r.2.2 i)
  zeroed : ∀ i, l.length + 1 ≤ i → i < m → r.2.2 i = 0
  beyond : ∀ i, m ≤ i → r.2.2 i = buf i
  cleared : lineOf r.1 c.currentTid =
    { lineOf c c.currentTid with ready := false }
  others : ∀ t, t ≠ c.currentTid → lineOf r.1 t = lineOf c t

/-- A byte of the line with its newline. -/
theorem delivered_deliveredAt (l : List Byte) {i : Nat} (h : i < l.length + 1) :
    (delivered l)[i]? = some (deliveredAt l i) := by
  have hlen : i < (delivered l).length := by
    rw [delivered, List.length_append, List.length_singleton]
    exact h
  rw [deliveredAt, List.getD_eq_getElem?_getD, List.getElem?_eq_getElem hlen,
    Option.getD_some]

/-- The loop of the read, from its start. -/
theorem delivers_copyLine {c : Console} {l : List Byte} {m : Nat}
    (hline : Committed (lineOf c c.currentTid).buffer l)
    (hm : m ≤ MAX_BUFFER_SIZE) (buf : Nat → Byte) :
    Delivers c l buf m
      (c.modify c.currentTid fun t => { t with terminalEnable := false },
        (copyLine (lineOf c c.currentTid).buffer m m 0 buf).1,
        (copyLine (lineOf c c.currentTid).buffer m m 0 buf).2) := by
  obtain ⟨hcount, hbytes⟩ := copyLine_committed hline hm m 0 buf
    (Nat.zero_add m) (Nat.zero_le _)
  have hin : ∀ i, i < m →
      (copyLine (lineOf c c.currentTid).buffer m m 0 buf).2 i =
        deliveredAt l i := by
    intro i hi
    rw [hbytes i, if_pos ⟨Nat.zero_le i, hi⟩]
  refine
    { count := ?count, bytes := ?bytes, zeroed := ?zeroed, beyond := ?beyond
      cleared := ?cleared, others := ?others }
  case count =>
    dsimp only
    rw [hcount]
  case bytes =>
    intro i hi
    rw [hin i (by omega), delivered_deliveredAt l (by omega)]
  case zeroed =>
    intro i hl hi
    rw [hin i hi, deliveredAt_tail l hl]
  case beyond =>
    intro i hi
    rw [hbytes i, if_neg (by omega)]
  case cleared =>
    dsimp only
    rw [lineOf_modify]
    rfl
  case others =>
    intro t ht
    dsimp only
    rw [lineOf_modify_ne c _ ht]

/-- A read returns exactly when the ready flag is set, and then it has delivered
the committed line to the at most 128 bytes it was asked for: nothing is written
behind them, and the line stays in the keyboard buffer. -/
theorem readTerminal_delivers {c : Console} {l : List Byte}
    (hline : Committed (lineOf c c.currentTid).buffer l) (buf : Nat → Byte)
    (nbytes : Int) :
    ((readTerminal c buf nbytes).isSome ↔
        (lineOf c c.currentTid).ready = true) ∧
      ∀ r, readTerminal c buf nbytes = some r →
        Delivers c l buf (min nbytes.toNat MAX_BUFFER_SIZE) r := by
  have hloop := delivers_copyLine hline (Nat.min_le_right nbytes.toNat _) buf
  have hready : (c.multiTerminal c.currentTid).terminalEnable =
      (lineOf c c.currentTid).ready := rfl
  unfold readTerminal
  dsimp only
  rw [hready]
  constructor
  · split
    · simp [*]
    · simp [*]
  · intro r hr
    split at hr
    · cases hr
      exact hloop
    · cases hr

/-- Terminal 0 with the line `hi`, behind it what a longer line has left. -/
def committedHi : Console :=
  (unclearedConsole fun _ => 0).modify 0 fun t =>
    { t with
      keyboardBuffer := fun i =>
        match i with
        | 0 => 104
        | 1 => 105
        | 2 => ENTER_ASCII
        | _ => 120
      terminalEnable := true }

theorem committed_hi :
    Committed (lineOf committedHi committedHi.currentTid).buffer [104, 105] where
  starts i hi := by
    match i, hi with
    | 0, _ => rfl
    | 1, _ => rfl
  ended := rfl
  short := by decide
  plain := by decide

/-- A read of five bytes, and one of two bytes. -/
theorem readTerminal_hi :
    (∃ r, readTerminal committedHi (fun _ => 1) 5 = some r ∧
        Delivers committedHi [104, 105] (fun _ => 1) 5 r) ∧
      ∃ r, readTerminal committedHi (fun _ => 1) 2 = some r ∧
        Delivers committedHi [104, 105] (fun _ => 1) 2 r := by
  have hfive := readTerminal_delivers committed_hi (fun _ => 1) 5
  have htwo := readTerminal_delivers committed_hi (fun _ => 1) 2
  constructor
  · obtain ⟨r, hr⟩ := Option.isSome_iff_exists.1 (hfive.1.2 rfl)
    exact ⟨r, hr, hfive.2 r hr⟩
  · obtain ⟨r, hr⟩ := Option.isSome_iff_exists.1 (htwo.1.2 rfl)
    exact ⟨r, hr, htwo.2 r hr⟩

end MongOS.Proofs.TerminalReads
