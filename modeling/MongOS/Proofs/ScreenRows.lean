import MongOS.Verified.TextRows
import MongOS.Proofs.Display

/-!
# The screen shows the last rows of the text

`rowsOf` breaks a byte string into rows, after each newline or carriage return
and after 80 characters.  `putc` keeps that the screen shows the last 25 of the
rows written since it was cleared, so it shows them after any text without
backspaces.
-/

namespace MongOS.Proofs.ScreenRows

open MongOS.Model
open MongOS.Verified.TextScreen
open MongOS.Proofs.ScreenFrame MongOS.Proofs.Painting MongOS.Proofs.Display

/-- The bytes that end a row. -/
def IsNewline (b : Byte) : Prop := b = 10 ∨ b = 13

instance decidable_isNewline (b : Byte) : Decidable (IsNewline b) :=
  inferInstanceAs (Decidable (_ ∨ _))

/-- The rows of a byte string. -/
def rowsOf (text : List Byte) : List (List Byte) :=
  breakRows 80 IsNewline [] text

/-- The last 25 of them, or all. -/
def lastRows (text : List Byte) : List (List Byte) :=
  (rowsOf text).drop ((rowsOf text).length - 25)

/-- The cell that `putc` makes of a character. -/
def cellOf (b : Byte) : Cell := (b, ATTRIB)

/-! ## One byte -/

theorem shown_showCursor (c : Console) : shown (showCursor c) = shown c := by
  unfold showCursor
  split
  · rfl
  · rfl

/-- A byte other than a backspace is accepted as an element of a text. -/
theorem receiveChar_eq_accept {ch : Byte} (hch : ch ≠ 8) (s : Screen Cell) :
    receiveChar s ch = s.accept vga blankCell cellOf IsNewline ch := by
  unfold receiveChar Screen.accept
  rw [if_neg hch]
  rfl

theorem putc_shows {c : Console} {t : Rows Byte} {ch : Byte}
    (h : Shows vga blankCell cellOf t (shown c)) (hch : ch ≠ 8) :
    Shows vga blankCell cellOf (t.feed 80 IsNewline ch)
      (shown (putc c ch)) := by
  have hbackspace : ch = 8 → c.screenX = 0 → c.screenY = 0 →
      c.displayTerminal = c.currentTid := fun heq => absurd heq hch
  obtain ⟨d, hputc, hpaint⟩ := putc_painted c ch h.inBounds hbackspace
  rw [hputc, shown_showCursor]
  have haccept := h.accept IsNewline ch
  rw [← receiveChar_eq_accept hch] at haccept
  exact haccept.congr hpaint.agree.symm

/-- The cursor registers have the position of the cursor. -/
def CursorShown (c : Console) : Prop :=
  c.displayTerminal = c.currentTid →
    c.cursorPos = c.screenY * NUM_COLS + c.screenX

theorem cursorShown_putc {c : Console} {t : Rows Byte} {ch : Byte}
    (h : Shows vga blankCell cellOf t (shown c)) (hch : ch ≠ 8) :
    CursorShown (putc c ch) := by
  have hin := (putc_shows h hch).inBounds
  rw [putc_char c hch] at hin ⊢
  rw [shown_showCursor] at hin
  generalize rollUp (advance c ch) = d at hin ⊢
  intro hdisplay
  have hsame : d.displayTerminal = d.currentTid := by
    unfold showCursor at hdisplay
    split at hdisplay
    · assumption
    · exact hdisplay
  unfold showCursor
  rw [if_pos hsame]
  show (d.screenY * NUM_COLS + d.screenX) % 2 ^ 16 = _
  have hx : 0 ≤ d.screenX ∧ d.screenX < 80 := ⟨hin.x_nonneg, hin.x_lt⟩
  have hy : 0 ≤ d.screenY ∧ d.screenY < 25 := ⟨hin.y_nonneg, hin.y_lt⟩
  show _ = d.screenY * NUM_COLS + d.screenX
  unfold NUM_COLS
  omega

/-! ## A text -/

/-- Writing a text, byte by byte. -/
theorem foldl_putc_shows {c : Console} {t : Rows Byte}
    (h : Shows vga blankCell cellOf t (shown c)) {text : List Byte}
    (htext : ∀ b ∈ text, b ≠ 8) :
    Shows vga blankCell cellOf (text.foldl (Rows.feed 80 IsNewline) t)
      (shown (text.foldl putc c)) := by
  induction text generalizing c t with
  | nil => exact h
  | cons b text ih =>
      have hb : b ≠ 8 := htext b List.mem_cons_self
      exact ih (putc_shows h hb) fun a ha => htext a (List.mem_cons_of_mem b ha)

theorem cursorShown_foldl_putc {c : Console} {t : Rows Byte}
    (h : Shows vga blankCell cellOf t (shown c)) {text : List Byte}
    (htext : ∀ b ∈ text, b ≠ 8) (hcursor : text = [] → CursorShown c) :
    CursorShown (text.foldl putc c) := by
  induction text generalizing c t with
  | nil => exact hcursor rfl
  | cons b text ih =>
      have hb : b ≠ 8 := htext b List.mem_cons_self
      have hrest : ∀ a ∈ text, a ≠ 8 := fun a ha =>
        htext a (List.mem_cons_of_mem b ha)
      exact ih (putc_shows h hb) hrest fun _ => cursorShown_putc h hb

/-- The screen that output goes to is blank and its cursor at the origin. -/
structure Cleared (c : Console) : Prop where
  char : ∀ i : Nat, i < 2000 → c.load (VIDEO + 2 * i) = 32
  attr : ∀ i : Nat, i < 2000 → c.load (VIDEO + 2 * i + 1) = ATTRIB
  x : c.screenX = 0
  y : c.screenY = 0

/-- That screen shows the last rows of a text, each padded with blanks and all
in the standard attribute, and the cursor is at the end of the last row. -/
structure ShowsText (c : Console) (text : List Byte) : Prop where
  char : ∀ k j : Nat, k < 25 → j < 80 →
    c.load (VIDEO + 2 * (80 * k + j)) = ((lastRows text).getD k []).getD j 32
  attr : ∀ k j : Nat, k < 25 → j < 80 →
    c.load (VIDEO + 2 * (80 * k + j) + 1) = ATTRIB
  x : c.screenX = ((lastRows text).getLastD []).length
  y : c.screenY + 1 = (lastRows text).length

/-- The code reads the cells of the screen shown. -/
theorem load_shown (c : Console) {i : Int} (hi : 0 ≤ i) (hi' : i < 2000) :
    (shown c).cell i =
      (c.load (VIDEO + 2 * i), c.load (VIDEO + 2 * i + 1)) := by
  have hchar := translate_text c (o := 2 * i) (by omega) (by omega)
  rw [Console.load, Console.load, hchar, translate_attr c hi hi']
  rfl

theorem Cleared.shows {c : Console} (h : Cleared c) :
    Shows vga blankCell cellOf { ended := [], last := [] } (shown c) := by
  apply Shows.start
  constructor
  case x => exact h.x
  case y => exact h.y
  case cell =>
    intro i hi hi'
    have hi' : i < 2000 := hi'
    obtain ⟨n, hn⟩ := Int.eq_ofNat_of_zero_le hi
    rw [load_shown c hi hi', hn, h.char n (by omega), h.attr n (by omega)]
    rfl

/-- Row `k` of the screen is row `k` of the last rows. -/
theorem shownCell_lastRows {text : List Byte} {t : Rows Byte}
    (ht : t.all = rowsOf text) (k j : Nat) :
    shownCell vga blankCell cellOf t.all k j =
      (((lastRows text).getD k []).getD j 32, ATTRIB) := by
  have hrow : (rowsOf text).getD (scrolledOff vga (rowsOf text).length + k) [] =
      (lastRows text).getD k [] := by
    unfold lastRows
    rw [List.getD_eq_getElem?_getD, List.getD_eq_getElem?_getD,
      List.getElem?_drop]
    rfl
  unfold shownCell
  rw [ht, hrow]
  exact List.getD_map _ _ cellOf

/-- A screen that shows the rows of a text shows the text. -/
theorem showsText_of_shows {c : Console} {text : List Byte} {t : Rows Byte}
    (h : Shows vga blankCell cellOf t (shown c)) (ht : t.all = rowsOf text) :
    ShowsText c text := by
  have hlength : (rowsOf text).length = t.ended.length + 1 := by
    rw [← ht, Rows.all, List.length_append, List.length_singleton]
  have hcell {k j : Nat} (hk : k < 25) (hj : j < 80) :
      (c.load (VIDEO + 2 * (80 * (k : Int) + j)),
        c.load (VIDEO + 2 * (80 * (k : Int) + j) + 1)) =
      (((lastRows text).getD k []).getD j 32, ATTRIB) := by
    have hshown := h.rows.cell k j (Int.ofNat_lt.2 hk) (Int.ofNat_lt.2 hj)
    rw [shownCell_lastRows ht] at hshown
    rw [← load_shown c (by omega) (by omega)]
    exact hshown
  constructor
  case char =>
    intro k j hk hj
    exact congrArg Prod.fst (hcell hk hj)
  case attr =>
    intro k j hk hj
    exact congrArg Prod.snd (hcell hk hj)
  case x =>
    have hlast : (lastRows text).getLastD [] = t.last := by
      rw [lastRows, hlength, ← ht, Rows.all,
        List.drop_append_of_le_length (by omega), List.getLastD_concat]
    rw [hlast]
    exact h.x
  case y =>
    have hy := h.rows.y
    rw [ht] at hy
    have hrows : c.screenY + 1 = min ((rowsOf text).length : Int) 25 := hy
    rw [hrows, lastRows, List.length_drop]
    omega

/-- A newline right after a full row makes an empty row. -/
example : rowsOf (List.replicate 80 65 ++ [10, 66]) =
    [List.replicate 80 65, [], [66]] := by decide

/-- The screen shows the last 25 rows of whatever is written to a cleared
screen, and the cursor is at the end of the last row, in the registers as
well. -/
theorem putc_shows_last_rows {c : Console} (hc : Cleared c) {text : List Byte}
    (htext : ∀ b ∈ text, b ≠ 8) :
    ShowsText (text.foldl putc c) text ∧
      ((text = [] → CursorShown c) → CursorShown (text.foldl putc c)) := by
  constructor
  · apply showsText_of_shows (foldl_putc_shows hc.shows htext)
    rw [all_foldl_feed]
    rfl
  · intro hcursor
    exact cursorShown_foldl_putc hc.shows htext hcursor

/-! ## After `clear` -/

theorem cleared_of_agree {c : Console}
    (h : Screen.Agree vga (shown c) (Screen.wiped blankCell)) : Cleared c := by
  have hcell {i : Nat} (hi : i < 2000) :
      (c.load (VIDEO + 2 * (i : Int)), c.load (VIDEO + 2 * (i : Int) + 1)) =
        blankCell := by
    rw [← load_shown c (by omega) (by omega)]
    exact h.cell i (by omega) (Int.ofNat_lt.2 hi)
  exact
    { char := fun i hi => congrArg Prod.fst (hcell hi)
      attr := fun i hi => congrArg Prod.snd (hcell hi)
      x := h.x
      y := h.y }

theorem shown_congr {c d : Console}
    (hmapping : c.pageTableVideo = d.pageTableVideo) (hmem : c.mem = d.mem)
    (hterminal : c.multiTerminal = d.multiTerminal)
    (htarget : c.screenT = d.screenT) : shown c = shown d := by
  unfold shown screenAt base Console.screenX Console.screenY
  rw [hmapping, hmem, hterminal, htarget]

/-- Output to the displayed terminal goes to the video memory. -/
theorem vidMem_displayed {c : Console} {t : Tid} (h : t = c.displayTerminal) :
    (vidMem c t).pageTableVideo = VIDEO / PAGE := by
  unfold vidMem
  dsimp only
  rw [if_neg (not_not_intro h)]

/-- So mapping it again, as `clear` does at its end, changes nothing. -/
theorem shown_vidMem_again {d : Console} (hpage : VIDEO / PAGE = d.pageTableVideo)
    (htarget : d.displayTerminal = d.screenT) (x y : Int) :
    shown (vidMem (updateCursor d x y) d.displayTerminal) = shown d := by
  apply shown_congr
  case hmapping =>
    have hsame : d.displayTerminal = (updateCursor d x y).displayTerminal := rfl
    rw [vidMem_displayed hsame]
    exact hpage
  case hmem => rfl
  case hterminal => rfl
  case htarget => exact htarget

/-- `clear` leaves a cleared screen if the running terminal is displayed. -/
theorem cleared_clear {c : Console}
    (hdisplay : c.displayTerminal = c.currentTid) :
    Cleared (clear c) ∧ CursorShown (clear c) := by
  have hwipe := painted_wipe (vidMem c c.displayTerminal)
  unfold clear
  dsimp only
  generalize ((List.range 2000).foldl (fun c (i : Nat) => putCell c i 32)
    (vidMem c c.displayTerminal)).setXY 0 0 = d at hwipe ⊢
  have hcur : d.currentTid = d.displayTerminal := by
    rw [hwipe.cur, hwipe.display]
    exact hdisplay.symm
  have htarget : d.displayTerminal = d.screenT := by
    rw [hwipe.target, hwipe.display]
    rfl
  have hpage : VIDEO / PAGE = d.pageTableVideo := by
    rw [hwipe.mapping, vidMem_displayed rfl]
  show Cleared (vidMem (updateCursor d 0 0) d.currentTid) ∧
    CursorShown (vidMem (updateCursor d 0 0) d.currentTid)
  have hshown := shown_vidMem_again hpage htarget 0 0
  have hposition : (vidMem (updateCursor d 0 0) d.displayTerminal).cursorPos =
      (0 * NUM_COLS + 0) % 2 ^ 16 := rfl
  rw [hcur]
  generalize vidMem (updateCursor d 0 0) d.displayTerminal = e
    at hshown hposition ⊢
  have hcleared : Cleared e := by
    apply cleared_of_agree
    rw [hshown]
    exact hwipe.agree
  constructor
  · exact hcleared
  · intro _
    rw [hposition, hcleared.x, hcleared.y]
    rfl

/-- The first text of the running terminal after boot. -/
def greeting : List Byte := [104, 105, 10, 36]

theorem greeting_shown :
    ShowsText (greeting.foldl putc (initTerminal fun _ => 0)) greeting ∧
      ((greeting = [] → CursorShown (initTerminal fun _ => 0)) →
        CursorShown (greeting.foldl putc (initTerminal fun _ => 0))) :=
  putc_shows_last_rows (cleared_clear rfl).1 (by simp [greeting])

end MongOS.Proofs.ScreenRows
