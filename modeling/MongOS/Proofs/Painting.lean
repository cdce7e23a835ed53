import MongOS.Verified.TextScreen
import MongOS.Proofs.ScreenFrame

/-!
# What the output functions draw

All output goes to the page behind `VIDEO` and to the cursor of `screenT`;
together they are the screen `shown` by a console.  `Painted c c' s` says that
output took `c` to `c'`, that the screen shown is now `s`, and that nothing
else changed: the other terminals, the rest of the memory, the mapping; and
that all bytes were stored in the text area.

`putc_painted` and `clear_painted` reduce `putc` and `clear` to the operations
of a text screen.
-/

namespace MongOS.Proofs.Painting

open MongOS.Model
open MongOS.Verified.TextScreen
open MongOS.Proofs.ScreenFrame

/-- The screens of the kernel have 25 rows of 80 cells. -/
def vga : Size :=
  { cols := 80, rows := 25, cols_pos := by decide, rows_pos := by decide }

/-- A cell: a character and its attribute. -/
abbrev Cell := Byte × Byte

/-- A blank with the standard attribute. -/
def blankCell : Cell := (32, ATTRIB)

/-- The physical address of the video page. -/
def base (c : Console) : Int := c.pageTableVideo * PAGE

/-- The cells stored from physical address `a` on, with a cursor. -/
def screenAt (c : Console) (a x y : Int) : Screen Cell :=
  { cell := fun i => (c.mem (a + 2 * i), c.mem (a + 2 * i + 1)), x := x, y := y }

/-- The screen that output goes to. -/
def shown (c : Console) : Screen Cell :=
  screenAt c (base c) c.screenX c.screenY

/-- A virtual address in the text area. -/
def OnText (va : Int) : Prop := VIDEO ≤ va ∧ va < VIDEO + 4000

/-- Output that leads from `c` to `c'` and leaves screen `s`. -/
structure Painted (c c' : Console) (s : Screen Cell) : Prop where
  mapping : c'.pageTableVideo = c.pageTableVideo
  user : c'.userMapping = c.userMapping
  target : c'.screenT = c.screenT
  cur : c'.currentTid = c.currentTid
  display : c'.displayTerminal = c.displayTerminal
  cursor : c'.cursorPos = c.cursorPos
  terminal : c'.multiTerminal = (c.setXY s.x s.y).multiTerminal
  cell : ∀ i, 0 ≤ i → i < 2000 → (shown c').cell i = s.cell i
  outside : ∀ a, a < base c ∨ base c + 4000 ≤ a → c'.mem a = c.mem a
  stored : ∀ va ∈ c'.stored, va ∈ c.stored ∨ OnText va

theorem screenX_setXY (c : Console) (x y : Int) : (c.setXY x y).screenX = x := by
  simp [Console.screenX, Console.setXY]

theorem screenY_setXY (c : Console) (x y : Int) : (c.setXY x y).screenY = y := by
  simp [Console.screenY, Console.setXY]

theorem setXY_self (c : Console) :
    (c.setXY c.screenX c.screenY).multiTerminal = c.multiTerminal :=
  Function.update_eq_self _ _

namespace Painted

variable {c d e : Console} {s s' : Screen Cell}

theorem refl (c : Console) : Painted c c (shown c) where
  mapping := rfl
  user := rfl
  target := rfl
  cur := rfl
  display := rfl
  cursor := rfl
  terminal := (setXY_self c).symm
  cell _ _ _ := rfl
  outside _ _ := rfl
  stored _ h := .inl h

theorem base_eq (h : Painted c d s) : base d = base c := by
  unfold base
  rw [h.mapping]

theorem screenX (h : Painted c d s) : d.screenX = s.x := by
  rw [Console.screenX, h.terminal, h.target]
  exact screenX_setXY c s.x s.y

theorem screenY (h : Painted c d s) : d.screenY = s.y := by
  rw [Console.screenY, h.terminal, h.target]
  exact screenY_setXY c s.x s.y

/-- The screen is the one shown afterwards. -/
theorem agree (h : Painted c d s) : Screen.Agree vga (shown d) s where
  x := h.screenX
  y := h.screenY
  cell i hi hi' := h.cell i hi hi'

/-- Only the visible part of the screen counts. -/
theorem congr (h : Painted c d s) (hs : Screen.Agree vga s s') :
    Painted c d s' :=
  { h with
    terminal := by rw [h.terminal, hs.x, hs.y]
    cell := fun i hi hi' => (h.cell i hi hi').trans (hs.cell i hi hi') }

/-- Output after output. -/
theorem trans (h : Painted c d s) (h' : Painted d e s') : Painted c e s' where
  mapping := h'.mapping.trans h.mapping
  user := h'.user.trans h.user
  target := h'.target.trans h.target
  cur := h'.cur.trans h.cur
  display := h'.display.trans h.display
  cursor := h'.cursor.trans h.cursor
  terminal := by
    rw [h'.terminal]
    simp only [Console.setXY, h.terminal, h.target, Function.update_self,
      Function.update_idem]
  cell := h'.cell
  outside a ha := by
    rw [h'.outside a (by rwa [h.base_eq]), h.outside a ha]
  stored va hva := by
    rcases h'.stored va hva with hold | hnew
    · exact h.stored va hold
    · exact .inr hnew

/-- A terminal other than the one output goes to is not touched. -/
theorem terminal_of_ne (h : Painted c d s) {t : Tid} (ht : t ≠ c.screenT) :
    d.multiTerminal t = c.multiTerminal t := by
  rw [h.terminal]
  exact Function.update_of_ne ht ..

end Painted

/-! ## Single stores -/

theorem translate_text (c : Console) {o : Int} (ho : 0 ≤ o) (ho' : o < 4096) :
    c.translate (VIDEO + o) = base c + o := by
  unfold Console.translate VIDEO PAGE
  rw [if_pos (by omega), base, PAGE]
  omega

/-- The attribute of cell `i`. -/
theorem translate_attr (c : Console) {i : Int} (hi : 0 ≤ i) (hi' : i < 2000) :
    c.translate (VIDEO + 2 * i + 1) = base c + 2 * i + 1 := by
  rw [Int.add_assoc, translate_text c (by omega) (by omega), Int.add_assoc]

theorem painted_setXY (c : Console) (x y : Int) :
    Painted c (c.setXY x y) ((shown c).move x y) :=
  { Painted.refl c with
    terminal := rfl
    cell := fun _ _ _ => rfl }

/-- Storing both bytes of a cell. -/
theorem painted_cell (c : Console) {i : Int} (hi : 0 ≤ i) (hi' : i < 2000)
    (ch attr : Byte) :
    Painted c ((c.store (VIDEO + 2 * i) ch).store (VIDEO + 2 * i + 1) attr)
      ((shown c).put i (ch, attr)) := by
  have hchar := translate_text c (o := 2 * i) (by omega) (by omega)
  have hattr := translate_attr c hi hi'
  have hmem : ((c.store (VIDEO + 2 * i) ch).store (VIDEO + 2 * i + 1) attr).mem =
      Function.update (Function.update c.mem (base c + 2 * i) ch)
        (base c + 2 * i + 1) attr := by
    rw [← hattr, ← hchar]
    rfl
  refine
    { Painted.refl c with
      terminal := (setXY_self c).symm, cell := ?cell
      outside := ?outside, stored := ?stored }
  case cell =>
    intro j hj hj'
    have hbase : base ((c.store (VIDEO + 2 * i) ch).store (VIDEO + 2 * i + 1)
        attr) = base c := rfl
    simp only [shown, screenAt, hbase, hmem, Screen.put, Function.update_apply]
    by_cases heq : j = i
    · subst heq
      rw [if_pos rfl, if_neg (by omega), if_pos rfl, if_pos rfl]
    · rw [if_neg heq, if_neg (by omega), if_neg (by omega), if_neg (by omega),
        if_neg (by omega)]
  case outside =>
    intro a ha
    rw [hmem, Function.update_of_ne (by omega), Function.update_of_ne (by omega)]
  case stored =>
    intro va hva
    have hcases : va = VIDEO + 2 * i + 1 ∨ va = VIDEO + 2 * i ∨ va ∈ c.stored := by
      simpa [Console.store, Console.poke] using hva
    unfold OnText
    rcases hcases with rfl | rfl | hold
    · exact .inr ⟨by omega, by omega⟩
    · exact .inr ⟨by omega, by omega⟩
    · exact .inl hold

theorem painted_putCell (c : Console) {i : Int} (hi : 0 ≤ i) (hi' : i < 2000)
    (ch : Byte) : Painted c (putCell c i ch) ((shown c).put i (ch, ATTRIB)) :=
  painted_cell c hi hi' ch ATTRIB

/-- The first loop of `scroll_down` copies a cell from the row below. -/
theorem painted_moveCell (c : Console) {i : Int} (hi : 0 ≤ i) (hi' : i < 1920) :
    Painted c (moveCell c i) ((shown c).put i ((shown c).cell (i + 80))) := by
  have hchar : c.load (VIDEO + 2 * (i + NUM_COLS)) =
      c.mem (base c + 2 * (i + 80)) := by
    unfold NUM_COLS
    rw [Console.load, translate_text c (by omega) (by omega)]
  -- the store of the character does not hit the attribute that is read next
  have hattr : (c.store (VIDEO + 2 * i) (c.load (VIDEO + 2 * (i + NUM_COLS)))).load
      (VIDEO + 2 * (i + NUM_COLS) + 1) = c.mem (base c + 2 * (i + 80) + 1) := by
    unfold NUM_COLS
    rw [Console.load, Int.add_assoc, translate_text _ (by omega) (by omega)]
    show Function.update c.mem (c.translate (VIDEO + 2 * i)) _
      (base c + (2 * (i + 80) + 1)) = _
    rw [translate_text c (by omega) (by omega),
      Function.update_of_ne (by omega), Int.add_assoc]
  have hpaint := painted_cell c hi (by omega) (c.mem (base c + 2 * (i + 80)))
    (c.mem (base c + 2 * (i + 80) + 1))
  rw [moveCell, hattr, hchar]
  exact hpaint

/-! ## Loops -/

/-- The first loop of `scroll_down` after `n` cells: they show what was 80 cells
behind. -/
theorem painted_moveLoop (c : Console) {n : Nat} (hn : n ≤ 1920) :
    Painted c ((List.range n).foldl (fun c (i : Nat) => moveCell c i) c)
      { cell := fun i =>
          if 0 ≤ i ∧ i < n then (shown c).cell (i + 80) else (shown c).cell i
        x := c.screenX
        y := c.screenY } := by
  induction n with
  | zero =>
      refine (Painted.refl c).congr { x := rfl, y := rfl, cell := ?_ }
      intro i hi hi'
      exact (if_neg (by omega)).symm
  | succ n ih =>
      have hprev := ih (by omega)
      rw [List.range_succ, List.foldl_append]
      have hstep := painted_moveCell
        ((List.range n).foldl (fun c (i : Nat) => moveCell c i) c)
        (Int.natCast_nonneg n) (by omega)
      refine (hprev.trans hstep).congr
        { x := hprev.screenX, y := hprev.screenY, cell := ?_ }
      intro i hi hi'
      have hi' : i < 2000 := hi'
      have hbehind := hprev.cell (n + 80) (by omega) (by omega)
      dsimp only at hbehind ⊢
      rw [if_neg (by omega)] at hbehind
      simp only [Screen.put, Function.update_apply]
      by_cases heq : i = n
      · subst heq
        rw [if_pos rfl, if_pos ⟨by omega, by omega⟩, hbehind]
      · have hold := hprev.cell i hi hi'
        dsimp only at hold
        rw [if_neg heq, hold]
        by_cases hlt : i < n
        · rw [if_pos ⟨hi, hlt⟩, if_pos ⟨hi, by omega⟩]
        · rw [if_neg (by omega), if_neg (by omega)]

/-- A loop that blanks `n` cells from cell `a` on. -/
theorem painted_blankLoop (c : Console) (a : Nat) {n : Nat} (hn : a + n ≤ 2000) :
    Painted c ((List.range' a n).foldl (fun c (i : Nat) => putCell c i 32) c)
      { cell := fun i =>
          if a ≤ i ∧ i < a + n then blankCell else (shown c).cell i
        x := c.screenX
        y := c.screenY } := by
  induction n with
  | zero =>
      refine (Painted.refl c).congr { x := rfl, y := rfl, cell := ?_ }
      intro i hi hi'
      exact (if_neg (by omega)).symm
  | succ n ih =>
      have hprev := ih (by omega)
      rw [List.range'_concat, List.foldl_append]
      have hstep := painted_putCell
        ((List.range' a n).foldl (fun c (i : Nat) => putCell c i 32) c)
        (Int.natCast_nonneg (a + 1 * n)) (by omega) 32
      refine (hprev.trans hstep).congr
        { x := hprev.screenX, y := hprev.screenY, cell := ?_ }
      intro i hi hi'
      dsimp only
      simp only [Screen.put, Function.update_apply]
      by_cases heq : i = (a + 1 * n : Nat)
      · rw [if_pos heq, if_pos ⟨by omega, by omega⟩]
        rfl
      · have hold := hprev.cell i hi hi'
        dsimp only at hold
        rw [if_neg heq, hold]
        by_cases hin : a ≤ i ∧ i < a + n
        · rw [if_pos hin, if_pos ⟨hin.1, by omega⟩]
        · rw [if_neg hin, if_neg (by omega)]

/-- `scroll_down` scrolls the screen that is shown. -/
theorem painted_scrollDown (c : Console) :
    Painted c (scrollDown c) ((shown c).scroll vga blankCell) := by
  have hstart := painted_setXY c 0 (NUM_ROWS - 1)
  have hmove := painted_moveLoop (c.setXY 0 (NUM_ROWS - 1)) (Nat.le_refl 1920)
  unfold scrollDown
  dsimp only
  generalize (List.range 1920).foldl (fun c (i : Nat) => moveCell c i)
    (c.setXY 0 (NUM_ROWS - 1)) = d at hmove ⊢
  have hblank := painted_blankLoop d 1920 (by decide : 1920 + 80 ≤ 2000)
  have hx : d.screenX = 0 := hmove.screenX.trans hstart.screenX
  have hy : d.screenY = 24 := hmove.screenY.trans hstart.screenY
  refine ((hstart.trans hmove).trans hblank).congr { x := hx, y := hy, cell := ?_ }
  intro i hi hi'
  have hi' : i < 2000 := hi'
  have hmoved := hmove.cell i hi hi'
  have hold := hstart.cell (i + 80)
  have hscroll : ((shown c).scroll vga blankCell).cell i =
      if i < 1920 then (shown c).cell (i + 80) else blankCell := rfl
  rw [hscroll]
  dsimp only at hmoved ⊢
  by_cases hlast : i < 1920
  · rw [if_neg (by omega), if_pos (by omega), hmoved, if_pos ⟨hi, by omega⟩,
      hold (by omega) (by omega)]
    rfl
  · rw [if_pos ⟨by omega, by omega⟩, if_neg hlast]

/-! ## `putc` and `clear` -/

theorem painted_rollUp (c : Console) :
    Painted c (rollUp c) ((shown c).settle vga blankCell) := by
  unfold rollUp Screen.settle
  have hrows : (shown c).y = vga.rows ↔ c.screenY = NUM_ROWS := Iff.rfl
  by_cases hlast : c.screenY = NUM_ROWS
  · rw [if_pos hlast, if_pos (hrows.2 hlast)]
    exact painted_scrollDown c
  · rw [if_neg hlast, if_neg fun h => hlast (hrows.1 h)]
    exact .refl c

/-- What a screen does with a byte of output. -/
def receiveChar (s : Screen Cell) (ch : Byte) : Screen Cell :=
  if ch = 8 then s.erase vga blankCell
  else if ch = 10 ∨ ch = 13 then s.newline vga blankCell
  else s.write vga blankCell (ch, ATTRIB)

theorem painted_advance (c : Console) (ch : Byte)
    (hin : Screen.InBounds vga (shown c)) :
    Painted c (advance c ch)
      (if ch = 10 ∨ ch = 13 then (shown c).move 0 (c.screenY + 1)
        else ((shown c).put ((shown c).index vga) (ch, ATTRIB)).forward vga) := by
  obtain ⟨hlo, hhi⟩ := hin.index_range
  have hx' : c.screenX < 80 := hin.x_lt
  unfold advance
  dsimp only
  split
  · exact painted_setXY c 0 _
  · have hput := painted_putCell c hlo hhi ch
    rw [show NUM_COLS * c.screenY + c.screenX = (shown c).index vga from rfl]
    generalize putCell c ((shown c).index vga) ch = d at hput ⊢
    have hdx : d.screenX = c.screenX := hput.screenX
    have hdy : d.screenY = c.screenY := hput.screenY
    have hmove := hput.trans (painted_setXY d (d.screenX + 1) d.screenY)
    rw [screenX_setXY, screenY_setXY]
    by_cases hend : c.screenX + 1 = 80
    · -- the cursor wraps to the next row
      have hwrap := hmove.trans (painted_setXY
        (d.setXY (d.screenX + 1) d.screenY) 0 (d.screenY + 1))
      have hzero : (d.screenX + 1) % NUM_COLS = 0 := by
        rw [hdx, hend]
        rfl
      rw [if_pos (by rw [hdx, hend]; exact Int.le_refl 80), hzero]
      have hforward : ((shown c).put ((shown c).index vga)
          (ch, ATTRIB)).forward vga =
          ((shown c).put ((shown c).index vga) (ch, ATTRIB)).move 0
            (c.screenY + 1) := if_pos hend
      rw [hforward]
      apply hwrap.congr
      exact { x := rfl, y := by rw [hdy]; rfl
              cell := fun i hi hi' => hput.cell i hi hi' }
    · rw [if_neg (by unfold NUM_COLS; omega)]
      have hforward : ((shown c).put ((shown c).index vga)
          (ch, ATTRIB)).forward vga =
          ((shown c).put ((shown c).index vga) (ch, ATTRIB)).move
            (c.screenX + 1) c.screenY := if_neg hend
      rw [hforward]
      apply hmove.congr
      exact { x := by rw [hdx]; rfl, y := hdy
              cell := fun i hi hi' => hput.cell i hi hi' }

theorem painted_eraseBack (c : Console)
    (hin : Screen.InBounds vga (shown c))
    (horigin : ¬(c.screenX = 0 ∧ c.screenY = 0)) :
    Painted c (eraseBack (stepBack c)) ((shown c).erase vga blankCell) := by
  have hback := hin.back horigin
  obtain ⟨hlo, hhi⟩ := hback.index_range
  -- the cell is addressed from one column further on
  have hcell : NUM_COLS * (stepBack c).screenY + (stepBack c).screenX - 1 =
      ((shown c).back vga).index vga := by
    unfold stepBack Screen.back Screen.index
    have hx : (shown c).x = c.screenX := rfl
    by_cases hzero : c.screenX = 0
    · rw [if_pos hzero, if_pos (hx.trans hzero), screenX_setXY, screenY_setXY]
      show 80 * (c.screenY - 1) + 80 - 1 = 80 * (c.screenY - 1) + (80 - 1)
      omega
    · rw [if_neg hzero, if_neg (hx ▸ hzero)]
      show 80 * c.screenY + c.screenX - 1 = 80 * c.screenY + (c.screenX - 1)
      omega
  have hstep : Painted c (stepBack c)
      ((shown c).move (stepBack c).screenX (stepBack c).screenY) := by
    unfold stepBack
    split
    · rw [screenX_setXY, screenY_setXY]
      exact painted_setXY c _ _
    · exact .refl c
  have hxy : (stepBack c).screenX - 1 = ((shown c).back vga).x ∧
      (stepBack c).screenY = ((shown c).back vga).y := by
    unfold stepBack Screen.back
    have hx : (shown c).x = c.screenX := rfl
    by_cases hzero : c.screenX = 0
    · rw [if_pos hzero, if_pos (hx.trans hzero), screenX_setXY, screenY_setXY]
      exact ⟨rfl, rfl⟩
    · rw [if_neg hzero, if_neg (hx ▸ hzero)]
      exact ⟨rfl, rfl⟩
  unfold eraseBack
  dsimp only
  rw [hcell]
  generalize stepBack c = b at hstep hxy ⊢
  have hput := hstep.trans (painted_putCell b hlo hhi 32)
  generalize putCell b (((shown c).back vga).index vga) 32 = d at hput ⊢
  have hdx : d.screenX = b.screenX := hput.screenX
  have hdy : d.screenY = b.screenY := hput.screenY
  apply (hput.trans (painted_setXY d (d.screenX - 1) d.screenY)).congr
  have horigin' : ¬((shown c).x = 0 ∧ (shown c).y = 0) := horigin
  rw [Screen.erase, if_neg horigin']
  refine { x := ?_, y := ?_, cell := ?_ }
  · show d.screenX - 1 = ((shown c).back vga).x
    rw [hdx, hxy.1]
  · show d.screenY = ((shown c).back vga).y
    rw [hdy, hxy.2]
  · intro i hi hi'
    have hnew := hput.cell i hi hi'
    have hold := hstep.cell i hi hi'
    have hsame : ((shown c).back vga).cell = (shown c).cell := by
      unfold Screen.back
      split <;> rfl
    show (shown d).cell i = _
    rw [hnew]
    simp only [Screen.put, Function.update_apply, hsame]
    split
    · rfl
    · exact hold

/-- `putc` does to the screen that is shown what a text screen does with the
character, and then shows the cursor.  A backspace at the origin is such a step
only while the running terminal is displayed. -/
theorem putc_painted (c : Console) (ch : Byte)
    (hin : Screen.InBounds vga (shown c))
    (hplace : ch = 8 → c.screenX = 0 → c.screenY = 0 →
      c.displayTerminal = c.currentTid) :
    ∃ d, putc c ch = showCursor d ∧ Painted c d (receiveChar (shown c) ch) := by
  unfold receiveChar
  by_cases hch : ch = 8
  · subst hch
    rw [if_pos rfl]
    by_cases horigin : c.screenX = 0 ∧ c.screenY = 0
    · refine ⟨c, putc_backspace_origin c ⟨horigin.1, horigin.2,
        hplace rfl horigin.1 horigin.2⟩, ?_⟩
      have hstay : (shown c).erase vga blankCell = shown c := if_pos horigin
      rw [hstay]
      exact .refl c
    · exact ⟨_, putc_backspace c fun h => horigin ⟨h.1, h.2.1⟩,
        painted_eraseBack c hin horigin⟩
  · rw [if_neg hch]
    refine ⟨_, putc_char c hch, ?_⟩
    have hadvance := painted_advance c ch hin
    generalize advance c ch = d at hadvance ⊢
    apply (hadvance.trans (painted_rollUp d)).congr
    apply (hadvance.agree.settle blankCell).trans
    split
    · exact .refl _
    · exact .refl _

end MongOS.Proofs.Painting
