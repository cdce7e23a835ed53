import MongOS.Verified.TextScreen
import Mathlib.Data.List.GetD

/-!
# The rows of a text, and the screen that shows them

A text is broken into rows: a row ends at a break and once it is as long as the
screen is wide.  A screen that receives the text from empty shows the last rows,
as many as it has, and the cursor is at the end of the last one.

* `breakRows` — the rows of a text.
* `Shows` — a screen shows the last rows of a list; the step lemmas are
  `Shows.newline` and `Shows.write`, for either `Shows.accept`.
-/

namespace MongOS.Verified.TextScreen

universe u v w

/-! ## Breaking a text -/

section Rows

variable {β : Type v} (cols : Nat) (isBreak : β → Prop) [DecidablePred isBreak]

/-- The rows of a text, of which `row` is the beginning of the first. -/
def breakRows : List β → List β → List (List β)
  | row, [] => [row]
  | row, b :: text =>
      if isBreak b then row :: breakRows [] text
      else if row.length + 1 = cols then (row ++ [b]) :: breakRows [] text
      else breakRows (row ++ [b]) text

/-- A text as rows that have ended and the one still open. -/
structure Rows (β : Type v) where
  ended : List (List β)
  last : List β

/-- All rows. -/
def Rows.all (t : Rows β) : List (List β) := t.ended ++ [t.last]

/-- Start a new row. -/
def Rows.close (t : Rows β) : Rows β := { ended := t.all, last := [] }

/-- Add to the open row. -/
def Rows.add (t : Rows β) (b : β) : Rows β := { t with last := t.last ++ [b] }

/-- The rows after one more element of the text. -/
def Rows.feed (t : Rows β) (b : β) : Rows β :=
  if isBreak b then t.close
  else if t.last.length + 1 = cols then (t.add b).close
  else t.add b

/-- Feeding a text element by element gives its rows. -/
theorem all_foldl_feed (text : List β) (t : Rows β) :
    (text.foldl (Rows.feed cols isBreak) t).all =
      t.ended ++ breakRows cols isBreak t.last text := by
  induction text generalizing t with
  | nil => rfl
  | cons b text ih =>
      rw [List.foldl_cons, ih, Rows.feed, breakRows]
      split
      case isTrue hbreak =>
        exact List.append_assoc t.ended [t.last] _
      case isFalse hchar =>
        split
        case isTrue hfull =>
          exact List.append_assoc t.ended [t.last ++ [b]] _
        case isFalse hroom => rfl

end Rows

/-! ## The screen -/

section Screens

variable {α : Type u} {β : Type v} (z : Size) (blank : α) (glyph : β → α)

/-- The number of rows that have left a screen when there are `n` of them. -/
def scrolledOff (n : Nat) : Nat := n - z.rows.toNat

/-- What is in column `j` of row `k` of the screen if it shows the last rows. -/
def shownCell (rows : List (List β)) (k j : Nat) : α :=
  ((rows.getD (scrolledOff z rows.length + k) []).map glyph).getD j blank

/-- The screen shows the last of `rows`, and the cursor is in the last row. -/
structure ShowsRows (rows : List (List β)) (s : Screen α) : Prop where
  y : s.y + 1 = min (rows.length : Int) z.rows
  cell : ∀ k j : Nat, k < z.rows → j < z.cols →
    s.cell (z.cols * k + j) = shownCell z blank glyph rows k j

/-- The screen shows the rows of a text, and the cursor is at its end. -/
structure Shows (t : Rows β) (s : Screen α) : Prop where
  room : t.last.length < z.cols
  x : s.x = t.last.length
  rows : ShowsRows z blank glyph t.all s

variable {z blank glyph} {rows ended : List (List β)} {row : List β} {t : Rows β}
variable {s s' : Screen α}

/-- Reading a list with one more element. -/
theorem getD_snoc {γ : Type w} (l : List γ) (a d : γ) (i : Nat) :
    (l ++ [a]).getD i d = if i = l.length then a else l.getD i d := by
  by_cases hlt : i < l.length
  · rw [List.getD_append _ _ _ _ hlt, if_neg (Nat.ne_of_lt hlt)]
  · by_cases hlast : i = l.length
    · subst hlast
      rw [List.getD_append_right _ _ _ _ (Nat.le_refl _), Nat.sub_self,
        if_pos rfl]
      rfl
    · rw [if_neg hlast, List.getD_eq_default _ _ (by simp; omega),
        List.getD_eq_default _ _ (by omega)]

/-- A position of the screen is a row and a column. -/
theorem index_eq_iff {k l i j : Nat} (hi : i < z.cols) (hj : j < z.cols) :
    z.cols * k + i = z.cols * l + j ↔ k = l ∧ i = j := by
  constructor
  · intro heq
    have hcol : (i : Int) = j := by
      have hmod := congrArg (· % z.cols) heq
      rw [Int.add_comm, Int.add_mul_emod_self_left,
        Int.add_comm (z.cols * l), Int.add_mul_emod_self_left,
        Int.emod_eq_of_lt (Int.natCast_nonneg i) hi,
        Int.emod_eq_of_lt (Int.natCast_nonneg j) hj] at hmod
      exact hmod
    have hrow : z.cols * (k : Int) = z.cols * l := by omega
    have hpos := z.cols_pos
    have hkl : (k : Int) = l := Int.eq_of_mul_eq_mul_left (by omega) hrow
    omega
  · intro heq
    rw [heq.1, heq.2]

/-- And it is one of its cells. -/
theorem index_range {k j : Nat} (hk : k < z.rows) (hj : j < z.cols) :
    0 ≤ z.cols * k + j ∧ z.cols * k + j < z.cols * z.rows := by
  have hcols := z.cols_pos
  have hlow : 0 ≤ z.cols * (k : Int) := Int.mul_nonneg (by omega) (by omega)
  have hnext : z.cols * ((k : Int) + 1) ≤ z.cols * z.rows :=
    Int.mul_le_mul_of_nonneg_left (by omega) (by omega)
  rw [Int.mul_add, Int.mul_one] at hnext
  omega

/-- While there is room below, a new row leaves the cells as they are. -/
theorem shownCell_newline_room (hroom : rows.length < z.rows) (k j : Nat) :
    shownCell z blank glyph (rows ++ [[]]) k j =
      shownCell z blank glyph rows k j := by
  have hbefore : scrolledOff z rows.length = 0 := by
    unfold scrolledOff
    omega
  have hafter : scrolledOff z (rows ++ [[]]).length = 0 := by
    unfold scrolledOff
    rw [List.length_append, List.length_singleton]
    omega
  unfold shownCell
  rw [hbefore, hafter, getD_snoc]
  split
  case isTrue hlast =>
    rw [List.getD_eq_default rows [] (Nat.le_of_eq hlast.symm)]
  case isFalse hother => rfl

/-- On a full screen a new row moves the rows up. -/
theorem shownCell_newline_full (hfull : z.rows ≤ rows.length) (k j : Nat) :
    shownCell z blank glyph (rows ++ [[]]) k j =
      shownCell z blank glyph rows (k + 1) j := by
  have hoff : scrolledOff z (rows ++ [[]]).length + k =
      scrolledOff z rows.length + (k + 1) := by
    unfold scrolledOff
    rw [List.length_append, List.length_singleton]
    omega
  unfold shownCell
  rw [hoff, getD_snoc]
  split
  case isTrue hlast =>
    rw [List.getD_eq_default rows [] (Nat.le_of_eq hlast.symm)]
  case isFalse hother => rfl

/-- Below the last row there are blanks. -/
theorem shownCell_below {k : Nat}
    (hbelow : rows.length ≤ scrolledOff z rows.length + k) (j : Nat) :
    shownCell z blank glyph rows k j = blank := by
  unfold shownCell
  rw [List.getD_eq_default _ _ hbelow]
  rfl

/-- Going to the next row. -/
theorem ShowsRows.newline (h : ShowsRows z blank glyph rows s) :
    ShowsRows z blank glyph (rows ++ [[]]) (s.newline z blank) := by
  have hy := h.y
  have hlength : (rows ++ [[]]).length = rows.length + 1 := by simp
  have hrows := z.rows_pos
  have hcols := z.cols_pos
  unfold Screen.newline Screen.settle
  have hmoved : (s.move 0 (s.y + 1)).y = s.y + 1 := rfl
  rw [hmoved]
  by_cases hfull : s.y + 1 = z.rows
  · have hmany : z.rows ≤ rows.length := by omega
    rw [if_pos hfull]
    constructor
    case y =>
      show z.rows - 1 + 1 = _
      rw [hlength]
      omega
    case cell =>
      intro k j hk hj
      rw [shownCell_newline_full hmany]
      show (if z.cols * (k : Int) + j < z.cols * (z.rows - 1) then
        s.cell (z.cols * k + j + z.cols) else blank) = _
      have hnext : z.cols * ((k : Int) + 1) = z.cols * k + z.cols := by
        rw [Int.mul_add, Int.mul_one]
      by_cases hlast : (k : Int) + 1 = z.rows
      · have hk' : (k : Int) = z.rows - 1 := by omega
        rw [if_neg (by rw [hk']; omega)]
        have hbelow : rows.length ≤ scrolledOff z rows.length + (k + 1) := by
          unfold scrolledOff
          omega
        exact (shownCell_below hbelow j).symm
      · have hrow : z.cols * ((k : Int) + 1) ≤ z.cols * (z.rows - 1) :=
          Int.mul_le_mul_of_nonneg_left (by omega) (by omega)
        rw [if_pos (by omega)]
        have hcell := h.cell (k + 1) j (by omega) hj
        rw [Int.natCast_succ, hnext] at hcell
        rw [← hcell]
        congr 1
        omega
  · have hroom : rows.length < z.rows := by omega
    rw [if_neg hfull]
    constructor
    case y =>
      show s.y + 1 + 1 = _
      rw [hlength]
      omega
    case cell =>
      intro k j hk hj
      rw [shownCell_newline_room hroom]
      exact h.cell k j hk hj

/-- Writing at the end of the last row. -/
theorem ShowsRows.put (h : ShowsRows z blank glyph (ended ++ [row]) s)
    (hx : s.x = row.length) (hroom : row.length < z.cols) (b : β) :
    ShowsRows z blank glyph (ended ++ [row ++ [b]])
      (s.put (s.index z) (glyph b)) := by
  have hy := h.y
  have hrows := z.rows_pos
  have hlength (r : List β) : (ended ++ [r]).length = ended.length + 1 := by
    simp
  rw [hlength] at hy
  -- the number of the last row on the screen
  obtain ⟨l, hl⟩ := Int.eq_ofNat_of_zero_le (show 0 ≤ s.y by omega)
  have hlast : scrolledOff z (ended.length + 1) + l = ended.length := by
    unfold scrolledOff
    omega
  have hindex : s.index z = z.cols * l + row.length := by
    rw [Screen.index, hl, hx]
  constructor
  case y =>
    rw [hlength]
    exact hy
  case cell =>
    intro k j hk hj
    have hold := h.cell k j hk hj
    unfold shownCell at hold ⊢
    rw [hlength, getD_snoc] at hold ⊢
    rw [hindex]
    show Function.update s.cell _ _ _ = _
    have hplace := index_eq_iff (z := z) (k := k) (l := l) hj hroom
    rw [Function.update_apply]
    by_cases hrow : k = l
    · subst hrow
      rw [if_pos hlast] at hold ⊢
      rw [List.map_append, List.map_singleton, getD_snoc, List.length_map,
        hold]
      by_cases hcol : j = row.length
      · rw [if_pos (hplace.2 ⟨rfl, hcol⟩), if_pos hcol]
      · rw [if_neg (fun h => hcol (hplace.1 h).2), if_neg hcol]
    · have hother : scrolledOff z (ended.length + 1) + k ≠ ended.length := by
        omega
      rw [if_neg hother] at hold ⊢
      rw [if_neg (fun h => hrow (hplace.1 h).1)]
      exact hold

theorem ShowsRows.move (h : ShowsRows z blank glyph rows s) (x : Int) :
    ShowsRows z blank glyph rows (s.move x s.y) :=
  { y := h.y, cell := h.cell }

/-- The last row is on the screen. -/
theorem ShowsRows.y_lt (h : ShowsRows z blank glyph rows s) : s.y < z.rows := by
  have hy := h.y
  omega

theorem newline_x (s : Screen α) : (s.newline z blank).x = 0 := by
  unfold Screen.newline Screen.settle
  split
  · rfl
  · rfl

/-- An empty screen shows the empty text. -/
theorem Shows.start (h : Screen.Agree z s (Screen.wiped blank)) :
    Shows z blank glyph { ended := [], last := [] } s := by
  have hrows := z.rows_pos
  have hcols := z.cols_pos
  constructor
  case room => exact hcols
  case x => exact h.x
  case rows =>
    constructor
    case y =>
      rw [h.y]
      show (0 : Int) + 1 = min 1 z.rows
      omega
    case cell =>
      intro k j hk hj
      have hrange := index_range hk hj
      rw [h.cell _ hrange.1 hrange.2]
      unfold shownCell
      have hempty (i : Nat) : ([[]] : List (List β)).getD i [] = [] := by
        cases i with
        | zero => rfl
        | succ i => rfl
      exact (congrArg (fun r : List β => (r.map glyph).getD j blank)
        (hempty _)).symm

/-- A screen that looks the same shows the same text. -/
theorem Shows.congr (h : Shows z blank glyph t s) (hs : Screen.Agree z s s') :
    Shows z blank glyph t s' where
  room := h.room
  x := hs.x.symm.trans h.x
  rows :=
    { y := by rw [← hs.y]; exact h.rows.y
      cell := by
        intro k j hk hj
        have hrange := index_range hk hj
        rw [← hs.cell _ hrange.1 hrange.2]
        exact h.rows.cell k j hk hj }

/-- The cursor is on the screen. -/
theorem Shows.inBounds (h : Shows z blank glyph t s) :
    Screen.InBounds z s := by
  have hx := h.x
  have hroom := h.room
  have hy := h.rows.y
  have hlength : t.all.length = t.ended.length + 1 := by simp [Rows.all]
  have hrows := z.rows_pos
  exact
    { x_nonneg := by omega
      x_lt := by omega
      y_nonneg := by omega
      y_lt := h.rows.y_lt }

/-- Going to the next row ends the open one. -/
theorem Shows.newline (h : Shows z blank glyph t s) :
    Shows z blank glyph t.close (s.newline z blank) :=
  { room := z.cols_pos
    x := newline_x s
    rows := h.rows.newline }

/-- A character is added to the open row, which ends if it is full. -/
theorem Shows.write (h : Shows z blank glyph t s) (b : β) :
    Shows z blank glyph
      (if t.last.length + 1 = z.cols.toNat then (t.add b).close else t.add b)
      (s.write z blank (glyph b)) := by
  have hroom := h.room
  have hx := h.x
  have hput := h.rows.put hx hroom b
  unfold Screen.write Screen.forward
  have hx' : (s.put (s.index z) (glyph b)).x = s.x := rfl
  rw [hx', hx]
  split
  case isTrue hfull =>
    rw [if_pos (by omega)]
    exact
      { room := z.cols_pos
        x := newline_x _
        rows := hput.newline }
  case isFalse hnext =>
    have hmove := hput.move (t.last.length + 1)
    rw [if_neg (by omega), Screen.settle,
      if_neg (Int.ne_of_lt hmove.y_lt)]
    exact
      { room := by
          show ((t.last ++ [b]).length : Int) < z.cols
          rw [List.length_append, List.length_singleton]
          omega
        x := by
          show (t.last.length : Int) + 1 = (t.last ++ [b]).length
          rw [List.length_append, List.length_singleton]
          rfl
        rows := hmove }

/-! ## Receiving a text -/

variable (isBreak : β → Prop) [DecidablePred isBreak]

variable (z blank glyph) in
/-- What a screen does with an element of a text. -/
def Screen.accept (s : Screen α) (b : β) : Screen α :=
  if isBreak b then s.newline z blank else s.write z blank (glyph b)

theorem Shows.accept (h : Shows z blank glyph t s) (b : β) :
    Shows z blank glyph (t.feed z.cols.toNat isBreak b)
      (s.accept z blank glyph isBreak b) := by
  unfold Rows.feed Screen.accept
  split
  case isTrue hbreak => exact h.newline
  case isFalse hchar => exact h.write b

end Screens

end MongOS.Verified.TextScreen
