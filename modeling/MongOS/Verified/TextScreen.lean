import Mathlib.Algebra.Order.Ring.Int
import Mathlib.Logic.Function.Basic

/-!
# Text screens

A screen of `cols × rows` cells with a cursor, as a terminal sees it: writing a
character moves the cursor on and wraps at the end of a row, a newline goes to
the next row, and the screen scrolls by one row when the cursor leaves the last
one.  Cell `cols * y + x` is the cell in column `x` of row `y`.

* `InBounds` — the cursor is on the screen; every operation keeps it so.
* `Agree` — two screens with the same cursor and the same visible cells; every
  operation takes screens that agree to screens that agree.
-/

namespace MongOS.Verified.TextScreen

universe u

/-- The size of a screen. -/
structure Size where
  cols : Int
  rows : Int
  cols_pos : 0 < cols
  rows_pos : 0 < rows

/-- The contents of a screen, and the cursor. -/
structure Screen (α : Type u) where
  cell : Int → α
  x : Int
  y : Int

namespace Screen

variable {α : Type u} (z : Size) (blank : α)

/-- Overwrite one cell. -/
def put (s : Screen α) (i : Int) (a : α) : Screen α :=
  { s with cell := Function.update s.cell i a }

/-- Move the cursor. -/
def move (s : Screen α) (x y : Int) : Screen α := { s with x := x, y := y }

/-- Scroll by one row; the cursor goes to the start of the last row. -/
def scroll (s : Screen α) : Screen α :=
  { cell := fun i =>
      if i < z.cols * (z.rows - 1) then s.cell (i + z.cols) else blank
    x := 0
    y := z.rows - 1 }

/-- Scroll if the cursor is below the last row. -/
def settle (s : Screen α) : Screen α :=
  if s.y = z.rows then s.scroll z blank else s

/-- Go to the next row. -/
def newline (s : Screen α) : Screen α := (s.move 0 (s.y + 1)).settle z blank

/-- The cell at the cursor. -/
def index (s : Screen α) : Int := z.cols * s.y + s.x

/-- Move the cursor one cell on. -/
def forward (s : Screen α) : Screen α :=
  if s.x + 1 = z.cols then s.move 0 (s.y + 1) else s.move (s.x + 1) s.y

/-- Write a character. -/
def write (s : Screen α) (a : α) : Screen α :=
  ((s.put (s.index z) a).forward z).settle z blank

/-- Move the cursor one cell back. -/
def back (s : Screen α) : Screen α :=
  if s.x = 0 then s.move (z.cols - 1) (s.y - 1) else s.move (s.x - 1) s.y

/-- Take back a character; at the origin there is none. -/
def erase (s : Screen α) : Screen α :=
  if s.x = 0 ∧ s.y = 0 then s
  else (s.back z).put ((s.back z).index z) blank

/-- The empty screen. -/
def wiped : Screen α := { cell := fun _ => blank, x := 0, y := 0 }

/-! ## The cursor stays on the screen -/

/-- The cursor is on the screen. -/
structure InBounds (s : Screen α) : Prop where
  x_nonneg : 0 ≤ s.x
  x_lt : s.x < z.cols
  y_nonneg : 0 ≤ s.y
  y_lt : s.y < z.rows

variable {z} {s s' : Screen α}

/-- Then the cell at the cursor is a cell of the screen. -/
theorem InBounds.index_range (h : InBounds z s) :
    0 ≤ s.index z ∧ s.index z < z.cols * z.rows := by
  obtain ⟨hx, hx', hy, hy'⟩ := h
  have hcols := z.cols_pos
  have hlow : 0 ≤ z.cols * s.y := Int.mul_nonneg (by omega) hy
  have hrow : z.cols * (s.y + 1) ≤ z.cols * z.rows :=
    Int.mul_le_mul_of_nonneg_left (by omega) (by omega)
  have hsucc : z.cols * (s.y + 1) = z.cols * s.y + z.cols := by
    rw [Int.mul_add, Int.mul_one]
  unfold index
  omega

theorem inBounds_settle (hx : 0 ≤ s.x) (hx' : s.x < z.cols) (hy : 0 ≤ s.y)
    (hy' : s.y ≤ z.rows) : InBounds z (s.settle z blank) := by
  have hcols := z.cols_pos
  have hrows := z.rows_pos
  unfold settle
  split
  · exact ⟨Int.le_refl 0, hcols, by simp only [scroll]; omega,
      by simp only [scroll]; omega⟩
  · exact ⟨hx, hx', hy, by omega⟩

theorem InBounds.newline (h : InBounds z s) :
    InBounds z (s.newline z blank) := by
  have hy := h.y_nonneg
  have hy' := h.y_lt
  have hcols := z.cols_pos
  exact inBounds_settle blank (Int.le_refl 0) hcols (by simp only [move]; omega)
    (by simp only [move]; omega)

theorem InBounds.write (h : InBounds z s) (a : α) :
    InBounds z (s.write z blank a) := by
  obtain ⟨hx, hx', hy, hy'⟩ := h
  have hcols := z.cols_pos
  have hforward : 0 ≤ ((s.put (s.index z) a).forward z).x ∧
      ((s.put (s.index z) a).forward z).x < z.cols ∧
      0 ≤ ((s.put (s.index z) a).forward z).y ∧
      ((s.put (s.index z) a).forward z).y ≤ z.rows := by
    unfold forward
    split
    · simp only [move, put]
      omega
    · rename_i hne
      simp only [move, put] at hne ⊢
      omega
  obtain ⟨h1, h2, h3, h4⟩ := hforward
  exact inBounds_settle blank h1 h2 h3 h4

theorem InBounds.back (h : InBounds z s) (horigin : ¬(s.x = 0 ∧ s.y = 0)) :
    InBounds z (s.back z) := by
  obtain ⟨hx, hx', hy, hy'⟩ := h
  unfold Screen.back
  split
  · constructor <;> simp only [move] <;> omega
  · constructor <;> simp only [move] <;> omega

theorem InBounds.erase (h : InBounds z s) : InBounds z (s.erase z blank) := by
  unfold Screen.erase
  split
  · exact h
  · rename_i horigin
    obtain ⟨hx, hx', hy, hy'⟩ := h.back horigin
    exact ⟨hx, hx', hy, hy'⟩

theorem inBounds_wiped : InBounds z (wiped blank) :=
  ⟨Int.le_refl 0, z.cols_pos, Int.le_refl 0, z.rows_pos⟩

/-! ## Screens that look the same -/

variable (z) in
/-- The same cursor and the same visible cells. -/
structure Agree (s s' : Screen α) : Prop where
  x : s.x = s'.x
  y : s.y = s'.y
  cell : ∀ i, 0 ≤ i → i < z.cols * z.rows → s.cell i = s'.cell i

namespace Agree

theorem refl (s : Screen α) : Agree z s s :=
  { x := rfl, y := rfl, cell := fun _ _ _ => rfl }

theorem symm (h : Agree z s s') : Agree z s' s :=
  { x := h.x.symm, y := h.y.symm
    cell := fun i hi hi' => (h.cell i hi hi').symm }

theorem trans {s'' : Screen α} (h : Agree z s s') (h' : Agree z s' s'') :
    Agree z s s'' :=
  { x := h.x.trans h'.x, y := h.y.trans h'.y
    cell := fun i hi hi' => (h.cell i hi hi').trans (h'.cell i hi hi') }

theorem inBounds (h : Agree z s s') (hs : InBounds z s) : InBounds z s' := by
  obtain ⟨hx, hx', hy, hy'⟩ := hs
  rw [h.x] at hx hx'
  rw [h.y] at hy hy'
  exact ⟨hx, hx', hy, hy'⟩

theorem move (h : Agree z s s') (x y : Int) :
    Agree z (s.move x y) (s'.move x y) :=
  { x := rfl, y := rfl, cell := h.cell }

theorem put (h : Agree z s s') (i : Int) (a : α) :
    Agree z (s.put i a) (s'.put i a) where
  x := h.x
  y := h.y
  cell j hj hj' := by
    simp only [Screen.put, Function.update_apply]
    rw [h.cell j hj hj']

theorem scroll (h : Agree z s s') :
    Agree z (s.scroll z blank) (s'.scroll z blank) where
  x := rfl
  y := rfl
  cell i hi hi' := by
    have hcols := z.cols_pos
    have hlast : z.cols * (z.rows - 1) + z.cols = z.cols * z.rows := by
      rw [Int.mul_sub, Int.mul_one]
      omega
    simp only [Screen.scroll]
    split
    · exact h.cell (i + z.cols) (by omega) (by omega)
    · rfl

theorem settle (h : Agree z s s') :
    Agree z (s.settle z blank) (s'.settle z blank) := by
  unfold Screen.settle
  rw [h.y]
  split
  · exact h.scroll blank
  · exact h

theorem newline (h : Agree z s s') :
    Agree z (s.newline z blank) (s'.newline z blank) := by
  unfold Screen.newline
  rw [h.y]
  exact (h.move 0 _).settle blank

theorem write (h : Agree z s s') (a : α) :
    Agree z (s.write z blank a) (s'.write z blank a) := by
  have hput : Agree z (s.put (s.index z) a) (s'.put (s'.index z) a) := by
    have hindex : s.index z = s'.index z := by
      simp only [Screen.index, h.x, h.y]
    rw [hindex]
    exact h.put _ a
  have hforward : Agree z ((s.put (s.index z) a).forward z)
      ((s'.put (s'.index z) a).forward z) := by
    unfold Screen.forward
    rw [hput.x, hput.y]
    split
    · exact hput.move _ _
    · exact hput.move _ _
  exact hforward.settle blank

theorem erase (h : Agree z s s') :
    Agree z (s.erase z blank) (s'.erase z blank) := by
  unfold Screen.erase
  rw [h.x, h.y]
  split
  · exact h
  · have hback : Agree z (s.back z) (s'.back z) := by
      unfold Screen.back
      rw [h.x, h.y]
      split
      · exact h.move _ _
      · exact h.move _ _
    have hindex : (s.back z).index z = (s'.back z).index z := by
      simp only [Screen.index, hback.x, hback.y]
    rw [hindex]
    exact hback.put _ blank

end Agree

end Screen

end MongOS.Verified.TextScreen
