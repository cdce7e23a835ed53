import MongOS.Verified.TextScreen

/-!
# A screen as a window on its scrollback

The rows that have left a screen, the rows it shows and the rows still to come
form one tape of cells, and the screen is a window of `rows` rows on it.  A
scroll moves the window, so the cells keep their places on the tape, and the
cursor has a place there that a character moves on by one and a backspace moves
back by one, whether or not a row ends there.

* `Window` — a screen that shows a tape from row `n` on.
* `Window.write`, `Window.erase` — the step lemmas.
* `home` — a cursor back on its place is back on its cell, further up by
  the rows that have scrolled.
-/

namespace MongOS.Verified.TextScreen

universe u

namespace Screen

variable {α : Type u} (z : Size) (blank : α)

/-- The rows a screen scrolls by when it receives a character. -/
def rolls (s : Screen α) : Int :=
  if s.x + 1 = z.cols ∧ s.y + 1 = z.rows then 1 else 0

/-- The place of the cursor on the tape when `n` rows have scrolled. -/
def place (s : Screen α) (n : Int) : Int := s.index z + z.cols * n

/-- The cells of a screen are those of `tape` from row `n` on, and the tape is
blank below them. -/
structure Covers (s : Screen α) (tape : Int → α) (n : Int) : Prop where
  cell : ∀ i, 0 ≤ i → i < z.cols * z.rows → s.cell i = tape (i + z.cols * n)
  below : ∀ a, z.cols * z.rows + z.cols * n ≤ a → tape a = blank

/-- The screen shows `tape` from row `n` on. -/
structure Window (s : Screen α) (tape : Int → α) (n : Int) : Prop
    extends Covers z blank s tape n where
  inBounds : InBounds z s

variable {z} {s s' : Screen α} {tape : Int → α} {n : Int}

theorem place_agree (h : Agree z s s') (n : Int) : s.place z n = s'.place z n := by
  unfold place index
  rw [h.x, h.y]

theorem rolls_range (s : Screen α) : s.rolls z = 0 ∨ s.rolls z = 1 := by
  unfold rolls
  split
  · exact .inr rfl
  · exact .inl rfl

/-- A character that scrolls is written in the last cell. -/
theorem place_of_rolls (h : s.rolls z ≠ 0) (n : Int) :
    s.place z n + 1 = z.cols * z.rows + z.cols * n := by
  unfold rolls at h
  split at h
  case isTrue hlast =>
    obtain ⟨hx, hy⟩ := hlast
    unfold place index
    rw [← hy, Int.mul_add, Int.mul_one]
    omega
  case isFalse => exact absurd rfl h

/-- The cell after the cursor, in the next row if this one ends. -/
theorem index_forward (s : Screen α) :
    (s.forward z).index z = s.index z + 1 := by
  unfold forward index
  split
  case isTrue hend =>
    simp only [move]
    rw [Int.mul_add, Int.mul_one]
    omega
  case isFalse =>
    simp only [move]
    omega

/-- The cursor leaves the last row at its end. -/
theorem forward_leaves (h : InBounds z s) :
    (s.forward z).y = z.rows ↔ s.x + 1 = z.cols ∧ s.y + 1 = z.rows := by
  have hy := h.y_lt
  unfold forward
  split
  case isTrue hend =>
    simp only [move]
    omega
  case isFalse hend =>
    simp only [move]
    omega

theorem index_back (s : Screen α) : (s.back z).index z = s.index z - 1 := by
  unfold back index
  split
  case isTrue hstart =>
    simp only [move]
    rw [Int.mul_sub, Int.mul_one]
    omega
  case isFalse =>
    simp only [move]
    omega

theorem cell_forward (s : Screen α) : (s.forward z).cell = s.cell := by
  unfold forward
  split <;> rfl

theorem cell_back (s : Screen α) : (s.back z).cell = s.cell := by
  unfold back
  split <;> rfl

namespace Covers

variable {blank}

theorem congr (h : Covers z blank s tape n)
    (hcell : ∀ i, 0 ≤ i → i < z.cols * z.rows → s'.cell i = s.cell i) :
    Covers z blank s' tape n where
  cell i hi hi' := (hcell i hi hi').trans (h.cell i hi hi')
  below := h.below

theorem put (h : Covers z blank s tape n) {i : Int} (hi : i < z.cols * z.rows)
    (a : α) :
    Covers z blank (s.put i a) (Function.update tape (i + z.cols * n) a) n where
  cell j hj hj' := by
    simp only [Screen.put, Function.update_apply]
    by_cases heq : j = i
    · rw [if_pos heq, if_pos (by rw [heq])]
    · rw [if_neg heq, if_neg (by omega)]
      exact h.cell j hj hj'
  below b hb := by
    rw [Function.update_of_ne (by omega)]
    exact h.below b hb

/-- A scroll moves the window on by a row. -/
theorem scroll (h : Covers z blank s tape n) :
    Covers z blank (s.scroll z blank) tape (n + 1) := by
  have hcols := z.cols_pos
  have hlast : z.cols * (z.rows - 1) = z.cols * z.rows - z.cols := by
    rw [Int.mul_sub, Int.mul_one]
  have hnext : z.cols * (n + 1) = z.cols * n + z.cols := by
    rw [Int.mul_add, Int.mul_one]
  constructor
  · intro i hi hi'
    simp only [Screen.scroll]
    by_cases hrow : i < z.cols * (z.rows - 1)
    · rw [if_pos hrow, h.cell (i + z.cols) (by omega) (by omega), hnext]
      congr 1
      omega
    · rw [if_neg hrow, h.below _ (by omega)]
  · intro a ha
    exact h.below a (by omega)

end Covers

namespace Window

variable {blank}

theorem agree (h : Window z blank s tape n) (hs : Agree z s' s) :
    Window z blank s' tape n where
  toCovers := h.toCovers.congr hs.cell
  inBounds := hs.symm.inBounds h.inBounds

/-- The place of the cursor is in the window. -/
theorem place_range (h : Window z blank s tape n) :
    z.cols * n ≤ s.place z n ∧ s.place z n < z.cols * z.rows + z.cols * n := by
  obtain ⟨hlow, hhigh⟩ := h.inBounds.index_range
  unfold place
  omega

/-- A screen, as a window on a tape that continues it with blanks. -/
theorem start (h : InBounds z s) :
    Window z blank s
      (fun a => if a < z.cols * z.rows then s.cell a else blank) 0 where
  cell i _ hi' := by
    rw [Int.mul_zero, Int.add_zero, if_pos hi']
  below a ha := by
    rw [Int.mul_zero, Int.add_zero] at ha
    exact if_neg (by omega)
  inBounds := h

/-- A character is written at the place of the cursor, which moves on by one. -/
theorem write (h : Window z blank s tape n) (a : α) :
    Window z blank (s.write z blank a)
        (Function.update tape (s.place z n) a) (n + s.rolls z) ∧
      (s.write z blank a).place z (n + s.rolls z) = s.place z n + 1 := by
  have hhigh := h.inBounds.index_range.2
  have hbounds := h.inBounds.write blank a
  have hleaves := forward_leaves (s := s.put (s.index z) a)
    { h.inBounds with }
  have hindex : ((s.put (s.index z) a).forward z).index z = s.index z + 1 :=
    index_forward _
  have hmoved : Covers z blank ((s.put (s.index z) a).forward z)
      (Function.update tape (s.place z n) a) n :=
    (h.toCovers.put hhigh a).congr fun i _ _ => by rw [cell_forward]
  have hwrite : s.write z blank a =
      ((s.put (s.index z) a).forward z).settle z blank := rfl
  rw [hwrite] at hbounds ⊢
  unfold settle at hbounds ⊢
  unfold rolls
  by_cases hroll : s.x + 1 = z.cols ∧ s.y + 1 = z.rows
  · -- the last cell of the screen: the new row begins where the cursor was to go
    rw [if_pos (hleaves.2 hroll)] at hbounds
    rw [if_pos (hleaves.2 hroll), if_pos hroll]
    refine ⟨{ hmoved.scroll with inBounds := hbounds }, ?_⟩
    obtain ⟨hend, hlast⟩ := hroll
    show z.cols * (z.rows - 1) + 0 + z.cols * (n + 1) =
      z.cols * s.y + s.x + z.cols * n + 1
    rw [← hlast, Int.add_sub_cancel, Int.mul_add, Int.mul_one]
    omega
  · rw [if_neg fun hrows => hroll (hleaves.1 hrows)] at hbounds
    rw [if_neg fun hrows => hroll (hleaves.1 hrows), if_neg hroll, Int.add_zero]
    refine ⟨{ hmoved with inBounds := hbounds }, ?_⟩
    unfold place
    omega

/-- A backspace off the origin blanks the cell before the cursor and goes
there. -/
theorem erase (h : Window z blank s tape n)
    (horigin : z.cols * n < s.place z n) :
    Window z blank (s.erase z blank)
        (Function.update tape (s.place z n - 1) blank) n ∧
      (s.erase z blank).place z n = s.place z n - 1 := by
  have hoff : ¬(s.x = 0 ∧ s.y = 0) := by
    rintro ⟨hx, hy⟩
    have hzero : s.place z n = z.cols * n := by
      rw [place, index, hx, hy, Int.mul_zero]
      omega
    omega
  have herase : s.erase z blank =
      (s.back z).put ((s.back z).index z) blank := if_neg hoff
  have hbounds := h.inBounds.erase blank
  have hback := (h.inBounds.back hoff).index_range.2
  have hcell : Covers z blank (s.back z) tape n :=
    h.toCovers.congr fun i _ _ => by rw [cell_back]
  have hplace : (s.back z).index z + z.cols * n = s.place z n - 1 := by
    rw [index_back, place]
    omega
  have hput := hcell.put hback blank
  rw [hplace] at hput
  rw [herase] at hbounds ⊢
  exact ⟨{ hput with inBounds := hbounds }, hplace⟩

end Window

/-- A cursor back on its place is back on its cell, further up by the rows that
have scrolled. -/
theorem home {s₀ : Screen α} (h₀ : InBounds z s₀) (h : InBounds z s)
    (hplace : s.place z n = s₀.place z 0) : s.x = s₀.x ∧ s.y + n = s₀.y := by
  have hsame : s.x + z.cols * (s.y + n) = s₀.x + z.cols * s₀.y := by
    unfold place index at hplace
    rw [Int.mul_zero, Int.add_zero] at hplace
    rw [Int.mul_add]
    omega
  have hcol : s.x = s₀.x := by
    have hmod := congrArg (· % z.cols) hsame
    rwa [Int.add_mul_emod_self_left, Int.add_mul_emod_self_left,
      Int.emod_eq_of_lt h.x_nonneg h.x_lt,
      Int.emod_eq_of_lt h₀.x_nonneg h₀.x_lt] at hmod
  have hrow : z.cols * (s.y + n) = z.cols * s₀.y := by omega
  have hcols := z.cols_pos
  exact ⟨hcol, Int.eq_of_mul_eq_mul_left (by omega) hrow⟩

end Screen

end MongOS.Verified.TextScreen
