import Mathlib.Data.List.GetD
import Mathlib.Logic.Function.Basic

/-!
# Segments of arrays

An array that a program indexes by numbers is a function.  `readAt m i n` lists
the `n` elements from index `i` on, and `storeAt m i l` is the array after the
list `l` has been stored from index `i` on.

* `readAt_storeAt`, `storeAt_of_lt`, `storeAt_of_ge` — what a store leaves.
* `storeAt_cons`, `storeAt_append`, `readAt_append` — piece by piece.
* `copy_up`, `copy_down` — a segment that is copied onto another, in either order.
* `reversed`, `reversed_storeAt` — a segment that is turned around in place.
-/

namespace MongOS.Verified

universe u

variable {α : Type u}

/-- The `n` elements from index `i` on. -/
def readAt (m : Nat → α) (i n : Nat) : List α := (List.range n).map fun j => m (i + j)

/-- The array with the list `l` from index `i` on. -/
def storeAt (m : Nat → α) (i : Nat) (l : List α) : Nat → α :=
  fun j => if i ≤ j then l.getD (j - i) (m j) else m j

section Segment

variable {m m' : Nat → α} {i n : Nat} {l : List α}

@[simp] theorem length_readAt (m : Nat → α) (i n : Nat) :
    (readAt m i n).length = n := by
  simp [readAt]

@[simp] theorem readAt_zero (m : Nat → α) (i : Nat) : readAt m i 0 = [] := rfl

theorem readAt_congr (h : ∀ j, i ≤ j → j < i + n → m j = m' j) :
    readAt m i n = readAt m' i n := by
  apply List.map_congr_left
  intro j hj
  have hlt := List.mem_range.1 hj
  exact h (i + j) (Nat.le_add_right i j) (by omega)

theorem readAt_succ (m : Nat → α) (i n : Nat) :
    readAt m i (n + 1) = m i :: readAt m (i + 1) n := by
  unfold readAt
  rw [List.range_succ_eq_map, List.map_cons, List.map_map]
  refine congrArg (m i :: ·) (List.map_congr_left fun j _ => ?_)
  exact congrArg m (by simp only [Nat.succ_eq_add_one]; omega)

theorem readAt_append (m : Nat → α) (i a b : Nat) :
    readAt m i (a + b) = readAt m i a ++ readAt m (i + a) b := by
  induction a generalizing i with
  | zero => simp
  | succ a ih =>
      have hsum : a + 1 + b = a + b + 1 := by omega
      have hindex : i + 1 + a = i + (a + 1) := by omega
      rw [hsum, readAt_succ, ih, readAt_succ, List.cons_append, hindex]

theorem mem_readAt {a : α} :
    a ∈ readAt m i n ↔ ∃ j, i ≤ j ∧ j < i + n ∧ m j = a := by
  simp only [readAt, List.mem_map, List.mem_range]
  constructor
  · rintro ⟨j, hj, rfl⟩
    exact ⟨i + j, by omega, by omega, rfl⟩
  · rintro ⟨j, hlo, hhi, rfl⟩
    exact ⟨j - i, by omega, congrArg m (by omega)⟩

theorem getElem?_readAt {j : Nat} (hj : j < n) :
    (readAt m i n)[j]? = some (m (i + j)) := by
  simp [readAt, hj]

theorem readAt_eq_replicate {a : α} (h : ∀ j, i ≤ j → j < i + n → m j = a) :
    readAt m i n = List.replicate n a := by
  apply List.eq_replicate_iff.2
  refine ⟨length_readAt m i n, fun b hb => ?_⟩
  obtain ⟨j, hlo, hhi, rfl⟩ := mem_readAt.1 hb
  exact h j hlo hhi

/-- A segment seen from another origin. -/
theorem readAt_shift (m : Nat → α) (k i n : Nat) :
    readAt (fun j => m (k + j)) i n = readAt m (k + i) n := by
  apply List.map_congr_left
  intro j _
  exact congrArg m (Nat.add_assoc k i j).symm

/-- A list read as an array. -/
theorem readAt_getD {l : List α} (h : n ≤ l.length) (d : α) :
    readAt (fun j => l.getD j d) 0 n = l.take n := by
  induction l generalizing n with
  | nil =>
      rw [List.length_nil, Nat.le_zero] at h
      rw [h, readAt_zero, List.take_zero]
  | cons a l ih =>
      cases n with
      | zero => rfl
      | succ n =>
          rw [List.length_cons, Nat.add_le_add_iff_right] at h
          rw [readAt_succ, List.take_succ_cons, ← ih h, ← readAt_shift _ 1 0]
          refine congrArg (a :: ·) (readAt_congr fun j _ _ => ?_)
          rw [Nat.add_comm, List.getD_cons_succ]

theorem drop_readAt (m : Nat → α) (i a n : Nat) :
    (readAt m i n).drop a = readAt m (i + a) (n - a) := by
  rcases Nat.le_total a n with hle | hle
  · obtain ⟨b, rfl⟩ := Nat.le.dest hle
    rw [readAt_append, List.drop_left' (length_readAt m i a), Nat.add_sub_cancel_left]
  · rw [Nat.sub_eq_zero_of_le hle, readAt_zero, List.drop_eq_nil_of_le]
    rw [length_readAt]
    exact hle

end Segment

section Store

variable {m : Nat → α} {i j : Nat} {l : List α}

theorem storeAt_of_lt (h : j < i) : storeAt m i l j = m j :=
  if_neg (Nat.not_le.2 h)

theorem storeAt_of_ge (h : i + l.length ≤ j) : storeAt m i l j = m j := by
  unfold storeAt
  rw [if_pos (by omega), List.getD_eq_default _ _ (by omega)]

theorem storeAt_congr {m' : Nat → α} (h : m j = m' j) :
    storeAt m i l j = storeAt m' i l j := by
  unfold storeAt
  rw [h]

@[simp] theorem storeAt_nil (m : Nat → α) (i : Nat) : storeAt m i [] = m := by
  funext j
  simp [storeAt]

/-- A store element by element. -/
theorem storeAt_cons (m : Nat → α) (i : Nat) (a : α) (l : List α) :
    storeAt m i (a :: l) = storeAt (Function.update m i a) (i + 1) l := by
  funext j
  rcases Nat.lt_trichotomy j i with hlt | rfl | hgt
  · rw [storeAt_of_lt hlt, storeAt_of_lt (by omega),
      Function.update_of_ne (by omega)]
  · have hhead : storeAt m j (a :: l) j = a := by simp [storeAt]
    rw [hhead, storeAt_of_lt (Nat.lt_succ_self j), Function.update_self]
  · have hindex : j - i = (j - (i + 1)) + 1 := by omega
    unfold storeAt
    rw [if_pos (by omega), if_pos (by omega), hindex, List.getD_cons_succ,
      Function.update_of_ne (by omega)]

theorem storeAt_append (m : Nat → α) (i : Nat) (l l' : List α) :
    storeAt m i (l ++ l') = storeAt (storeAt m i l) (i + l.length) l' := by
  induction l generalizing m i with
  | nil => simp
  | cons a l ih =>
      have hindex : i + 1 + l.length = i + (a :: l).length := by
        rw [List.length_cons]
        omega
      rw [List.cons_append, storeAt_cons, ih, hindex, storeAt_cons]

/-- What was stored is read back. -/
theorem readAt_storeAt (m : Nat → α) (i : Nat) (l : List α) :
    readAt (storeAt m i l) i l.length = l := by
  induction l generalizing m i with
  | nil => rfl
  | cons a l ih =>
      rw [List.length_cons, readAt_succ, storeAt_cons, ih,
        storeAt_of_lt (by omega), Function.update_self]

/-- A store and another behind it. -/
theorem storeAt_update (h : i + l.length ≤ j) (a : α) :
    storeAt (Function.update m j a) i l = Function.update (storeAt m i l) j a := by
  funext x
  by_cases hx : x = j
  · subst hx
    rw [Function.update_self, storeAt_of_ge h, Function.update_self]
  · rw [Function.update_of_ne hx]
    apply storeAt_congr
    exact Function.update_of_ne hx a m

/-- Copying a segment upwards in two pieces, to a place that is not inside it or is
below it. -/
theorem copy_up (m : Nat → α) (d s k n : Nat) (h : d ≤ s ∨ s + k + n ≤ d) :
    storeAt (storeAt m d (readAt m s k)) (d + k)
        (readAt (storeAt m d (readAt m s k)) (s + k) n) =
      storeAt m d (readAt m s (k + n)) := by
  have hkeep : readAt (storeAt m d (readAt m s k)) (s + k) n = readAt m (s + k) n := by
    apply readAt_congr
    intro j hlo hhi
    rcases h with hbelow | hbehind
    · exact storeAt_of_ge (by rw [length_readAt]; omega)
    · exact storeAt_of_lt (by omega)
  rw [hkeep, readAt_append, storeAt_append, length_readAt]

/-- Copying it downwards, the last element first, to a place above it. -/
theorem copy_down (m : Nat → α) {d s : Nat} (n : Nat) (h : s ≤ d) :
    storeAt (Function.update m (d + n) (m (s + n))) d
        (readAt (Function.update m (d + n) (m (s + n))) s n) =
      storeAt m d (readAt m s (n + 1)) := by
  have hkeep : readAt (Function.update m (d + n) (m (s + n))) s n = readAt m s n := by
    apply readAt_congr
    intro j hlo hhi
    exact Function.update_of_ne (by omega) _ m
  have hlast : readAt m (s + n) 1 = [m (s + n)] := rfl
  have hend : d + (readAt m s n).length ≤ d + n :=
    Nat.le_of_eq (congrArg (d + ·) (length_readAt m s n))
  rw [hkeep, readAt_append, storeAt_append, hlast, storeAt_cons, storeAt_nil,
    length_readAt, storeAt_update hend]

end Store

section Reverse

/-- The array with the elements from index `a` to index `b` turned around. -/
def reversed (m : Nat → α) (a b : Nat) : Nat → α :=
  fun j => if a ≤ j ∧ j ≤ b then m (a + b - j) else m j

/-- Turning a segment around from both ends: the outer pair is exchanged, and
then the inner segment is turned around. -/
theorem reversed_outer (m : Nat → α) {a b : Nat} (h : a < b + 1) :
    reversed (Function.update (Function.update m (b + 1) (m a)) a (m (b + 1)))
      (a + 1) b = reversed m a (b + 1) := by
  funext j
  unfold reversed
  by_cases hinner : a + 1 ≤ j ∧ j ≤ b
  · have hindex : a + 1 + b - j = a + (b + 1) - j := by omega
    rw [if_pos hinner, if_pos (by omega), hindex,
      Function.update_of_ne (by omega), Function.update_of_ne (by omega)]
  · rw [if_neg hinner]
    by_cases hleft : j = a
    · subst hleft
      rw [Function.update_self, if_pos (by omega)]
      exact congrArg m (by omega)
    · rw [Function.update_of_ne hleft]
      by_cases hright : j = b + 1
      · subst hright
        rw [Function.update_self, if_pos (by omega)]
        exact congrArg m (by omega)
      · rw [Function.update_of_ne hright, if_neg (by omega)]

theorem reversed_single (m : Nat → α) {a b : Nat} (h : b ≤ a) :
    reversed m a b = m := by
  funext j
  unfold reversed
  split
  · exact congrArg m (by omega)
  · rfl

/-- Turning a stored list around stores the reverse list. -/
theorem reversed_storeAt (m : Nat → α) (i : Nat) (l t : List α) :
    reversed (storeAt m i (l ++ t)) i (i + l.length - 1) =
      storeAt m i (l.reverse ++ t) := by
  by_cases hl : l = []
  · subst hl
    exact reversed_single _ (Nat.sub_le _ _)
  have hpos := List.length_pos_iff.2 hl
  funext j
  unfold reversed
  split
  · rename_i hj
    have hmirror : i + (i + l.length - 1) - j - i = l.length - 1 - (j - i) := by omega
    have hin : j - i < l.length := by omega
    have hin' : l.length - 1 - (j - i) < l.length := by omega
    unfold storeAt
    rw [if_pos (by omega), if_pos hj.1, hmirror, List.getD_append _ _ _ _ hin',
      List.getD_append _ _ _ _ (by rw [List.length_reverse]; exact hin),
      List.getD_eq_getElem _ _ hin',
      List.getD_eq_getElem _ _ (by rw [List.length_reverse]; exact hin),
      List.getElem_reverse]
  · rename_i hj
    rw [storeAt_append, storeAt_append, List.length_reverse]
    rcases Nat.lt_or_ge j i with hlt | hge
    · apply storeAt_congr
      rw [storeAt_of_lt hlt, storeAt_of_lt hlt]
    · apply storeAt_congr
      rw [storeAt_of_ge (by omega), storeAt_of_ge (by rw [List.length_reverse]; omega)]

end Reverse

end MongOS.Verified
