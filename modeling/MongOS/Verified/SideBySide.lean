import Mathlib.Algebra.Ring.Nat
import Mathlib.Data.List.GetD

/-!
# Two lists side by side

Two lists are gone through together, to the end of the longer one; behind its end
the shorter one has a blank.  `sideBySide f blank k xs ys` collects what `f` makes
of the elements at each place, where the first place has the number `k`.

* `sideBySide_step` — place by place.
* `mem_sideBySide` — what is collected.
* `sideBySide_pairwise` — in which order.
-/

namespace MongOS.Verified

universe u v

variable {α : Type u} {β : Type v}

/-- What `f` makes of the elements at each place. -/
def sideBySide (f : Nat → α → α → List β) (blank : α) (k : Nat) (xs ys : List α) :
    List β :=
  (List.range (max xs.length ys.length)).flatMap fun i =>
    f (k + i) (xs.getD i blank) (ys.getD i blank)

variable {f : Nat → α → α → List β} {blank : α} {k : Nat} {xs ys : List α}

theorem mem_sideBySide {b : β} : b ∈ sideBySide f blank k xs ys ↔
    ∃ i, i < max xs.length ys.length ∧ b ∈ f (k + i) (xs.getD i blank) (ys.getD i blank) := by
  unfold sideBySide
  rw [List.mem_flatMap]
  simp only [List.mem_range]

theorem getD_succ (l : List α) (i : Nat) : l.getD (i + 1) blank = l.tail.getD i blank := by
  cases l <;> simp

/-- The first place, and the others. -/
theorem sideBySide_step (h : xs ≠ [] ∨ ys ≠ []) :
    sideBySide f blank k xs ys = f k (xs.headD blank) (ys.headD blank) ++
      sideBySide f blank (k + 1) xs.tail ys.tail := by
  have hcount : max xs.length ys.length =
      max xs.tail.length ys.tail.length + 1 := by
    have hx := List.length_tail (l := xs)
    have hy := List.length_tail (l := ys)
    have hpos : 0 < xs.length ∨ 0 < ys.length :=
      h.imp List.length_pos_iff.2 List.length_pos_iff.2
    omega
  have hhead : ∀ l : List α, l.getD 0 blank = l.headD blank := fun l => by
    cases l <;> rfl
  unfold sideBySide
  rw [hcount, List.range_succ_eq_map, List.flatMap_cons, List.flatMap_map, hhead, hhead,
    Nat.add_zero]
  refine congrArg (f k _ _ ++ ·) (congrArg (List.flatMap · _) (funext fun i => ?_))
  rw [getD_succ, getD_succ, Nat.succ_eq_add_one, Nat.add_right_comm, Nat.add_assoc]

/-- A relation that holds within what is collected at a place, and between what is
collected at a place and at a later one. -/
theorem sideBySide_pairwise {R : β → β → Prop}
    (hsame : ∀ i, (f (k + i) (xs.getD i blank) (ys.getD i blank)).Pairwise R)
    (hlater : ∀ i j, i < j → ∀ b ∈ f (k + i) (xs.getD i blank) (ys.getD i blank),
      ∀ c ∈ f (k + j) (xs.getD j blank) (ys.getD j blank), R b c) :
    (sideBySide f blank k xs ys).Pairwise R := by
  unfold sideBySide
  refine List.pairwise_flatMap.2 ⟨fun i _ => hsame i, ?_⟩
  exact List.pairwise_lt_range.imp fun {i j} hij => hlater i j hij

end MongOS.Verified
