import Mathlib.Algebra.Ring.Nat
import Mathlib.Data.Nat.Basic

/-!
# Periodic signals

A signal is high for `a` rounds, low for `b`, and so on.  It can be computed with
a counter of the rounds that are left until it changes; `High` and `roundsLeft` are
closed forms of the signal and of the counter.

* `high_succ`, `roundsLeft_succ` — one round.
* `roundsLeft_pos`, `roundsLeft_le` — the range of the counter.
-/

namespace MongOS.Verified

variable {a b n : Nat}

/-- The signal in round `n`. -/
def High (a b n : Nat) : Prop := n % (a + b) < a

instance (a b n : Nat) : Decidable (High a b n) := inferInstanceAs (Decidable (_ < _))

/-- The rounds that are left until the signal changes. -/
def roundsLeft (a b n : Nat) : Nat := (if High a b n then a else a + b) - n % (a + b)

/-- The rounds that a level lasts. -/
def lasts (a b n : Nat) : Nat := if High a b n then a else b

theorem high_zero (ha : 0 < a) : High a b 0 := by
  unfold High
  rwa [Nat.zero_mod]

theorem roundsLeft_zero (ha : 0 < a) : roundsLeft a b 0 = a := by
  unfold roundsLeft
  rw [if_pos (high_zero ha), Nat.zero_mod, Nat.sub_zero]

/-- Two levels of the same length. -/
theorem high_twice (ha : 0 < a) : High a a n ↔ n / a % 2 = 0 := by
  have hdiv := Nat.mod_lt n ha
  have hsplit : n % (a + a) = n % a + a * (n / a % 2) := by
    rw [← Nat.mul_two, Nat.mod_mul]
  unfold High
  rw [hsplit]
  rcases Nat.mod_two_eq_zero_or_one (n / a) with h | h
  · rw [h]
    omega
  · rw [h]
    omega

theorem mod_succ (ha : 0 < a) : (n + 1) % (a + b) =
    if n % (a + b) + 1 = a + b then 0 else n % (a + b) + 1 := by
  have hlt := Nat.mod_lt n (show 0 < a + b by omega)
  rw [Nat.add_mod_eq_ite]
  by_cases hone : a + b = 1
  · rw [hone, Nat.mod_one]
    rfl
  · rw [Nat.mod_eq_of_lt (a := 1) (by omega)]
    by_cases hlast : n % (a + b) + 1 = a + b
    · rw [if_pos (by omega), if_pos hlast]
      omega
    · rw [if_neg (by omega), if_neg hlast]

theorem roundsLeft_pos (ha : 0 < a) : 0 < roundsLeft a b n := by
  have hlt := Nat.mod_lt n (show 0 < a + b by omega)
  unfold roundsLeft
  by_cases h : High a b n
  · have hlow : n % (a + b) < a := h
    rw [if_pos h]
    omega
  · rw [if_neg h]
    omega

theorem roundsLeft_le : roundsLeft a b n ≤ lasts a b n := by
  unfold roundsLeft lasts
  by_cases h : High a b n
  · rw [if_pos h, if_pos h]
    exact Nat.sub_le ..
  · have hhigh : a ≤ n % (a + b) := Nat.not_lt.1 h
    rw [if_neg h, if_neg h]
    omega

/-- The signal changes when no round is left. -/
theorem high_succ (ha : 0 < a) (hb : 0 < b) :
    High a b (n + 1) ↔ if roundsLeft a b n = 1 then ¬High a b n else High a b n := by
  have hlt := Nat.mod_lt n (show 0 < a + b by omega)
  have hnext : High a b (n + 1) ↔
      (if n % (a + b) + 1 = a + b then 0 else n % (a + b) + 1) < a := by
    rw [← mod_succ ha]
    exact Iff.rfl
  rw [hnext]
  unfold roundsLeft
  by_cases h : High a b n
  · have hlow : n % (a + b) < a := h
    rw [if_pos h, if_neg (by omega)]
    split
    · exact iff_of_false (by omega) (not_not.2 h)
    · exact iff_of_true (by omega) h
  · have hhigh : a ≤ n % (a + b) := Nat.not_lt.1 h
    rw [if_neg h]
    split
    · rw [if_pos (by omega)]
      exact iff_of_true ha h
    · rw [if_neg (by omega)]
      exact iff_of_false (by omega) h

/-- The counter goes down, or starts again with the length of the other level. -/
theorem roundsLeft_succ (ha : 0 < a) (hb : 0 < b) : roundsLeft a b (n + 1) =
    if roundsLeft a b n = 1 then (if High a b n then b else a) else roundsLeft a b n - 1 := by
  have hlt := Nat.mod_lt n (show 0 < a + b by omega)
  have hnext := high_succ (n := n) ha hb
  have hlevel : roundsLeft a b (n + 1) = (if High a b (n + 1) then a else a + b) -
      (if n % (a + b) + 1 = a + b then 0 else n % (a + b) + 1) := by
    rw [← mod_succ ha]
    rfl
  rw [hlevel]
  by_cases h : High a b n
  · have hlow : n % (a + b) < a := h
    have hleft : roundsLeft a b n = a - n % (a + b) := by rw [roundsLeft, if_pos h]
    rw [hleft] at hnext ⊢
    rw [if_neg (by omega : n % (a + b) + 1 ≠ a + b), if_pos h]
    split at hnext
    · rw [if_neg fun hn => hnext.1 hn h, if_pos ‹_›]
      omega
    · rw [if_pos (hnext.2 h), if_neg ‹_›]
      omega
  · have hhigh : a ≤ n % (a + b) := Nat.not_lt.1 h
    have hleft : roundsLeft a b n = a + b - n % (a + b) := by rw [roundsLeft, if_neg h]
    rw [hleft] at hnext ⊢
    rw [if_neg h]
    split at hnext
    · rw [if_pos (hnext.2 h), if_pos (by omega), if_pos ‹_›]
      omega
    · rw [if_neg fun hn => h (hnext.1 hn), if_neg (by omega), if_neg ‹_›]
      omega

end MongOS.Verified
