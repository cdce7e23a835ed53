/-!
# Integer frequency dividers

A divider counts ticks from 0, and at the `m`-th fires and starts again.  It
divides the frequency of the ticks by a whole number: of the frequencies below
`N` it delivers exactly those that divide `N`.

* `fires_iff_dvd`, `next_mod` — after `n` ticks the counter stands at `n % m`,
  and the next tick fires if it is a multiple of `m`.
* `fires_count` — `n` ticks fire `n / m` times.
* `rate_iff_dvd` — the divider for frequency `f` at `N` ticks a second fires
  `n * f / N` times in `n` ticks, for all `n`, exactly if `f` divides `N`.
-/

namespace MongOS.Verified.Divider

/-- A divider by `m` with its counter at `c` fires at the next tick. -/
def Fires (m c : Nat) : Prop := m ≤ c + 1

instance (m c : Nat) : Decidable (Fires m c) :=
  inferInstanceAs (Decidable (m ≤ c + 1))

/-- The counter after the next tick. -/
def next (m c : Nat) : Nat := if Fires m c then 0 else c + 1

variable {m : Nat}

theorem fires_iff_dvd (hm : 0 < m) (n : Nat) :
    Fires m (n % m) ↔ m ∣ n + 1 := by
  have hlt : n % m < m := Nat.mod_lt n hm
  have hsum : (n + 1) % m = (n % m + 1) % m := (Nat.mod_add_mod n m 1).symm
  rw [Nat.dvd_iff_mod_eq_zero, hsum, Fires]
  constructor
  · intro hle
    have hfull : n % m + 1 = m := by omega
    rw [hfull, Nat.mod_self]
  · intro hzero
    refine Classical.byContradiction fun hno => ?_
    rw [Nat.mod_eq_of_lt (by omega)] at hzero
    omega

theorem next_mod (hm : 0 < m) (n : Nat) : next m (n % m) = (n + 1) % m := by
  have hlt : n % m < m := Nat.mod_lt n hm
  have hiff := fires_iff_dvd hm n
  unfold next
  split
  case isTrue hfires =>
    exact (Nat.mod_eq_zero_of_dvd (hiff.1 hfires)).symm
  case isFalse hno =>
    have hroom : n % m + 1 < m := by
      unfold Fires at hno
      omega
    rw [← Nat.mod_add_mod n m 1, Nat.mod_eq_of_lt hroom]

/-- The number of fires steps with the fires. -/
theorem fires_count (hm : 0 < m) (n : Nat) :
    n / m + (if Fires m (n % m) then 1 else 0) = (n + 1) / m := by
  rw [Nat.succ_div]
  congr 1
  by_cases hdvd : m ∣ n + 1
  · rw [if_pos hdvd, if_pos ((fires_iff_dvd hm n).2 hdvd)]
  · rw [if_neg hdvd, if_neg fun h => hdvd ((fires_iff_dvd hm n).1 h)]

/-- A whole divider delivers the frequencies that divide the ticks'. -/
theorem rate_iff_dvd {f N : Nat} (hf : 0 < f) (hN : f ≤ N) :
    (∀ n, n / (N / f) = n * f / N) ↔ f ∣ N := by
  have hpos : 0 < N / f := Nat.div_pos hN hf
  constructor
  · intro hrate
    -- the first fire comes after `N / f` ticks, and no time is left over
    have hfirst := hrate (N / f)
    rw [Nat.div_self hpos] at hfirst
    have hle : N / f * f ≤ N := Nat.div_mul_le_self N f
    have hge : N ≤ N / f * f := by
      refine Classical.byContradiction fun hlt => ?_
      rw [Nat.div_eq_of_lt (Nat.lt_of_not_le hlt)] at hfirst
      cases hfirst
    exact ⟨N / f, by rw [Nat.mul_comm]; omega⟩
  · rintro ⟨d, rfl⟩ n
    rw [Nat.mul_div_cancel_left d hf, Nat.mul_comm n f,
      Nat.mul_div_mul_left n d hf]

/-- Any `N` ticks in a row then hold `f` fires. -/
theorem window {f N : Nat} (hN : 0 < N) (n : Nat) :
    (n + N) * f / N = n * f / N + f := by
  rw [Nat.add_mul, Nat.add_mul_div_left _ _ hN]

end MongOS.Verified.Divider
