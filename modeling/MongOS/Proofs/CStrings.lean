import Mathlib.Data.List.GetD
import Mathlib.Data.List.TakeWhile
import MongOS.Model.FileSys

/-!
# Strings up to their NUL

`cstr bytes` is the string that C code sees behind a pointer to `bytes`.  The
string functions of the kernel are functions of it: `strlen` is its length,
the scan for a NUL its length below a bound, and `strncmp` compares its first
bytes.
-/

namespace MongOS.Proofs.CStrings

open MongOS.Model

/-- The bytes before the first NUL. -/
def cstr (bytes : List Byte) : List Byte := bytes.takeWhile (· != 0)

@[simp] theorem cstr_nil : cstr [] = [] := rfl

theorem cstr_cons (b : Byte) (bs : List Byte) :
    cstr (b :: bs) = if b = 0 then [] else b :: cstr bs := by
  unfold cstr
  rw [List.takeWhile_cons]
  by_cases hb : b = 0
  · simp [hb]
  · simp [hb]

theorem strlen_eq (bytes : List Byte) : strlen bytes = (cstr bytes).length := by
  induction bytes with
  | nil => rfl
  | cons b bs ih =>
      rw [strlen, cstr_cons, ih]
      split
      · rfl
      · rfl

/-- A string contains no NUL. -/
theorem zero_notMem_cstr (bytes : List Byte) : 0 ∉ cstr bytes := by
  intro hmem
  have hzero := List.mem_takeWhile_imp hmem
  simp at hzero

theorem cstr_eq_take (bytes : List Byte) :
    bytes.take (strlen bytes) = cstr bytes := by
  rw [strlen_eq]
  exact (List.prefix_iff_eq_take.1 (List.takeWhile_prefix _)).symm

/-- A list without NUL is its own string. -/
theorem cstr_of_zero_notMem {bytes : List Byte} (h : 0 ∉ bytes) :
    cstr bytes = bytes := by
  unfold cstr
  rw [List.takeWhile_eq_self_iff]
  intro b hb
  simp only [bne_iff_ne, ne_eq]
  rintro rfl
  exact h hb

/-- A string is determined by its bytes up to the NUL. -/
theorem cstr_congr {bytes bytes' : List Byte}
    (h : ∀ i ≤ strlen bytes, bytes.getD i 0 = bytes'.getD i 0) :
    cstr bytes = cstr bytes' := by
  induction bytes generalizing bytes' with
  | nil =>
      cases bytes' with
      | nil => rfl
      | cons b' bs' =>
          have hfirst : 0 = b' := h 0 (Nat.le_refl _)
          rw [cstr_cons, if_pos hfirst.symm, cstr_nil]
  | cons b bs ih =>
      have hfirst := h 0 (Nat.zero_le _)
      cases bytes' with
      | nil =>
          have hzero : b = 0 := hfirst
          rw [cstr_cons, if_pos hzero, cstr_nil]
      | cons b' bs' =>
          have hsame : b = b' := hfirst
          subst hsame
          rw [cstr_cons, cstr_cons]
          split
          · rfl
          · rename_i hb
            rw [ih fun i hi => h (i + 1) (by rw [strlen, if_neg hb]; omega)]

/-- A NUL ends a string, whatever follows. -/
theorem cstr_append_zero {bytes rest : List Byte} (h : 0 ∉ bytes) :
    cstr (bytes ++ 0 :: rest) = bytes := by
  induction bytes with
  | nil => rfl
  | cons b bs ih =>
      have hb : b ≠ 0 := fun hzero => h (hzero ▸ List.mem_cons_self ..)
      rw [List.cons_append, cstr_cons, if_neg hb,
        ih fun hmem => h (List.mem_cons_of_mem _ hmem)]

/-- The string in an array is the string behind its pointer, or the array has
no NUL and the string runs on. -/
theorem strlen_append (bytes rest : List Byte) :
    strlen (bytes ++ rest) =
      if strlen bytes < bytes.length then strlen bytes
      else bytes.length + strlen rest := by
  induction bytes with
  | nil => simp [strlen]
  | cons b bs ih =>
      rw [List.cons_append, strlen, strlen, ih]
      by_cases hb : b = 0
      · simp [hb]
      · simp only [hb, if_false, List.length_cons, Nat.add_lt_add_iff_right]
        split <;> omega

theorem strlen_le_length (bytes : List Byte) : strlen bytes ≤ bytes.length := by
  rw [strlen_eq]
  exact (List.takeWhile_prefix _).length_le

/-- The scan finds the NUL below its bound. -/
theorem scanNul_eq (bytes : List Byte) (n : Nat) :
    scanNul bytes n = min n (strlen bytes) := by
  induction bytes generalizing n with
  | nil => cases n <;> simp [scanNul, strlen]
  | cons b bs ih =>
      cases n with
      | zero => simp [scanNul]
      | succ n =>
          rw [scanNul, strlen, ih]
          split <;> omega

/-- A `char` is determined by its value. -/
theorem signed_sub_eq_zero {a b : Byte} : signed a - signed b = 0 ↔ a = b := by
  constructor
  · intro hsub
    have ha := a.toNat_lt
    have hb := b.toNat_lt
    apply UInt8.toNat_inj.1
    unfold signed at hsub
    split at hsub <;> split at hsub <;> omega
  · rintro rfl
    exact Int.sub_self _

/-- The first byte of a string, its NUL if it is empty. -/
theorem cstr_eq_of_headD (bytes : List Byte) :
    cstr bytes =
      if bytes.headD 0 = 0 then [] else bytes.headD 0 :: cstr bytes.tail := by
  cases bytes with
  | nil => rfl
  | cons b bs => exact cstr_cons b bs

/-- `strncmp` compares the first bytes of two strings. -/
theorem strncmp_eq_zero_iff (s1 s2 : List Byte) (n : Nat) :
    strncmp s1 s2 n = 0 ↔ (cstr s1).take n = (cstr s2).take n := by
  induction n generalizing s1 s2 with
  | zero => simp [strncmp]
  | succ n ih =>
      rw [strncmp, cstr_eq_of_headD s1, cstr_eq_of_headD s2]
      generalize s1.headD 0 = a
      generalize s2.headD 0 = b
      by_cases heq : a = b
      · subst heq
        by_cases hzero : a = 0
        · simp [hzero, signed]
        · simp [hzero, ih]
      · rw [if_pos (.inl heq), signed_sub_eq_zero]
        constructor
        · intro h
          exact absurd h heq
        · intro htake
          split at htake <;> split at htake <;> simp_all

/-! ## `strncpy` -/

/-- The first loop copies the string, as far as the bound allows. -/
theorem strncpyCopy_spec (src : List Byte) :
    ∀ (n i : Nat) (dest : Nat → Byte),
      strncpyCopy src n i dest =
        (i + min n (strlen src), fun j =>
          if i ≤ j ∧ j < i + min n (strlen src) then (cstr src).getD (j - i) 0
          else dest j) := by
  induction src with
  | nil =>
      intro n i dest
      have hnone : ∀ j, ¬ (i ≤ j ∧ j < i) := by omega
      cases n <;> simp [strncpyCopy, strlen, hnone]
  | cons b bs ih =>
      intro n i dest
      cases n with
      | zero =>
          have hnone : ∀ j, ¬ (i ≤ j ∧ j < i) := by omega
          simp [strncpyCopy, hnone]
      | succ n =>
          rw [strncpyCopy, strlen, cstr_cons]
          by_cases hb : b = 0
          · have hnone : ∀ j, ¬ (i ≤ j ∧ j < i) := by omega
            simp [hb, hnone]
          · simp only [hb, if_false]
            rw [ih]
            refine Prod.ext (by dsimp only; omega) (funext fun j => ?_)
            dsimp only
            -- the byte of this round, a later one, or none
            by_cases hlater : i + 1 ≤ j ∧ j < i + 1 + min n (strlen bs)
            · have hpos : j - i = j - (i + 1) + 1 := by omega
              rw [if_pos hlater, if_pos (by omega), hpos, List.getD_cons_succ]
            · rw [if_neg hlater]
              by_cases hhere : j = i
              · subst hhere
                rw [if_pos (by omega), Nat.sub_self, List.getD_cons_zero,
                  Function.update_self]
              · rw [if_neg (by omega), Function.update_of_ne hhere]

/-- The second loop stores zeros. -/
theorem strncpyPad_spec (n : Nat) :
    ∀ (i : Nat) (dest : Nat → Byte),
      strncpyPad n i dest = fun j => if i ≤ j ∧ j < i + n then 0 else dest j := by
  induction n with
  | zero =>
      intro i dest
      funext j
      rw [strncpyPad, if_neg (by omega)]
  | succ n ih =>
      intro i dest
      funext j
      rw [strncpyPad, ih]
      dsimp only
      by_cases hlater : i + 1 ≤ j ∧ j < i + 1 + n
      · rw [if_pos hlater, if_pos (by omega)]
      · rw [if_neg hlater]
        by_cases hhere : j = i
        · subst hhere
          rw [if_pos (by omega), Function.update_self]
        · rw [if_neg (by omega), Function.update_of_ne hhere]

/-- `strncpy` stores exactly `n` bytes: the string and zeros behind it, or the
first part of the string. -/
theorem strncpy_eq (dest : Nat → Byte) (src : List Byte) (n : Nat) :
    strncpy dest src n =
      fun j => if j < n then (cstr src).getD j 0 else dest j := by
  have hlength := strlen_eq src
  funext j
  simp only [strncpy, strncpyCopy_spec, strncpyPad_spec, Nat.zero_add,
    Nat.zero_le, true_and, Nat.sub_zero]
  by_cases hpad : min n (strlen src) ≤ j ∧
      j < min n (strlen src) + (n - min n (strlen src))
  · rw [if_pos hpad, if_pos (by omega), List.getD_eq_default _ _ (by omega)]
  · rw [if_neg hpad]
    by_cases hcopy : j < min n (strlen src)
    · rw [if_pos hcopy, if_pos (by omega)]
    · rw [if_neg hcopy, if_neg (by omega)]

end MongOS.Proofs.CStrings
