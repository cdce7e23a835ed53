import Mathlib.Data.Nat.Digits.Lemmas
import MongOS.Model.Library
import MongOS.Proofs.CStrings
import MongOS.Verified.Segments

/-!
# Numbers in text

`itoa` stores the digits of a number from the lowest place on and then turns the
string around in place.  `itoa_eq` gives the array it leaves, `numeral` the text
in it, and `readNumeral` reads such a text back.
-/

namespace MongOS.Proofs.Numerals

open MongOS.Model
open MongOS.Verified
open MongOS.Proofs.CStrings

/-! ## `strrev` -/

theorem arrayBytes_eq (n : Nat) (a : Nat → Byte) : arrayBytes n a = readAt a 0 n := by
  unfold arrayBytes readAt
  exact List.map_congr_left fun j _ => congrArg a (Nat.zero_add j).symm

/-- The loop of `strrev` turns around what lies between its two indices. -/
theorem strrevLoop_eq (e b : Nat) (s : Nat → Byte) :
    strrevLoop e b s = reversed s b e := by
  induction e generalizing b s with
  | zero => exact (reversed_single s (Nat.zero_le b)).symm
  | succ e ih =>
      rw [strrevLoop]
      split
      · rename_i hlt
        rw [ih, swapBytes]
        exact reversed_outer s hlt
      · rename_i hge
        exact (reversed_single s (Nat.not_lt.1 hge)).symm

/-- A string that is stored in an array with its NUL. -/
theorem cstr_stored {l : List Byte} (hl : 0 ∉ l) {size : Nat}
    (hsize : l.length < size) (buf : Nat → Byte) :
    cstr (arrayBytes size (storeAt buf 0 (l ++ [0]))) = l := by
  obtain ⟨n, rfl⟩ := Nat.le.dest (Nat.succ_le_of_lt hsize)
  have hlength : (l ++ [0]).length = l.length.succ := by simp
  rw [arrayBytes_eq, readAt_append, ← hlength, readAt_storeAt, List.append_assoc,
    List.singleton_append, cstr_append_zero hl]

/-- `strrev` turns a string around in place and touches nothing else. -/
theorem strrev_stored {l : List Byte} (hl : 0 ∉ l) {size : Nat}
    (hsize : l.length < size) (buf : Nat → Byte) :
    strrev size (storeAt buf 0 (l ++ [0])) = storeAt buf 0 (l.reverse ++ [0]) := by
  unfold strrev
  rw [strlen_eq, cstr_stored hl hsize, strrevLoop_eq]
  have hturned := reversed_storeAt buf 0 l [0]
  rwa [Nat.zero_add] at hturned

/-! ## Digits -/

/-- The index of a digit in the table. -/
def digitValue (b : Byte) : Nat :=
  (str "0123456789ABCDEFGHIJKLMNOPQRSTUVWXYZ").idxOf b

/-- The number that a text of digits stands for. -/
def readNumeral (radix : Nat) (s : List Byte) : Nat :=
  s.foldl (fun n b => n * radix + digitValue b) 0

/-- The digits of a number, the highest place first. -/
def numeral (radix value : Nat) : List Byte :=
  if value = 0 then [48] else ((Nat.digits radix value).map lookup).reverse

theorem digitValue_lookup {i : Nat} (hi : i < 36) : digitValue (lookup i) = i := by
  have hall : ∀ i : Fin 36, digitValue (lookup i) = i := by decide
  exact hall ⟨i, hi⟩

theorem lookup_ne_zero {i : Nat} (hi : i < 36) : lookup i ≠ 0 := by
  have hall : ∀ i : Fin 36, lookup i ≠ 0 := by decide
  exact hall ⟨i, hi⟩

section Radix

variable {radix : Nat} (h2 : 2 ≤ radix) (h36 : radix ≤ 36)

include h2

theorem length_numeral (value : Nat) :
    (numeral radix value).length = Nat.log radix value + 1 := by
  unfold numeral
  split
  · rename_i hzero
    rw [hzero, Nat.log_zero_right]
    rfl
  · rename_i hne
    rw [List.length_reverse, List.length_map, Nat.length_digits radix value h2 hne]

/-- The loop of `itoa` stores the digits from the lowest place on. -/
theorem itoaLoop_eq (room value i : Nat) (buf : Nat → Byte) :
    itoaLoop radix room value i buf =
      if (Nat.digits radix value).length < room then
        some (storeAt buf i ((Nat.digits radix value).map lookup ++ [0]))
      else none := by
  induction room generalizing value i buf with
  | zero => rfl
  | succ room ih =>
      rw [itoaLoop]
      split
      · rename_i hzero
        subst hzero
        rw [Nat.digits_zero, if_pos (by simp)]
        simp [storeAt_cons]
      · rename_i hne
        rw [ih, Nat.digits_def' h2 (Nat.pos_of_ne_zero hne), List.length_cons,
          List.map_cons, List.cons_append, storeAt_cons]
        simp only [Nat.add_lt_add_iff_right]

include h36

theorem digit_lt {value d : Nat} (hd : d ∈ Nat.digits radix value) : d < 36 :=
  Nat.lt_of_lt_of_le (Nat.digits_lt_base h2 hd) h36

/-- The text consists of digits of the radix. -/
theorem mem_numeral {value : Nat} {b : Byte} (hb : b ∈ numeral radix value) :
    ∃ i < radix, b = lookup i := by
  unfold numeral at hb
  split at hb
  · exact ⟨0, by omega, List.mem_singleton.1 hb⟩
  · rw [List.mem_reverse, List.mem_map] at hb
    obtain ⟨d, hd, rfl⟩ := hb
    exact ⟨d, Nat.digits_lt_base h2 hd, rfl⟩

theorem zero_notMem_numeral (value : Nat) : 0 ∉ numeral radix value := by
  intro hmem
  obtain ⟨i, hi, hzero⟩ := mem_numeral h2 h36 hmem
  exact lookup_ne_zero (by omega) hzero.symm

/-- Reading a text back: the round trip. -/
theorem readNumeral_numeral (value : Nat) :
    readNumeral radix (numeral radix value) = value := by
  unfold readNumeral numeral
  split
  · rename_i hzero
    subst hzero
    simp [digitValue, str]
  · rw [List.foldl_reverse, List.foldr_map]
    have hdigits : ∀ ds : List Nat, (∀ d ∈ ds, d < 36) →
        ds.foldr (fun d n => n * radix + digitValue (lookup d)) 0 =
          Nat.ofDigits radix ds := by
      intro ds hds
      induction ds with
      | nil => rfl
      | cons d ds ih =>
          rw [List.foldr_cons, ih fun d' hd' => hds d' (.tail _ hd'),
            digitValue_lookup (hds d (.head _)), Nat.ofDigits_cons]
          rw [Nat.add_comm, Nat.mul_comm]
    rw [hdigits _ fun d hd => digit_lt h2 h36 hd, Nat.ofDigits_digits]

/-- Only the text of zero begins with the digit 0. -/
theorem head_numeral {value : Nat} (hvalue : value ≠ 0) :
    (numeral radix value).head? ≠ some 48 := by
  intro hhead
  have hne : Nat.digits radix value ≠ [] := Nat.digits_ne_nil_iff_ne_zero.2 hvalue
  rw [numeral, if_neg hvalue, List.head?_reverse, List.getLast?_map,
    List.getLast?_eq_some_getLast hne, Option.map_some, Option.some.injEq] at hhead
  have hlast := Nat.getLast_digit_ne_zero radix hvalue
  have hindex := digitValue_lookup (digit_lt h2 h36 (List.getLast_mem hne))
  rw [hhead] at hindex
  exact hlast (hindex.symm.trans (by decide))

/-- The array `itoa` leaves. -/
theorem itoa_eq (size value : Nat) (buf : Nat → Byte) :
    itoa size value buf radix =
      if (numeral radix value).length < size then
        some (storeAt buf 0 (numeral radix value ++ [0]))
      else none := by
  unfold itoa
  split
  · rename_i hzero
    subst hzero
    have htext : numeral radix 0 = [48] := rfl
    rw [htext]
    simp only [List.length_singleton]
    split
    · rw [if_neg (by omega)]
    · rw [if_pos (by omega)]
      simp [storeAt_cons]
  · rename_i hne
    have hnul : 0 ∉ (Nat.digits radix value).map lookup := by
      rw [List.mem_map]
      rintro ⟨d, hd, hzero⟩
      exact lookup_ne_zero (digit_lt h2 h36 hd) hzero
    rw [itoaLoop_eq h2, numeral, if_neg hne, List.length_reverse, List.length_map]
    split
    · rename_i hfits
      rw [Option.map_some, strrev_stored hnul (by rw [List.length_map]; exact hfits)]
    · rfl

end Radix

/-- `itoa` writes the shortest text that reads back as the number, in every
radix the digit table has: it stores this text and a NUL and nothing else, and
leaves an array exactly if the text with its NUL does not fit. -/
theorem itoa_writes_numeral (value radix : Nat) (h2 : 2 ≤ radix)
    (h36 : radix ≤ 36) :
    ∃ s : List Byte, (∀ b ∈ s, ∃ i < radix, b = lookup i) ∧
      readNumeral radix s = value ∧ s.length = Nat.log radix value + 1 ∧
      (value ≠ 0 → s.head? ≠ some 48) ∧
      ∀ size buf, itoa size value buf radix =
        if s.length < size then some (storeAt buf 0 (s ++ [0])) else none := by
  refine ⟨numeral radix value, fun b hb => mem_numeral h2 h36 hb,
    readNumeral_numeral h2 h36 value, length_numeral h2 value, ?_, ?_⟩
  · intro hvalue
    exact head_numeral h2 h36 hvalue
  · intro size buf
    exact itoa_eq h2 h36 size value buf

/-- The number 255 in hexadecimal. -/
theorem itoa_writes_ff :
    ∃ s : List Byte, (∀ b ∈ s, ∃ i < 16, b = lookup i) ∧ readNumeral 16 s = 255 ∧
      s.length = Nat.log 16 255 + 1 ∧ (255 ≠ 0 → s.head? ≠ some 48) ∧
      ∀ size buf, itoa size 255 buf 16 =
        if s.length < size then some (storeAt buf 0 (s ++ [0])) else none :=
  itoa_writes_numeral 255 16 (by decide) (by decide)

end MongOS.Proofs.Numerals
