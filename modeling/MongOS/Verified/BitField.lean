import Mathlib.Algebra.Ring.Nat
import Mathlib.Logic.Function.Basic

/-!
# Bit fields of machine words, and tables of words

A bit field is a range of bits of a word.  Assigning to a field replaces its
bits and keeps the others, so the field reads what was assigned and every
disjoint field what it read before; the fields may belong to different views of
the same word.

* `BitField.get_set_of_eq`, `BitField.get_set_of_disjoint` — the two rules.
* `foldl_range_establishes`, `foldl_range_preserves` — the rules for a loop
  over the entries of a table.
* `foldl_range_updateAt`, `foldl_updateAt_lookup` — tables that are filled entry
  by entry.
-/

namespace MongOS.Verified

universe u

/-! ## Fields of a word -/

/-- A range of `width` bits from bit `offset` on. -/
structure BitField where
  offset : Nat
  width : Nat
  deriving DecidableEq

namespace BitField

variable {n : Nat}

/-- The bits of a field in place. -/
def mask (f : BitField) : BitVec n :=
  (BitVec.allOnes f.width).setWidth n <<< f.offset

/-- Read a field. -/
def get (f : BitField) (v : BitVec n) : Nat :=
  (v.extractLsb' f.offset f.width).toNat

/-- Assign to a field; a value that does not fit is truncated. -/
def set (f : BitField) (x : Nat) (v : BitVec n) : BitVec n :=
  (v &&& ~~~ f.mask) ||| ((BitVec.ofNat f.width x).setWidth n <<< f.offset)

/-- The field lies in a word of `n` bits. -/
def Fits (f : BitField) (n : Nat) : Prop := f.offset + f.width ≤ n

/-- The fields have no bit in common. -/
def Disjoint (f g : BitField) : Prop :=
  f.offset + f.width ≤ g.offset ∨ g.offset + g.width ≤ f.offset

instance decidable_fits (f : BitField) (n : Nat) : Decidable (f.Fits n) :=
  inferInstanceAs (Decidable (_ ≤ _))

instance decidable_disjoint (f g : BitField) : Decidable (f.Disjoint g) :=
  inferInstanceAs (Decidable (_ ∨ _))

/-- The bits of a word after an assignment. -/
theorem getLsbD_set {f : BitField} (hf : f.Fits n) (x : Nat) (v : BitVec n)
    (i : Nat) :
    (f.set x v).getLsbD i =
      if f.offset ≤ i ∧ i < f.offset + f.width then
        (BitVec.ofNat f.width x).getLsbD (i - f.offset)
      else v.getLsbD i := by
  unfold Fits at hf
  unfold set mask
  by_cases hword : i < n
  · by_cases hlow : i < f.offset
    · rw [if_neg (by omega)]
      simp [hlow, hword]
    · by_cases hwidth : i - f.offset < f.width
      · rw [if_pos (by omega)]
        simp [hlow, hword, hwidth]
      · have hnone : (BitVec.ofNat f.width x).getLsbD (i - f.offset) = false :=
          BitVec.getLsbD_of_ge _ _ (by omega)
        rw [if_neg (by omega)]
        simp [hlow, hword, hwidth, hnone]
  · rw [if_neg (by omega), BitVec.getLsbD_of_ge _ _ (by omega),
      BitVec.getLsbD_of_ge _ _ (by omega)]

/-- A field reads what was assigned to it, under any name. -/
theorem get_set_of_eq {f g : BitField} (hf : f.Fits n) (hsame : g = f) (x : Nat)
    (v : BitVec n) : g.get (f.set x v) = x % 2 ^ f.width := by
  subst hsame
  have hbits : (g.set x v).extractLsb' g.offset g.width =
      BitVec.ofNat g.width x := by
    apply BitVec.eq_of_getLsbD_eq
    intro i hi
    have hin : g.offset ≤ g.offset + i ∧ g.offset + i < g.offset + g.width :=
      And.intro (Nat.le_add_right _ _) (Nat.add_lt_add_left hi _)
    rw [BitVec.getLsbD_extractLsb', getLsbD_set hf, if_pos hin,
      Nat.add_sub_cancel_left, decide_eq_true hi, Bool.true_and]
  rw [get, hbits, BitVec.toNat_ofNat]

/-- A disjoint field reads what it read before. -/
theorem get_set_of_disjoint {f g : BitField} (hf : f.Fits n)
    (hdisj : f.Disjoint g) (x : Nat) (v : BitVec n) :
    g.get (f.set x v) = g.get v := by
  have hbits : (f.set x v).extractLsb' g.offset g.width =
      v.extractLsb' g.offset g.width := by
    apply BitVec.eq_of_getLsbD_eq
    intro i hi
    unfold Disjoint at hdisj
    rw [BitVec.getLsbD_extractLsb', BitVec.getLsbD_extractLsb', getLsbD_set hf,
      if_neg (by omega)]
  rw [get, hbits, get]

end BitField

/-! ## Tables -/

section Tables

variable {α : Type u} {m : Nat → α}

/-- Apply a function to one entry. -/
def updateAt (m : Nat → α) (i : Nat) (f : α → α) : Nat → α :=
  Function.update m i (f (m i))

theorem updateAt_self (m : Nat → α) (i : Nat) (f : α → α) :
    updateAt m i f i = f (m i) := Function.update_self ..

theorem updateAt_of_ne {i j : Nat} (h : j ≠ i) (f : α → α) :
    updateAt m i f j = m j := Function.update_of_ne h ..

end Tables

/-! ## Loops -/

/-- What round `i` of a loop establishes holds after it if the later rounds
keep it. -/
theorem foldl_range_establishes {σ : Type u} (body : σ → Nat → σ)
    (P : σ → Prop) {i n : Nat} (hi : i < n) (hround : ∀ s, P (body s i))
    (hlater : ∀ s j, i < j → j < n → P s → P (body s j)) (s : σ) :
    P ((List.range n).foldl body s) := by
  induction n with
  | zero => omega
  | succ n ih =>
      rw [List.range_succ, List.foldl_append, List.foldl_cons, List.foldl_nil]
      by_cases hlast : i = n
      · subst hlast
        exact hround _
      · have hbefore := ih (by omega) fun s j hij hj => hlater s j hij (by omega)
        exact hlater _ n (by omega) (by omega) hbefore

/-- What every round of a loop keeps holds after it. -/
theorem foldl_range_preserves {σ : Type u} (body : σ → Nat → σ) (P : σ → Prop)
    {n : Nat} (hround : ∀ s j, j < n → P s → P (body s j)) {s : σ} (hs : P s) :
    P ((List.range n).foldl body s) := by
  induction n with
  | zero => exact hs
  | succ n ih =>
      rw [List.range_succ, List.foldl_append, List.foldl_cons, List.foldl_nil]
      have hbefore := ih fun s j hj => hround s j (by omega)
      exact hround _ n (by omega) hbefore

/-- A loop that changes entry `i` in round `i`. -/
theorem foldl_range_updateAt {α : Type u} (f : Nat → α → α) (m : Nat → α) (n j : Nat) :
    ((List.range n).foldl (fun m i => updateAt m i (f i)) m) j =
      if j < n then f j (m j) else m j := by
  induction n with
  | zero => rfl
  | succ n ih =>
      rw [List.range_succ, List.foldl_append, List.foldl_cons, List.foldl_nil]
      by_cases hlast : j = n
      · subst hlast
        rw [updateAt_self, ih, if_neg (Nat.lt_irrefl j), if_pos (Nat.lt_succ_self j)]
      · have hiff : j < n + 1 ↔ j < n := by omega
        rw [updateAt_of_ne hlast, ih]
        simp only [hiff]

/-- Changes of single entries, each of them at most once. -/
theorem foldl_updateAt_lookup {α β : Type u} (f : β → α → α) {l : List (Nat × β)}
    (hnodup : (l.map Prod.fst).Nodup) (m : Nat → α) (j : Nat) :
    (l.foldl (fun m e => updateAt m e.1 (f e.2)) m) j =
      ((l.lookup j).elim (m j) fun b => f b (m j)) := by
  induction l generalizing m with
  | nil => rfl
  | cons e l ih =>
      rw [List.map_cons, List.nodup_cons] at hnodup
      obtain ⟨hnew, hrest⟩ := hnodup
      rw [List.foldl_cons, ih hrest, List.lookup_cons]
      by_cases hj : j = e.1
      · have hnone : l.lookup j = none := by
          rw [List.lookup_eq_none_iff]
          intro p hp
          have hne : j ≠ p.1 := fun heq =>
            hnew (List.mem_map.2 (Exists.intro p ⟨hp, by rw [← heq, hj]⟩))
          exact bne_iff_ne.2 hne
        rw [hnone, hj, beq_self_eq_true]
        exact updateAt_self m e.1 (f e.2)
      · rw [beq_false_of_ne hj, updateAt_of_ne hj]

end MongOS.Verified
