import Mathlib.Algebra.Ring.Nat
import Mathlib.Logic.Function.Basic

/-!
# Stacks of words in memory

A memory of 32-bit words by address, and a stack in it that grows towards the
lower addresses, four bytes for a word.  `words s n` are the topmost `n` words,
the top first.  Addresses wrap around, so no more than `2 ^ 30` words are told
apart.

* `words_push`, `words_pushes` — a push, and a row of them.
* `words_take`, `words_drop` — the first words, and what is left behind them.
* `mem_pushes` — the memory a row of pushes does not write.
* `words_congr` — stacks at one address with the same words in memory.
-/

namespace MongOS.Verified

universe u

abbrev Word := BitVec 32

/-- The address of word `i` of the stack whose top is at `a`. -/
def slot (a : Word) (i : Nat) : Word := a + BitVec.ofNat 32 (4 * i)

section Slots

variable (a : Word) (i j : Nat)

@[simp] theorem slot_zero : slot a 0 = a := by
  simp [slot]

theorem slot_add : slot a (i + j) = slot (slot a i) j := by
  unfold slot
  rw [Nat.mul_add, BitVec.ofNat_add, BitVec.add_assoc]

theorem slot_one : slot a 1 = a + 4 := rfl

theorem slot_below : slot (a - 4) (i + 1) = slot a i := by
  have hback : slot (a - 4) 1 = a := BitVec.sub_add_cancel a 4
  rw [Nat.add_comm, slot_add, hback]

variable {a i j}

/-- Different words of a stack have different addresses. -/
theorem slot_inj (hi : i < 2 ^ 30) (hj : j < 2 ^ 30) (h : slot a i = slot a j) :
    i = j := by
  have hsame : BitVec.ofNat 32 (4 * i) = BitVec.ofNat 32 (4 * j) :=
    BitVec.add_right_inj a |>.1 h
  have hnat := congrArg BitVec.toNat hsame
  rw [BitVec.toNat_ofNat, BitVec.toNat_ofNat] at hnat
  omega

end Slots

/-- A memory and the address of the top of the stack. -/
structure WordStack (α : Type u) where
  mem : Word → α
  esp : Word

namespace WordStack

variable {α : Type u}

/-- Put a word on the stack. -/
def push (s : WordStack α) (v : α) : WordStack α :=
  { mem := Function.update s.mem (s.esp - 4) v, esp := s.esp - 4 }

/-- Put the words of a list on it, the last one on top. -/
def pushes (s : WordStack α) (vs : List α) : WordStack α := vs.foldl push s

/-- The word on top. -/
def top (s : WordStack α) : α := s.mem s.esp

/-- Leave out the first words. -/
def drop (s : WordStack α) (n : Nat) : WordStack α :=
  { s with esp := slot s.esp n }

/-- The topmost words. -/
def words : WordStack α → Nat → List α
  | _, 0 => []
  | s, n + 1 => s.top :: (s.drop 1).words n

variable (s : WordStack α)

@[simp] theorem length_words (n : Nat) : (s.words n).length = n := by
  induction n generalizing s with
  | zero => rfl
  | succ n ih => exact congrArg (· + 1) (ih (s.drop 1))

theorem drop_add (i j : Nat) : s.drop (i + j) = (s.drop i).drop j := by
  unfold drop
  rw [slot_add]

/-- Stacks at one address with the same words in memory. -/
theorem words_congr {s t : WordStack α} (hesp : s.esp = t.esp) {n : Nat}
    (h : ∀ i, i < n → s.mem (slot t.esp i) = t.mem (slot t.esp i)) :
    s.words n = t.words n := by
  induction n generalizing s t with
  | zero => rfl
  | succ n ih =>
      have hfirst := h 0 (Nat.succ_pos n)
      rw [slot_zero] at hfirst
      have hrest : (s.drop 1).words n = (t.drop 1).words n := by
        refine ih (congrArg (slot · 1) hesp) fun i hi => ?_
        have hone := h (1 + i) (by omega)
        rwa [slot_add] at hone
      have htop : s.top = t.top := by
        unfold top
        rw [hesp, hfirst]
      exact congrArg₂ List.cons htop hrest

/-- The words one by one. -/
theorem getElem?_words {n i : Nat} (hi : i < n) :
    (s.words n)[i]? = some (s.mem (slot s.esp i)) := by
  induction n generalizing s i with
  | zero => omega
  | succ n ih =>
      cases i with
      | zero =>
          rw [slot_zero]
          rfl
      | succ i =>
          have hslot : slot s.esp (i + 1) = slot (s.drop 1).esp i := by
            rw [Nat.add_comm, slot_add]
            rfl
          rw [hslot]
          exact ih (s.drop 1) (Nat.lt_of_succ_lt_succ hi)

theorem words_append (i j : Nat) :
    s.words (i + j) = s.words i ++ (s.drop i).words j := by
  induction i generalizing s with
  | zero =>
      unfold drop
      rw [slot_zero, Nat.zero_add]
      rfl
  | succ i ih =>
      have hsum : i + 1 + j = i + j + 1 := by omega
      have hdrop : s.drop (i + 1) = (s.drop 1).drop i := by
        rw [Nat.add_comm, drop_add]
      rw [hsum, hdrop]
      exact congrArg (s.top :: ·) (ih (s.drop 1))

/-- The first words of a list. -/
theorem words_take {s : WordStack α} {l k : List α} {n : Nat}
    (h : s.words (l.length + n) = l ++ k) : s.words l.length = l := by
  rw [words_append] at h
  exact (List.append_inj h (length_words s l.length)).1

/-- What is left behind the first words. -/
theorem words_drop {s : WordStack α} {l k : List α} {n : Nat}
    (h : s.words (l.length + n) = l ++ k) : (s.drop l.length).words n = k := by
  rw [words_append] at h
  exact (List.append_inj h (length_words s l.length)).2

/-! ## Pushing -/

theorem words_push (v : α) {n : Nat} (hn : n + 1 < 2 ^ 30) :
    (s.push v).words (n + 1) = v :: s.words n := by
  have htop : (s.push v).top = v := Function.update_self ..
  have hback : slot (s.esp - 4) 1 = s.esp := BitVec.sub_add_cancel s.esp 4
  have hrest : ((s.push v).drop 1).words n = s.words n := by
    apply words_congr hback
    intro i hi
    have hne : slot s.esp i ≠ s.esp - 4 := by
      intro heq
      rw [← slot_below, ← slot_zero (s.esp - 4), ← slot_add] at heq
      have hzero := slot_inj (by omega) (by omega) heq
      omega
    exact Function.update_of_ne hne v s.mem
  exact congrArg₂ List.cons htop hrest

theorem pushes_append (vs ws : List α) :
    (s.pushes vs).pushes ws = s.pushes (vs ++ ws) := List.foldl_append.symm

/-- A row of pushes leaves the words in the order in which they are popped. -/
theorem words_pushes (vs : List α) {n : Nat} (hn : vs.length + n < 2 ^ 30) :
    (s.pushes vs).words (vs.length + n) = vs.reverse ++ s.words n := by
  induction vs generalizing s n with
  | nil =>
      rw [List.length_nil, Nat.zero_add]
      rfl
  | cons v vs ih =>
      have hsum : (v :: vs).length + n = vs.length + (n + 1) := by
        rw [List.length_cons]
        omega
      rw [hsum] at hn ⊢
      rw [List.reverse_cons, List.append_assoc]
      exact (ih (s.push v) hn).trans
        (congrArg (vs.reverse ++ ·) (words_push s v (by omega)))

theorem slot_esp_pushes (vs : List α) : slot (s.pushes vs).esp vs.length = s.esp := by
  induction vs generalizing s with
  | nil => exact slot_zero s.esp
  | cons v vs ih =>
      have hback : slot (s.push v).esp 1 = s.esp := BitVec.sub_add_cancel s.esp 4
      rw [List.length_cons, slot_add]
      exact (congrArg (slot · 1) (ih (s.push v))).trans hback

/-- The stack as it was, behind a row of pushes. -/
theorem words_drop_pushes (vs : List α) {n : Nat} (hn : vs.length + n < 2 ^ 30) :
    ((s.pushes vs).drop vs.length).words n = s.words n := by
  have hwords := words_pushes s vs hn
  rw [← List.length_reverse] at hwords ⊢
  exact words_drop hwords

/-- The memory a row of pushes does not write. -/
theorem mem_pushes (vs : List α) {x : Word}
    (hx : ∀ i, i < vs.length → x ≠ slot (s.pushes vs).esp i) :
    (s.pushes vs).mem x = s.mem x := by
  induction vs generalizing s with
  | nil => rfl
  | cons v vs ih =>
      have hlast := hx vs.length (by simp)
      have hesp : slot ((s.push v).pushes vs).esp vs.length = s.esp - 4 :=
        slot_esp_pushes (s.push v) vs
      have hne : x ≠ s.esp - 4 := by
        rw [← hesp]
        exact hlast
      have hrest : ((s.push v).pushes vs).mem x = (s.push v).mem x :=
        ih (s.push v) fun i hi => hx i (by rw [List.length_cons]; omega)
      have hpush : (s.push v).mem x = s.mem x := by
        unfold push
        exact Function.update_of_ne hne v s.mem
      exact hrest.trans hpush

end WordStack

end MongOS.Verified
