import Mathlib.Data.List.GetD
import MongOS.Proofs.NameLookup
import MongOS.Proofs.SampleImage

/-!
# Splitting a command

A command is a word, spaces, and a rest that does not begin with a space
(`Parsed`).  `handle_command` puts the word into the name buffer and the rest
into the argument buffer, as long as the word fits: the loop over the word also
ends when the buffer is full, and then the rest of the word is taken for the
arguments, and `execute` looks for a program under the first 32 characters.
-/

namespace MongOS.Proofs.CommandLine

open MongOS.Model
open MongOS.Proofs.CStrings
open MongOS.Proofs.NameLookup
open MongOS.Proofs.SampleImage

/-! ## The loops -/

/-- The first loop of `handle_command` takes the first word, as far as it
fits. -/
theorem firstWord_eq (n : Nat) (command : List Byte) :
    firstWord n command = (command.takeWhile (· != 32)).take n := by
  induction command generalizing n with
  | nil => cases n <;> rfl
  | cons b bs ih =>
      cases n with
      | zero => rfl
      | succ n =>
          rw [firstWord, List.takeWhile_cons, ih]
          by_cases hspace : b = 32
          · simp [hspace]
          · simp [hspace]

/-- The first word of a command. -/
def commandWord (command : List Byte) : List Byte :=
  (cstr command).takeWhile (· != 32)

theorem handleCommand_name (command : List Byte) :
    (handleCommand command).1 =
      fun j => ((commandWord command).take FILE_NAME).getD j 0 := by
  unfold handleCommand commandWord
  dsimp only
  rw [firstWord_eq, cstr_eq_take]

/-- A list up to its first element without a property. -/
theorem takeWhile_append_stop {p : Byte → Bool} {bytes rest : List Byte}
    (hall : ∀ b ∈ bytes, p b = true) (hstop : ∀ b, rest.head? = some b → p b = false) :
    (bytes ++ rest).takeWhile p = bytes := by
  rw [List.takeWhile_append_of_pos hall]
  cases rest with
  | nil => simp
  | cons b rest => simp [hstop b rfl]

/-! ## A command in its parts -/

/-- The command `w ++ spaces ++ rest` of at most 128 bytes: `w` is its longest
prefix without a space, and the rest does not begin with one. -/
structure Parsed (w spaces rest : List Byte) : Prop where
  noNul : 0 ∉ w ++ spaces ++ rest
  nonempty : w ≠ []
  word : 32 ∉ w
  gap : ∀ b ∈ spaces, b = 32
  start : rest.head? ≠ some 32
  longest : spaces = [] → rest = []
  fits : (w ++ spaces ++ rest).length ≤ MAX_ARG_LENGTH

/-- What `handle_command` and `execute` are to make of it: the arguments are the
rest and nothing else, a word that fits the name buffer is the name, and for a
word that does not fit no program is run whose name is a part of it. -/
structure Splits (w spaces rest : List Byte) : Prop where
  args : ∀ j, (handleCommand (w ++ spaces ++ rest)).2 j = rest.getD j 0
  name : w.length ≤ FILE_NAME →
    ∀ j, (handleCommand (w ++ spaces ++ rest)).1 j = w.getD j 0
  noPart : w.length > FILE_NAME →
    ∀ (σ : Type) fs stk (k : Kernel σ) before esp ebp pid entAdd,
      (execute fs stk k (some ⟨before, w ++ spaces ++ rest⟩) esp ebp).2 =
        .enter pid entAdd →
      ∀ d, readDentryByName fs
          (fnamePtr stk (handleCommand (w ++ spaces ++ rest)).1) = some d →
        ¬ (entryName d <+: w ∧ entryName d ≠ w)

section Parts

variable {w spaces rest : List Byte}

/-- Behind the word comes a space or the end. -/
theorem Parsed.wordEnd (h : Parsed w spaces rest) :
    ∀ b, (spaces ++ rest).head? = some b → (b != 32) = false := by
  intro b hb
  cases hspaces : spaces with
  | nil =>
      rw [hspaces, h.longest hspaces] at hb
      cases hb
  | cons c cs =>
      rw [hspaces] at hb
      cases hb
      have hspace := h.gap b (hspaces ▸ List.mem_cons_self ..)
      simp [hspace]

/-- The word that the first loop takes. -/
theorem Parsed.firstWord (h : Parsed w spaces rest) (n : Nat) :
    Model.firstWord n (w ++ spaces ++ rest) = w.take n := by
  have hword : ∀ b ∈ w, (b != 32) = true := by
    intro b hb
    simp only [bne_iff_ne, ne_eq]
    rintro rfl
    exact h.word hb
  rw [firstWord_eq, List.append_assoc,
    takeWhile_append_stop hword h.wordEnd]

/-- The loops of `handle_command` see the whole command. -/
theorem Parsed.command (h : Parsed w spaces rest) :
    (w ++ spaces ++ rest).take (strlen (w ++ spaces ++ rest)) =
      w ++ spaces ++ rest := by
  rw [cstr_eq_take, cstr_of_zero_notMem h.noNul]

/-- A word that fits is the name, and the arguments are the rest. -/
theorem handleCommand_fits (h : Parsed w spaces rest)
    (hfits : w.length ≤ FILE_NAME) :
    handleCommand (w ++ spaces ++ rest) =
      (fun j => w.getD j 0, fun j => rest.getD j 0) := by
  have hspaces : (spaces ++ rest).takeWhile (· == 32) = spaces := by
    refine takeWhile_append_stop (fun b hb => ?_) (fun b hb => ?_)
    · simpa using h.gap b hb
    · simp only [beq_eq_false_iff_ne, ne_eq]
      rintro rfl
      exact h.start hb
  have hword : Model.firstWord FILE_NAME (w ++ spaces ++ rest) = w := by
    rw [h.firstWord, List.take_of_length_le hfits]
  have hdrop : (w ++ spaces ++ rest).drop w.length = spaces ++ rest := by
    rw [List.append_assoc, List.drop_left]
  have hrest : ((w ++ spaces ++ rest).take MAX_ARG_LENGTH).drop
      (w.length + spaces.length) = rest := by
    rw [List.take_of_length_le h.fits, ← List.length_append, List.drop_left]
  unfold handleCommand
  simp only [h.command, hword, hdrop, hspaces, hrest]

/-- Of a word that does not fit the name is the first part, and the arguments
begin with the other. -/
theorem handleCommand_long (h : Parsed w spaces rest)
    (hlong : w.length > FILE_NAME) :
    handleCommand (w ++ spaces ++ rest) =
      (fun j => (w.take FILE_NAME).getD j 0,
        fun j => (w.drop FILE_NAME ++ spaces ++ rest).getD j 0) := by
  have hlength : (w.take FILE_NAME).length = FILE_NAME := by
    rw [List.length_take]
    omega
  have hdrop : (w ++ spaces ++ rest).drop FILE_NAME =
      w.drop FILE_NAME ++ spaces ++ rest := by
    rw [List.append_assoc, List.append_assoc, List.drop_append_of_le_length
      (Nat.le_of_lt hlong)]
  have hnone : (w.drop FILE_NAME ++ spaces ++ rest).takeWhile (· == 32) = [] := by
    cases hword : w.drop FILE_NAME with
    | nil =>
        have hshort := List.drop_eq_nil_iff.1 hword
        omega
    | cons b bs =>
        have hne : b ≠ 32 := by
          rintro rfl
          refine h.word (List.mem_of_mem_drop (i := FILE_NAME) ?_)
          rw [hword]
          exact List.mem_cons_self ..
        simp [hne]
  have hrest : ((w ++ spaces ++ rest).take MAX_ARG_LENGTH).drop FILE_NAME =
      w.drop FILE_NAME ++ spaces ++ rest := by
    rw [List.take_of_length_le h.fits, hdrop]
  unfold handleCommand
  simp only [h.command, h.firstWord, hlength, hdrop, hnone, List.length_nil,
    Nat.add_zero, hrest]

end Parts

/-- A command of at most 128 bytes is split as it should be exactly if its first
word fits the name buffer. -/
theorem command_split_iff (w spaces rest : List Byte)
    (h : Parsed w spaces rest) :
    Splits w spaces rest ↔ w.length ≤ FILE_NAME := by
  constructor
  · intro hsplits
    by_contra hlong
    have hargs := hsplits.args rest.length
    rw [handleCommand_long h (Nat.not_le.1 hlong)] at hargs
    -- the arguments are longer than the rest, and no byte of them is a NUL
    have hlonger : rest.length < (w.drop FILE_NAME ++ spaces ++ rest).length := by
      simp only [List.length_append, List.length_drop]
      omega
    have hend : rest.getD rest.length 0 = 0 := by
      rw [List.getD_eq_default]
      exact Nat.le_refl _
    have hzero : (w.drop FILE_NAME ++ spaces ++ rest)[rest.length] = 0 := by
      rw [← List.getD_eq_getElem _ 0 hlonger]
      exact hargs.trans hend
    have hmem := List.getElem_mem hlonger
    rw [hzero] at hmem
    apply h.noNul
    simp only [List.mem_append] at hmem ⊢
    exact hmem.imp_left (Or.imp_left List.mem_of_mem_drop)
  · intro hfits
    have hcommand := handleCommand_fits h hfits
    refine ⟨fun j => ?_, fun _ j => ?_, fun hlong => ?_⟩
    · rw [hcommand]
    · rw [hcommand]
    · exact absurd hfits (Nat.not_le.2 hlong)

/-- The command `ls  -l`. -/
theorem ls_split : Splits [108, 115] [32, 32] [45, 108] :=
  (command_split_iff [108, 115] [32, 32] [45, 108]
    { noNul := by decide, nonempty := by decide, word := by decide
      gap := by simp, start := by decide, longest := by decide
      fits := by decide }).2 (by decide)

/-- An image whose program has a name of 32 letters. -/
def longNameImage : FileSys :=
  { shellImage with
    bootB := some
      { numDirEntries := 1
        numInodes := 1
        numDataBlocks := 1
        dirEntries := fun _ =>
          { shellEntry with filename := List.replicate 32 97 } } }

/-- Of a word of 33 letters the last one becomes an argument, and the program
with the name of 32 letters is run. -/
theorem long_word_divided :
    Parsed (List.replicate 33 97) [] [] ∧
    (handleCommand (List.replicate 33 97)).2 0 = 97 ∧
    (execute longNameImage ⟨0, []⟩ (idleKernel 0)
      (some ⟨0, List.replicate 33 97⟩) 0 0).2 = .enter 1 0x8048000 ∧
    ¬ Splits (List.replicate 33 97) [] [] := by
  have harg : (handleCommand (List.replicate 33 97)).2 0 = 97 := by decide
  refine ⟨?_, harg, rfl, ?_⟩
  · exact
      { noNul := by decide, nonempty := by decide, word := by decide
        gap := by simp, start := by decide, longest := by decide
        fits := by decide }
  · intro h
    have hempty := h.args 0
    rw [List.append_nil, List.append_nil, harg] at hempty
    exact absurd hempty (by decide)

end MongOS.Proofs.CommandLine
