import Mathlib.Data.Nat.Find
import MongOS.Proofs.CStrings

/-!
# Name lookup

The name that is looked up is the string behind `fname` without a carriage
return at its end (`trimmed`), and the name of an entry is the string in its
field, which fills the field if it has no NUL (`entryName`).  The lengths that
`read_dentry_by_name` computes are those of the two (`lengthOfName_eq`,
`lengthOfD_eq`), so the bounded comparison behind the comparison of the lengths
compares whole names, and the lookup finds the first entry with the name
(`lookup_exact`).  `nameTouches` lists the entries that it looks at on the way.
-/

namespace MongOS.Proofs.NameLookup

open MongOS.Model
open MongOS.Proofs.CStrings

/-- The name without a carriage return at its end. -/
def trimmed (name : List Byte) : List Byte :=
  if name.getLast? = some enter then name.dropLast else name

/-- The name in the field of an entry. -/
def entryName (d : Dentry) : List Byte := cstr d.filename

theorem prefix_trimmed (name : List Byte) : trimmed name <+: name := by
  unfold trimmed
  split
  · exact List.dropLast_prefix name
  · exact List.prefix_refl name

/-- The byte before the NUL is the last one of the name. -/
theorem last_byte {bytes : List Byte} (hname : strlen bytes ≠ 0) :
    (cstr bytes).getLast? = some (bytes.getD (strlen bytes - 1) 0) := by
  have hlength := strlen_eq bytes
  have hlt : strlen bytes - 1 < (cstr bytes).length := by omega
  have hprefix : cstr bytes <+: bytes := List.takeWhile_prefix _
  rw [List.getLast?_eq_getElem?, ← hlength, List.getElem?_eq_getElem hlt,
    hprefix.getElem hlt, List.getD_eq_getElem?_getD, List.getElem?_eq_getElem,
    Option.getD_some]

/-- `length_of_name` is the length of the trimmed name. -/
theorem lengthOfName_eq {fname : CStr} (hname : strlen fname.bytes ≠ 0)
    (hlen : strlen fname.bytes < 2 ^ 32) :
    lengthOfName fname = (trimmed (cstr fname.bytes)).length := by
  have hlast := last_byte hname
  have hlength := strlen_eq fname.bytes
  unfold lengthOfName trimmed
  rw [hlast, scanNul_eq]
  simp only [hname, if_false, Option.some.injEq]
  split
  · rw [List.length_dropLast]
    omega
  · omega

/-- `length_of_d` is the length of the name in the field. -/
theorem lengthOfD_eq {d : Dentry} (hfield : d.filename.length = FILE_NAME) :
    lengthOfD d = (entryName d).length := by
  have hle := strlen_le_length d.filename
  have hraw : strlen d.raw = if strlen d.filename < FILE_NAME then
      strlen d.filename else
      FILE_NAME + strlen (le32 d.type ++ le32 d.indexNode ++ d.reserved) := by
    rw [← hfield, ← strlen_append]
    simp only [Dentry.raw, List.append_assoc]
  unfold lengthOfD entryName
  rw [scanNul_eq, Nat.min_self, ← strlen_eq, hraw]
  dsimp only
  split
  · split <;> omega
  · split <;> omega

/-- The tests of the lookup loop compare whole names. -/
theorem dentryMatches_iff {fname : CStr} {d : Dentry}
    (hfield : d.filename.length = FILE_NAME) (hname : strlen fname.bytes ≠ 0)
    (hlen : strlen fname.bytes < 2 ^ 32) :
    dentryMatches fname (lengthOfName fname) d = true ↔
      entryName d = trimmed (cstr fname.bytes) := by
  have htake : (cstr fname.bytes).take (trimmed (cstr fname.bytes)).length =
      trimmed (cstr fname.bytes) :=
    (List.prefix_iff_eq_take.1 (prefix_trimmed _)).symm
  simp only [dentryMatches, Bool.and_eq_true, beq_iff_eq, strncmp_eq_zero_iff,
    lengthOfName_eq hname hlen, lengthOfD_eq hfield, htake]
  constructor
  · rintro ⟨hlength, hbytes⟩
    have hall : (cstr d.filename).take (trimmed (cstr fname.bytes)).length =
        entryName d := by
      rw [hlength]
      exact List.take_length
    rw [← hall, hbytes]
  · intro heq
    refine ⟨by rw [heq], ?_⟩
    rw [← heq]
    exact List.take_length

/-- The lookup goes through the directory until an entry has the name. -/
theorem readDentryByName_eq {fs : FileSys} {boot : BootBlock}
    (hboot : fs.bootB = some boot)
    (hfield : ∀ i < boot.numDirEntries,
      (boot.dirEntries i).filename.length = FILE_NAME)
    {fname : CStr} (hname : strlen fname.bytes ≠ 0)
    (hlen : strlen fname.bytes < 2 ^ 32) {d : Dentry} :
    readDentryByName fs fname = some d ↔
      (trimmed (cstr fname.bytes)).length ≤ FILE_NAME ∧
      ∃ i < boot.numDirEntries, boot.dirEntries i = d ∧
        entryName d = trimmed (cstr fname.bytes) ∧
        ∀ j < i, entryName (boot.dirEntries j) ≠ trimmed (cstr fname.bytes) := by
  have hmatch : ∀ i < boot.numDirEntries,
      dentryMatches fname (lengthOfName fname) (boot.dirEntries i) = true ↔
        entryName (boot.dirEntries i) = trimmed (cstr fname.bytes) :=
    fun i hi => dentryMatches_iff (hfield i hi) hname hlen
  unfold readDentryByName
  rw [hboot]
  dsimp only
  rw [lengthOfName_eq hname hlen] at hmatch ⊢
  by_cases hlong : (trimmed (cstr fname.bytes)).length > FILE_NAME
  · rw [if_pos hlong]
    simp [Nat.not_le.2 hlong]
  · rw [if_neg hlong, List.find?_map, Option.map_eq_some_iff]
    simp only [List.find?_range_eq_some, Function.comp_apply, List.mem_range,
      Bool.not_eq_true']
    constructor
    · rintro ⟨i, ⟨hfound, hi, hbefore⟩, rfl⟩
      refine ⟨Nat.not_lt.1 hlong, i, hi, rfl, (hmatch i hi).1 hfound, ?_⟩
      intro j hj heq
      have hearlier := hbefore j hj
      rw [(hmatch j (by omega)).2 heq] at hearlier
      cases hearlier
    · rintro ⟨-, i, hi, rfl, heq, hbefore⟩
      refine ⟨i, ⟨(hmatch i hi).2 heq, hi, ?_⟩, rfl⟩
      intro j hj
      rw [Bool.eq_false_iff, ne_eq, hmatch j (by omega)]
      exact hbefore j hj

/-- Name lookup is exact: it succeeds exactly if the trimmed name fits a field
and some entry has it, and then it delivers the first such entry. -/
theorem lookup_exact (fs : FileSys) (boot : BootBlock)
    (hboot : fs.bootB = some boot)
    (hfield : ∀ i < boot.numDirEntries,
      (boot.dirEntries i).filename.length = FILE_NAME)
    (fname : CStr) (hname : strlen fname.bytes ≠ 0)
    (hlen : strlen fname.bytes < 2 ^ 32) :
    ((readDentryByName fs fname).isSome ↔
      (trimmed (cstr fname.bytes)).length ≤ 32 ∧
      ∃ i < boot.numDirEntries,
        entryName (boot.dirEntries i) = trimmed (cstr fname.bytes)) ∧
    ∀ d, readDentryByName fs fname = some d →
      ∃ i < boot.numDirEntries, boot.dirEntries i = d ∧
        entryName d = trimmed (cstr fname.bytes) ∧
        ∀ j < i, entryName (boot.dirEntries j) ≠ trimmed (cstr fname.bytes) := by
  refine ⟨?_, fun d hfound => ?_⟩
  · constructor
    · intro hsome
      obtain ⟨d, hfound⟩ := Option.isSome_iff_exists.1 hsome
      obtain ⟨hfits, i, hi, rfl, heq, -⟩ :=
        (readDentryByName_eq hboot hfield hname hlen).1 hfound
      exact ⟨hfits, i, hi, heq⟩
    · rintro ⟨hfits, hexists⟩
      -- the first entry with the name
      have hfirst := Nat.find_spec hexists
      rw [Option.isSome_iff_exists]
      refine ⟨boot.dirEntries (Nat.find hexists),
        (readDentryByName_eq hboot hfield hname hlen).2
          ⟨hfits, Nat.find hexists, hfirst.1, rfl, hfirst.2, ?_⟩⟩
      intro j hj heq
      exact Nat.find_min hexists hj ⟨by omega, heq⟩
  · exact ((readDentryByName_eq hboot hfield hname hlen).1 hfound).2

/-- Two entries: a name that fills its field, and one that is a part of it. -/
def lettersBoot : BootBlock :=
  { numDirEntries := 2
    numInodes := 0
    numDataBlocks := 0
    dirEntries := fun i =>
      { filename :=
          if i = 0 then List.replicate 32 97
          else List.replicate 31 97 ++ [0]
        type := 2
        indexNode := 0
        reserved := List.replicate 24 0 } }

def lettersImage : FileSys :=
  { bootB := some lettersBoot
    inodeSt := fun _ => { size := 0, dataBlocks := fun _ => 0 }
    datab := fun _ => 0 }

/-- The name of 31 letters finds the second entry, with a carriage return or
without; the name of 33 letters finds none. -/
theorem letters_found :
    (readDentryByName lettersImage ⟨0, List.replicate 31 97 ++ [13]⟩).isSome ∧
    ¬ (readDentryByName lettersImage ⟨0, List.replicate 33 97⟩).isSome := by
  have hfield : ∀ i < lettersBoot.numDirEntries,
      (lettersBoot.dirEntries i).filename.length = FILE_NAME := by decide
  constructor
  · exact (lookup_exact lettersImage lettersBoot rfl hfield
      ⟨0, List.replicate 31 97 ++ [13]⟩ (by decide) (by decide)).1.2
        ⟨by decide, 1, by decide, by decide⟩
  · intro hfound
    exact absurd ((lookup_exact lettersImage lettersBoot rfl hfield
      ⟨0, List.replicate 33 97⟩ (by decide) (by decide)).1.1 hfound).1 (by decide)

/-! ## The entries the lookup looks at -/

/-- The entries a search looks at: up to the first that passes the test. -/
def searched (test : Nat → Bool) : List Nat → List Nat
  | [] => []
  | i :: is => if test i then [i] else i :: searched test is

theorem mem_of_searched {test : Nat → Bool} {is : List Nat} {i : Nat}
    (h : i ∈ searched test is) : i ∈ is := by
  induction is with
  | nil => exact h
  | cons j js ih =>
      rw [searched] at h
      split at h
      · rw [List.mem_singleton.1 h]
        exact List.mem_cons_self ..
      · rcases List.mem_cons.1 h with rfl | hmem
        · exact List.mem_cons_self ..
        · exact List.mem_cons_of_mem _ (ih hmem)

/-- Nothing else has a part in the search. -/
theorem find?_searched (test : Nat → Bool) (is : List Nat) :
    (searched test is).find? test = is.find? test := by
  induction is with
  | nil => rfl
  | cons i is ih =>
      rw [searched]
      cases htest : test i with
      | true => simp [htest]
      | false => simp [htest, ih]

/-- The entries that `read_dentry_by_name` looks at. -/
def nameTouches (fs : FileSys) (fname : CStr) : List Nat :=
  match fs.bootB with
  | none => []
  | some boot =>
      let n := lengthOfName fname
      if n > FILE_NAME then []
      else searched (fun i => dentryMatches fname n (boot.dirEntries i))
        (List.range boot.numDirEntries)

/-- The lookup is a search among the entries it looks at. -/
theorem readDentryByName_touches {fs : FileSys} {boot : BootBlock}
    (hboot : fs.bootB = some boot) (fname : CStr) :
    readDentryByName fs fname =
      ((nameTouches fs fname).map boot.dirEntries).find?
        (dentryMatches fname (lengthOfName fname)) := by
  unfold readDentryByName nameTouches
  rw [hboot]
  dsimp only
  split
  · rfl
  · rw [List.find?_map, List.find?_map]
    exact congrArg _ (find?_searched _ _).symm

end MongOS.Proofs.NameLookup
