import MongOS.Proofs.CommandLine

/-!
# What the lookup reads through `fname`

`execute` passes its array `fname` of 32 bytes to `read_dentry_by_name`, which
takes it for a string that is not empty.  `lookupReads` lists the offsets from
the pointer at which it reads, loop by loop.  The array holds such a string
exactly for the commands whose first word has between 1 and 31 characters: a
longer one leaves no room for the NUL, and behind an empty one the byte before
the array is taken for its last character.
-/

namespace MongOS.Proofs.FnameReads

open MongOS.Model
open MongOS.Proofs.CStrings
open MongOS.Proofs.NameLookup
open MongOS.Proofs.CommandLine
open MongOS.Proofs.SampleImage

/-! ## The reads of each loop -/

/-- `strlen` of a string from offset `i` on reads up to the NUL. -/
def strlenReads : List Byte → Int → List Int
  | [], i => [i]
  | b :: bs, i => i :: if b = 0 then [] else strlenReads bs (i + 1)

/-- The scan for a NUL reads up to it, and below its bound. -/
def scanReads : List Byte → Nat → Int → List Int
  | _, 0, _ => []
  | [], _ + 1, i => [i]
  | b :: bs, n + 1, i => i :: if b = 0 then [] else scanReads bs n (i + 1)

/-- `strncmp` reads its second string up to the first difference or the NUL, and
below its bound. -/
def strncmpReads (s1 s2 : List Byte) : Nat → Int → List Int
  | 0, _ => []
  | n + 1, i =>
      i :: if s1.headD 0 ≠ s2.headD 0 ∨ s1.headD 0 = 0 then []
        else strncmpReads s1.tail s2.tail n (i + 1)

/-- The reads of `read_dentry_by_name` through `fname`: `strlen`, the byte
before the NUL, the scan, and the comparison with each entry that has a name of
the same length. -/
def lookupReads (fs : FileSys) (fname : CStr) : List Int :=
  match fs.bootB with
  | none => []
  | some boot =>
      let n := strlen fname.bytes
      let last := if n = 0 then fname.before else fname.bytes.getD (n - 1) 0
      let bound := if last = enter then (n + (2 ^ 32 - 1)) % 2 ^ 32 else n
      let length := lengthOfName fname
      strlenReads fname.bytes 0 ++ [(n : Int) - 1] ++
        scanReads fname.bytes bound 0 ++
        (nameTouches fs fname).flatMap fun i =>
          let tmp := boot.dirEntries i
          if length = lengthOfD tmp then
            strncmpReads tmp.filename fname.bytes length 0
          else []

theorem mem_strlenReads {bytes : List Byte} {i x : Int} :
    x ∈ strlenReads bytes i ↔ i ≤ x ∧ x ≤ i + strlen bytes := by
  induction bytes generalizing i with
  | nil =>
      simp only [strlenReads, strlen, List.mem_singleton]
      omega
  | cons b bs ih =>
      rw [strlenReads, strlen, List.mem_cons]
      split
      · simp only [List.not_mem_nil, or_false, Int.natCast_zero]
        omega
      · rw [ih]
        omega

theorem scanReads_range {bytes : List Byte} {n : Nat} {i x : Int}
    (h : x ∈ scanReads bytes n i) : i ≤ x ∧ x < i + n ∧ x ≤ i + strlen bytes := by
  induction bytes generalizing n i with
  | nil =>
      cases n with
      | zero => cases h
      | succ n =>
          rw [scanReads, List.mem_singleton] at h
          omega
  | cons b bs ih =>
      cases n with
      | zero => cases h
      | succ n =>
          rw [scanReads, List.mem_cons] at h
          rw [strlen]
          rcases h with rfl | hrest
          · omega
          · split at hrest
            · cases hrest
            · have hrange := ih hrest
              rw [if_neg ‹_›]
              omega

theorem strncmpReads_range {s1 s2 : List Byte} {n : Nat} {i x : Int}
    (h : x ∈ strncmpReads s1 s2 n i) : i ≤ x ∧ x < i + n := by
  induction n generalizing s1 s2 i with
  | zero => cases h
  | succ n ih =>
      rw [strncmpReads, List.mem_cons] at h
      rcases h with rfl | hrest
      · omega
      · split at hrest
        · cases hrest
        · have hrange := ih hrest
          omega

/-- All comparisons stay below the length of the name. -/
theorem lengthOfName_le (fname : CStr) :
    lengthOfName fname ≤ strlen fname.bytes := by
  unfold lengthOfName
  rw [scanNul_eq]
  exact Nat.min_le_right _ _

/-- The reads lie between the byte before the pointer and the NUL. -/
theorem lookupReads_range {fs : FileSys} {fname : CStr} {x : Int}
    (h : x ∈ lookupReads fs fname) :
    (0 ≤ x ∨ x = (strlen fname.bytes : Int) - 1) ∧ x ≤ strlen fname.bytes := by
  have hlength := lengthOfName_le fname
  unfold lookupReads at h
  split at h
  · cases h
  · simp only [List.mem_append, List.mem_singleton, List.mem_flatMap] at h
    rcases h with ((hstrlen | hlast) | hscan) | ⟨i, -, hcompare⟩
    · have hrange := mem_strlenReads.1 hstrlen
      omega
    · omega
    · have hrange := scanReads_range hscan
      omega
    · split at hcompare
      · have hrange := strncmpReads_range hcompare
        omega
      · cases hcompare

/-- The last byte of the string and its NUL are read. -/
theorem ends_read {fs : FileSys} (hinit : fs.bootB ≠ none) (fname : CStr) :
    (strlen fname.bytes : Int) - 1 ∈ lookupReads fs fname ∧
      (strlen fname.bytes : Int) ∈ lookupReads fs fname := by
  obtain ⟨boot, hboot⟩ := Option.ne_none_iff_exists'.1 hinit
  unfold lookupReads
  rw [hboot]
  constructor
  · simp
  · have hnul : (strlen fname.bytes : Int) ∈ strlenReads fname.bytes 0 :=
      mem_strlenReads.2 ⟨by omega, by omega⟩
    simp [hnul]

/-- The byte at an offset from the pointer. -/
def byteAt (fname : CStr) (x : Int) : Byte :=
  if x < 0 then fname.before else fname.bytes.getD x.toNat 0

theorem byteAt_natCast (fname : CStr) (i : Nat) :
    byteAt fname i = fname.bytes.getD i 0 := by
  unfold byteAt
  rw [if_neg (by omega), Int.toNat_natCast]

/-- The lookup is a function of the string, and for the empty string of the byte
before the pointer. -/
theorem readDentryByName_congr (fs : FileSys) {fname fname' : CStr}
    (hstring : cstr fname.bytes = cstr fname'.bytes)
    (hbefore : strlen fname.bytes = 0 → fname.before = fname'.before) :
    readDentryByName fs fname = readDentryByName fs fname' := by
  have hstrlen : strlen fname.bytes = strlen fname'.bytes := by
    rw [strlen_eq, strlen_eq, hstring]
  have hlast : (if strlen fname.bytes = 0 then fname.before
      else fname.bytes.getD (strlen fname.bytes - 1) 0) =
      if strlen fname'.bytes = 0 then fname'.before
      else fname'.bytes.getD (strlen fname'.bytes - 1) 0 := by
    by_cases hempty : strlen fname.bytes = 0
    · rw [if_pos hempty, if_pos (hstrlen ▸ hempty), hbefore hempty]
    · rw [if_neg hempty, if_neg (hstrlen ▸ hempty)]
      have hboth := last_byte hempty
      rw [hstring, last_byte (hstrlen ▸ hempty)] at hboth
      exact (Option.some.inj hboth).symm
  have hlength : lengthOfName fname = lengthOfName fname' := by
    unfold lengthOfName
    dsimp only
    rw [hlast, scanNul_eq, scanNul_eq, hstrlen]
  have hmatch : dentryMatches fname = dentryMatches fname' := by
    funext n d
    rw [Bool.eq_iff_iff]
    simp only [dentryMatches, Bool.and_eq_true, beq_iff_eq,
      strncmp_eq_zero_iff, hstring]
  unfold readDentryByName
  rw [hlength, hmatch]

/-- The list is complete: the bytes at these offsets decide the lookup. -/
theorem lookupReads_complete (fs : FileSys) {fname fname' : CStr}
    (h : ∀ x ∈ lookupReads fs fname, byteAt fname x = byteAt fname' x) :
    readDentryByName fs fname = readDentryByName fs fname' := by
  cases hboot : fs.bootB with
  | none => simp [readDentryByName, hboot]
  | some boot =>
      have hinit : fs.bootB ≠ none := by
        rw [hboot]
        exact Option.some_ne_none boot
      apply readDentryByName_congr
      · apply cstr_congr
        intro i hi
        have hread : (i : Int) ∈ lookupReads fs fname := by
          unfold lookupReads
          rw [hboot]
          have hnul : (i : Int) ∈ strlenReads fname.bytes 0 :=
            mem_strlenReads.2 ⟨by omega, by omega⟩
          simp [hnul]
        have hbyte := h i hread
        rwa [byteAt_natCast, byteAt_natCast] at hbyte
      · intro hempty
        have hbyte := h _ (ends_read hinit fname).1
        rw [hempty] at hbyte
        simpa [byteAt] using hbyte

/-! ## The array of `execute` -/

/-- The bytes of an array that holds a list and zeros behind it. -/
theorem arrayBytes_getD {n : Nat} {bytes : List Byte} (h : bytes.length ≤ n) :
    arrayBytes n (fun j => bytes.getD j 0) =
      bytes ++ List.replicate (n - bytes.length) 0 := by
  unfold arrayBytes
  apply List.ext_getElem
  · simp only [List.length_map, List.length_range, List.length_append,
      List.length_replicate]
    omega
  · intro j hj hj'
    rw [List.getElem_map, List.getElem_range, List.getElem_append]
    split
    · rename_i hlt
      exact List.getD_eq_getElem bytes 0 hlt
    · rename_i hge
      rw [List.getElem_replicate, List.getD_eq_default _ _ (Nat.not_lt.1 hge)]

/-- The length of the string in the name buffer of `execute`: that of the first
word, or up to some NUL behind a buffer that the word fills. -/
theorem strlen_fname (stk : CStr) (command : List Byte) :
    strlen (fnamePtr stk (handleCommand command).1).bytes =
      if (commandWord command).length < FILE_NAME then
        (commandWord command).length
      else FILE_NAME + strlen stk.bytes := by
  have hnul : 0 ∉ (commandWord command).take FILE_NAME := fun hmem =>
    zero_notMem_cstr command
      ((List.takeWhile_prefix _).subset (List.mem_of_mem_take hmem))
  have hlength : ((commandWord command).take FILE_NAME).length =
      min FILE_NAME (commandWord command).length := List.length_take
  have hself : strlen ((commandWord command).take FILE_NAME) =
      ((commandWord command).take FILE_NAME).length := by
    rw [strlen_eq, cstr_of_zero_notMem hnul]
  unfold fnamePtr
  rw [handleCommand_name]
  dsimp only
  rw [arrayBytes_getD (by omega)]
  split
  · rename_i hshort
    -- a NUL follows the word
    obtain ⟨m, hm⟩ := Nat.exists_eq_succ_of_ne_zero (n := FILE_NAME -
      ((commandWord command).take FILE_NAME).length) (by omega)
    rw [hm, List.replicate_succ, List.append_assoc, List.cons_append, strlen_eq,
      cstr_append_zero hnul]
    omega
  · rename_i hfull
    have hnone : FILE_NAME - ((commandWord command).take FILE_NAME).length = 0 := by
      omega
    rw [hnone, List.replicate_zero, List.append_nil, strlen_append,
      if_neg (by omega)]
    omega

/-- All that the lookup of `execute` reads lies in its array `fname`. -/
def WithinFname (fs : FileSys) (stk : CStr) (command : List Byte) : Prop :=
  ∀ x ∈ lookupReads fs (fnamePtr stk (handleCommand command).1),
    0 ≤ x ∧ x < FILE_NAME

/-- The lookup of `execute` stays within the array `fname` exactly if the first
word of the command has between 1 and 31 characters, or nothing is mounted. -/
theorem lookup_within_fname_iff (fs : FileSys) (stk : CStr)
    (command : List Byte) :
    WithinFname fs stk command ↔
      fs.bootB = none ∨
        1 ≤ (commandWord command).length ∧ (commandWord command).length ≤ 31 := by
  have hstrlen := strlen_fname stk command
  unfold WithinFname
  generalize fnamePtr stk (handleCommand command).1 = fname at *
  have hmax : FILE_NAME = 32 := rfl
  by_cases hinit : fs.bootB = none
  · constructor
    · intro _
      exact .inl hinit
    · intro _ x hx
      unfold lookupReads at hx
      rw [hinit] at hx
      cases hx
  · constructor
    · intro h
      obtain ⟨hlast, hnul⟩ := ends_read hinit fname
      have hlow := (h _ hlast).1
      have hhigh := (h _ hnul).2
      refine .inr ?_
      split at hstrlen <;> omega
    · intro h x hx
      have hword := h.resolve_left hinit
      have hrange := lookupReads_range hx
      rw [if_pos (by omega)] at hstrlen
      omega

/-- The empty command, one that begins with a space, and one whose first word
has 32 characters: the lookup reads the byte before the array, and the byte
behind it. -/
theorem lookup_leaves_fname :
    ¬ WithinFname shellImage ⟨0, []⟩ [] ∧
    ¬ WithinFname shellImage ⟨0, []⟩ [32, 108, 115] ∧
    ¬ WithinFname shellImage ⟨0, []⟩ (List.replicate 32 97) := by
  refine ⟨fun h => ?_, fun h => ?_, fun h => ?_⟩
  · exact absurd (h (-1) (by decide)).1 (by decide)
  · exact absurd (h (-1) (by decide)).1 (by decide)
  · exact absurd (h 32 (by decide)).2 (by decide)

end MongOS.Proofs.FnameReads
