import Mathlib.Data.List.GetD
import MongOS.Proofs.SampleImage

/-!
# Reading a directory to its end

A directory descriptor delivers one name a call, and its position counts the
names delivered.  `dirCall boot bufs m` is call `m` on a fresh descriptor, with
a buffer of its own for each call.

`read_d` never looks at `num_dir_entries`: it stops at an entry with an empty
name, and fails behind entry 62.

* `dirCall_name` — as long as there are entries, call `m` delivers entry `m`.
* `listing_complete_iff` — the end of the directory is reported if and only if
  the boot block has an unused entry and the first one has an empty name.
-/

namespace MongOS.Proofs.DirListing

open MongOS.Model

/-! ## One call -/

/-- A name of an entry, as `strlen` sees it, is not empty. -/
def Named (d : Dentry) : Prop := strlen d.raw ≠ 0

instance (d : Dentry) : Decidable (Named d) :=
  inferInstanceAs (Decidable (_ ≠ _))

/-- The word loop copies `4 * n` bytes. -/
theorem mycopyWords_spec (src : Nat → Byte) (n : Nat) :
    ∀ (d : Nat) (dst : Nat → Byte) (i : Nat),
      mycopyWords src n d dst i =
        if d ≤ i ∧ i < d + 4 * n then src i else dst i := by
  induction n with
  | zero =>
      intro d dst i
      rw [mycopyWords, if_neg (by omega)]
  | succ n ih =>
      intro d dst i
      rw [mycopyWords, ih]
      by_cases hlater : d + 4 ≤ i ∧ i < d + 4 + 4 * n
      · rw [if_pos hlater, if_pos (by omega)]
      · rw [if_neg hlater]
        by_cases hword : d ≤ i ∧ i < d + 4
        · rw [if_pos hword, if_pos (by omega)]
        · rw [if_neg hword, if_neg (by omega)]

/-- A buffer that takes a whole name field gets the name field. -/
theorem mycopy_name (buf src : Nat → Byte) {i : Nat} (hi : i < FILE_NAME) :
    mycopy buf src FILE_NAME i = src i := by
  have hcopy : mycopy buf src FILE_NAME = mycopyWords src 8 0 buf := rfl
  unfold FILE_NAME at hi
  rw [hcopy, mycopyWords_spec, if_pos (by omega)]

/-- The buffer after a read of an entry. -/
def nameBuffer (d : Dentry) (buf : Nat → Byte) : Nat → Byte :=
  mycopy buf (fun i => d.raw.getD i 0) FILE_NAME

theorem nameBuffer_eq {d : Dentry} (buf : Nat → Byte)
    (hlen : d.filename.length = FILE_NAME) {i : Nat} (hi : i < FILE_NAME) :
    nameBuffer d buf i = d.filename.getD i 0 := by
  have hshort : i < d.filename.length := by omega
  rw [nameBuffer, mycopy_name buf _ hi, Dentry.raw, List.append_assoc,
    List.append_assoc, List.getD_append _ _ _ _ hshort]

/-- Behind the last entry of the boot block a read fails. -/
theorem readD_behind (boot : BootBlock) {pos : Nat} (buf : Nat → Byte)
    (hpos : MAX_FILES ≤ pos) :
    readD boot pos buf FILE_NAME = (-1, pos, buf) := by
  simp [readD, realDirRead, hpos]

/-- At an entry with a name a read copies `nbytes` bytes from the name field on,
and moves on. -/
theorem readD_entry (boot : BootBlock) {pos : Nat} (buf : Nat → Byte)
    (nbytes : Int) (hpos : pos < MAX_FILES) (hname : Named (boot.dirEntries pos)) :
    readD boot pos buf nbytes =
      ((FILE_NAME : Int), (pos + 1) % 2 ^ 32,
        mycopy buf (fun i => (boot.dirEntries pos).raw.getD i 0)
          (nbytes % 2 ^ 32).toNat) := by
  have hinside : ¬ pos ≥ MAX_FILES := by omega
  have hread : realDirRead boot pos buf nbytes =
      ((FILE_NAME : Int), mycopy buf
        (fun i => (boot.dirEntries pos).raw.getD i 0)
        (nbytes % 2 ^ 32).toNat) := by
    rw [realDirRead, if_neg hinside]
    exact if_neg hname
  have hpositive : (FILE_NAME : Int) ≠ -1 ∧ (FILE_NAME : Int) ≠ 0 := by decide
  simp only [readD, hread, if_neg hpositive.1, if_neg hpositive.2]

/-- A read into a buffer of 32 bytes delivers the name. -/
theorem readD_named (boot : BootBlock) {pos : Nat} (buf : Nat → Byte)
    (hpos : pos < MAX_FILES) (hname : Named (boot.dirEntries pos)) :
    readD boot pos buf FILE_NAME =
      ((FILE_NAME : Int), (pos + 1) % 2 ^ 32,
        nameBuffer (boot.dirEntries pos) buf) :=
  readD_entry boot buf FILE_NAME hpos hname

/-- At an entry without a name a read delivers nothing and stays. -/
theorem readD_unnamed (boot : BootBlock) {pos : Nat} (buf : Nat → Byte)
    (hpos : pos < MAX_FILES) (hname : ¬ Named (boot.dirEntries pos)) :
    readD boot pos buf FILE_NAME = (0, pos, buf) := by
  have hinside : ¬ pos ≥ MAX_FILES := by omega
  have hread : realDirRead boot pos buf FILE_NAME = (0, buf) := by
    rw [realDirRead, if_neg hinside]
    exact if_pos (not_not.1 hname)
  have hzero : (0 : Int) ≠ -1 := by decide
  simp only [readD, hread, if_neg hzero, if_true]

/-! ## Successive calls -/

/-- The position of a fresh descriptor before call `m`. -/
def dirPos (boot : BootBlock) (bufs : Nat → Nat → Byte) : Nat → Nat
  | 0 => 0
  | m + 1 => (readD boot (dirPos boot bufs m) (bufs m) FILE_NAME).2.1

/-- Call `m` on a fresh descriptor: the result, the position and the buffer
afterwards. -/
def dirCall (boot : BootBlock) (bufs : Nat → Nat → Byte) (m : Nat) :
    Int × Nat × (Nat → Byte) :=
  readD boot (dirPos boot bufs m) (bufs m) FILE_NAME

/-- The entries of the directory have names. -/
structure NamedEntries (boot : BootBlock) : Prop where
  fits : boot.numDirEntries ≤ MAX_FILES
  named : ∀ i < boot.numDirEntries, Named (boot.dirEntries i)
  length : ∀ i < boot.numDirEntries,
    (boot.dirEntries i).filename.length = FILE_NAME

/-- While there are entries, the position counts the calls. -/
theorem dirPos_eq {boot : BootBlock} (hboot : NamedEntries boot)
    (bufs : Nat → Nat → Byte) {m : Nat} (hm : m ≤ boot.numDirEntries) :
    dirPos boot bufs m = m := by
  have hfits := hboot.fits
  have hmax : MAX_FILES = 63 := rfl
  induction m with
  | zero => rfl
  | succ m ih =>
      rw [dirPos, ih (by omega),
        readD_named boot _ (by omega) (hboot.named m (by omega))]
      exact Nat.mod_eq_of_lt (by omega)

/-- While there are entries, call `m` delivers entry `m`. -/
theorem dirCall_name {boot : BootBlock} (hboot : NamedEntries boot)
    (bufs : Nat → Nat → Byte) {m : Nat} (hm : m < boot.numDirEntries) :
    (dirCall boot bufs m).1 = FILE_NAME ∧
      ∀ i < FILE_NAME, (dirCall boot bufs m).2.2 i =
        (boot.dirEntries m).filename.getD i 0 := by
  have hfits := hboot.fits
  have hread : dirCall boot bufs m =
      ((FILE_NAME : Int), (m + 1) % 2 ^ 32,
        nameBuffer (boot.dirEntries m) (bufs m)) := by
    rw [dirCall, dirPos_eq hboot bufs (by omega),
      readD_named boot _ (by omega) (hboot.named m hm)]
  rw [hread]
  exact ⟨rfl, fun i hi => nameBuffer_eq (bufs m) (hboot.length m hm) hi⟩

/-- The first unused entry exists and has an empty name. -/
def EndMarked (boot : BootBlock) : Prop :=
  boot.numDirEntries < MAX_FILES ∧
    ¬ Named (boot.dirEntries boot.numDirEntries)

/-- With an empty entry behind the last one the position stays there. -/
theorem dirPos_end {boot : BootBlock} (hboot : NamedEntries boot)
    (hend : EndMarked boot) (bufs : Nat → Nat → Byte) {m : Nat}
    (hm : boot.numDirEntries ≤ m) :
    dirPos boot bufs m = boot.numDirEntries := by
  induction m, hm using Nat.le_induction with
  | base => exact dirPos_eq hboot bufs (Nat.le_refl _)
  | succ m _ ih =>
      rw [dirPos, ih, readD_unnamed boot _ hend.1 hend.2]

/-- Successive reads deliver the names of the directory in order, and report
the end ever after. -/
structure ListsDirectory (boot : BootBlock) : Prop where
  names : ∀ bufs m, m < boot.numDirEntries →
    (dirCall boot bufs m).1 = FILE_NAME ∧
      ∀ i < FILE_NAME, (dirCall boot bufs m).2.2 i =
        (boot.dirEntries m).filename.getD i 0
  ends : ∀ bufs m, boot.numDirEntries ≤ m →
    (dirCall boot bufs m).1 = 0 ∧ (dirCall boot bufs m).2.2 = bufs m

/-- In an accepted image the listing of the directory is complete and ends if
and only if the directory leaves an entry of the boot block unused and the
first unused one has an empty name. -/
theorem listing_complete_iff {fs : FileSys} {boot : BootBlock}
    (hfs : Accepted fs) (hmounted : fs.bootB = some boot)
    (hnamed : ∀ i < boot.numDirEntries, Named (boot.dirEntries i))
    (hlen : ∀ i < boot.numDirEntries,
      (boot.dirEntries i).filename.length = FILE_NAME) :
    ListsDirectory boot ↔ EndMarked boot := by
  have hfits : boot.numDirEntries ≤ MAX_FILES := by
    obtain ⟨boot', hboot', hle⟩ := accepted_iff.1 hfs
    rw [hmounted] at hboot'
    cases hboot'
    exact hle
  have hboot : NamedEntries boot :=
    { fits := hfits, named := hnamed, length := hlen }
  constructor
  · intro hlists
    -- the call behind the last entry decides
    have hlast := (hlists.ends (fun _ _ => 0) boot.numDirEntries
      (Nat.le_refl _)).1
    rw [dirCall, dirPos_eq hboot _ (Nat.le_refl _)] at hlast
    by_cases hfull : MAX_FILES ≤ boot.numDirEntries
    · rw [readD_behind boot _ hfull] at hlast
      have hfail : (-1 : Int) = 0 := hlast
      exact absurd hfail (by decide)
    · refine ⟨Nat.not_le.1 hfull, fun hleft => ?_⟩
      rw [readD_named boot _ (Nat.not_le.1 hfull) hleft] at hlast
      have hfail : (FILE_NAME : Int) = 0 := hlast
      exact absurd hfail (by decide)
  · intro hend
    refine { names := fun bufs m hm => dirCall_name hboot bufs hm, ends := ?_ }
    intro bufs m hm
    have hread : dirCall boot bufs m = (0, boot.numDirEntries, bufs m) := by
      rw [dirCall, dirPos_end hboot hend bufs hm,
        readD_unnamed boot _ hend.1 hend.2]
    rw [hread]
    exact ⟨rfl, rfl⟩

/-! ## Two directories -/

/-- A directory of `n` entries with the name `shell`, and what lies behind
them. -/
def listedBoot (n : Nat) (unused : Dentry) : BootBlock :=
  { numDirEntries := n
    numInodes := 1
    numDataBlocks := 1
    dirEntries := fun i => if i < n then SampleImage.shellEntry else unused }

def listedImage (n : Nat) (unused : Dentry) : FileSys :=
  { SampleImage.shellImage with bootB := some (listedBoot n unused) }

/-- An entry that was never written. -/
def blankEntry : Dentry :=
  { filename := List.replicate 32 0
    type := 0
    indexNode := 0
    reserved := List.replicate 24 0 }

theorem listedImage_accepted {n : Nat} (hn : n ≤ MAX_FILES) (unused : Dentry) :
    Accepted (listedImage n unused) := accepted_iff.2 ⟨_, rfl, hn⟩

/-- A directory of one entry in front of a blank one is listed. -/
theorem one_entry_listed : ListsDirectory (listedBoot 1 blankEntry) :=
  (listing_complete_iff (listedImage_accepted (by decide) blankEntry) rfl
    (by decide) (by decide)).2 ⟨by decide, by decide⟩

/-- A full directory ends in a failure, and behind a removed entry its name is
listed once more. -/
theorem directory_end_missed :
    (Accepted (listedImage 63 blankEntry) ∧
      (∀ i < 63, Named ((listedBoot 63 blankEntry).dirEntries i)) ∧
      (dirCall (listedBoot 63 blankEntry) (fun _ _ => 0) 63).1 = -1 ∧
      ¬ ListsDirectory (listedBoot 63 blankEntry)) ∧
    (Accepted (listedImage 1 SampleImage.shellEntry) ∧
      (dirCall (listedBoot 1 SampleImage.shellEntry) (fun _ _ => 0) 1).1 = 32 ∧
      ¬ ListsDirectory (listedBoot 1 SampleImage.shellEntry)) := by
  have hfull : (dirCall (listedBoot 63 blankEntry) (fun _ _ => 0) 63).1 = -1 := by
    decide +kernel
  have hleft : (dirCall (listedBoot 1 SampleImage.shellEntry)
      (fun _ _ => 0) 1).1 = 32 := by
    decide +kernel
  refine ⟨⟨listedImage_accepted (by decide) _, by decide +kernel, hfull,
    fun hlists => ?_⟩, listedImage_accepted (by decide) _, hleft,
    fun hlists => ?_⟩
  · have hend := (hlists.ends (fun _ _ => 0) 63 (Nat.le_refl _)).1
    rw [hfull] at hend
    exact absurd hend (by decide)
  · have hend := (hlists.ends (fun _ _ => 0) 1 (Nat.le_refl _)).1
    rw [hleft] at hend
    exact absurd hend (by decide)

end MongOS.Proofs.DirListing
