import MongOS.Proofs.NameLookup
import MongOS.Proofs.SampleImage

/-!
# Rejected images

`fileSystem_init` refuses an image that claims more entries than the directory
has, but it has mounted the boot block before, and every operation decides by
this pointer whether there is a file system.  `touched` lists the directory
entries that an operation looks at; `rejected_image_unused_iff` says that what
a rejection promises holds for the images that are not rejected, and for no
others.
-/

namespace MongOS.Proofs.RejectedImage

open MongOS.Model
open MongOS.Verified
open MongOS.Proofs.NameLookup
open MongOS.Proofs.SampleImage

variable {σ : Type}

/-! ## The entries an operation looks at -/

/-- The entry that `read_dentry_by_index` looks at. -/
def indexTouches (fs : FileSys) (index : Nat) : List Nat :=
  match fs.bootB with
  | none => []
  | some boot => if index ≥ boot.numDirEntries then [] else [index]

/-- The lookup delivers the entry it looks at. -/
theorem readDentryByIndex_touches {fs : FileSys} {boot : BootBlock}
    (hboot : fs.bootB = some boot) (index : Nat) :
    readDentryByIndex fs index =
      ((indexTouches fs index).map boot.dirEntries).head? := by
  unfold readDentryByIndex indexTouches
  rw [hboot]
  dsimp only
  split <;> rfl

/-- The entry that `dir_read` looks at. -/
def dirReadTouches (fs : FileSys) (fd : Nat) : List Nat :=
  match fs.bootB with
  | none => []
  | some boot =>
      if fd ≥ boot.numDirEntries then []
      else if fd ≥ MAX_FILES then [] else [fd]

/-- Another directory with the same entry there makes no difference. -/
theorem dirRead_touches {fs fs' : FileSys} {boot boot' : BootBlock}
    (hboot : fs.bootB = some boot) (hboot' : fs'.bootB = some boot')
    (hcount : boot'.numDirEntries = boot.numDirEntries) {fd : Nat}
    (hsame : ∀ i ∈ dirReadTouches fs fd, boot'.dirEntries i = boot.dirEntries i)
    (buf : Nat → Byte) (nbytes : Int) :
    dirRead fs' fd buf nbytes = dirRead fs fd buf nbytes := by
  unfold dirReadTouches at hsame
  unfold dirRead
  rw [hboot] at hsame ⊢
  rw [hboot']
  dsimp only at hsame ⊢
  rw [hcount]
  split
  · rfl
  · rename_i hfd
    rw [if_neg hfd] at hsame
    split
    · rfl
    · rename_i hmax
      rw [if_neg hmax] at hsame
      rw [hsame fd (List.mem_singleton_self fd)]

/-- The entry that a read of a directory looks at: that of the position. -/
def positionTouches (pos : Nat) : List Nat := if pos ≥ MAX_FILES then [] else [pos]

/-- Another directory with the same entry there makes no difference. -/
theorem readD_touches {boot boot' : BootBlock} {pos : Nat}
    (hsame : ∀ i ∈ positionTouches pos, boot'.dirEntries i = boot.dirEntries i)
    (buf : Nat → Byte) (nbytes : Int) :
    readD boot' pos buf nbytes = readD boot pos buf nbytes := by
  have hread : realDirRead boot' pos buf nbytes = realDirRead boot pos buf nbytes := by
    unfold positionTouches at hsame
    unfold realDirRead
    split
    · rfl
    · rename_i hpos
      rw [if_neg hpos] at hsame
      rw [hsame pos (List.mem_singleton_self pos)]
  rw [readD, readD, hread]

/-- The entry that `read` looks at, if the descriptor is a directory. -/
def readTouches (k : Kernel σ) (fd : Int) (buf : Option (Nat → Byte))
    (nbytes : Int) : List Nat :=
  let fd := forceFd k.curPcb.name fd
  let slot := k.curPcb.farray fd
  if fd < FD_ARRAY_ST ∨ fd ≥ FD_ARRAY_MAX ∨ buf.isNone ∨ nbytes < 0 ∨ fd = 1 ∨
      slot.flags = FREE ∨ slot.fotp ≠ some .dir then []
  else positionTouches slot.filePos

/-- The entries that an operation looks at. -/
def touched (fs : FileSys) (k : Kernel σ) : FileOp σ → List Nat
  | .readDentryByName fname => nameTouches fs fname
  | .readDentryByIndex index => indexTouches fs index
  | .dirRead fd _ _ => dirReadTouches fs fd
  | .open filename =>
      if strlen filename.bytes = 0 then [] else nameTouches fs filename
  | .read fd buf nbytes => readTouches k fd buf nbytes
  | .close _ => []
  | .execute stk command _ _ =>
      match command with
      | none => []
      | some command =>
          nameTouches fs (fnamePtr stk (handleCommand command.bytes).1)

/-! ## What a rejection promises -/

/-- Without a file system, every lookup fails, and so do `open` and
`execute`. -/
structure AllFail (fs : FileSys) (k : Kernel σ) : Prop where
  byName : ∀ fname, readDentryByName fs fname = none
  byIndex : ∀ index, readDentryByIndex fs index = none
  opens : ∀ filename, («open» fs k filename).2 = -1
  executes : ∀ stk command esp ebp pid entAdd,
    (execute fs stk k command esp ebp).2 ≠ .enter pid entAdd

/-- After `fileSystem_init`, whatever is done: the lookups stay in the
directory, and if the image was rejected for its number of entries, there is no
file system and all operations fail. -/
structure RejectionKept (fs₀ : FileSys) (image : Image) (k₀ : Kernel σ) :
    Prop where
  inDirectory : ∀ ops s, Run FileStep ((fileSystemInit fs₀ image).1, k₀) ops s →
    ∀ op, ∀ i ∈ touched s.1 s.2 op, i < MAX_FILES
  unused : (fileSystemInit fs₀ image).2 = -1 →
    image.boot.numDirEntries > MAX_FILES →
    ∀ ops s, Run FileStep ((fileSystemInit fs₀ image).1, k₀) ops s →
      s.1.bootB = none ∧ AllFail s.1 s.2

/-! ## Runs -/

/-- No operation mounts or unmounts anything. -/
theorem fileStep_keeps (s : FileSys × Kernel σ) (op : FileOp σ) :
    (fileStep s op).1 = s.1 := by
  cases op <;> rfl

theorem run_keeps {s t : FileSys × Kernel σ} {ops : List (FileOp σ)}
    (h : Run FileStep s ops t) : t.1 = s.1 := by
  refine h.invariant (fun t => t.1 = s.1) rfl ?_
  rintro t op u ht rfl
  rw [fileStep_keeps, ht]

/-- With a directory that fits, the lookups stay in it. -/
theorem touched_lt {fs : FileSys} {boot : BootBlock}
    (hboot : fs.bootB = some boot) (hfits : boot.numDirEntries ≤ MAX_FILES)
    (k : Kernel σ) (op : FileOp σ) : ∀ i ∈ touched fs k op, i < MAX_FILES := by
  have hname : ∀ fname, ∀ i ∈ nameTouches fs fname, i < MAX_FILES := by
    intro fname i hi
    unfold nameTouches at hi
    rw [hboot] at hi
    dsimp only at hi
    split at hi
    · cases hi
    · exact Nat.lt_of_lt_of_le (List.mem_range.1 (mem_of_searched hi)) hfits
  intro i hi
  cases op with
  | readDentryByName fname => exact hname fname i hi
  | readDentryByIndex index =>
      simp only [touched, indexTouches, hboot] at hi
      split at hi
      · cases hi
      · rename_i hindex
        rw [List.mem_singleton.1 hi]
        exact Nat.lt_of_lt_of_le (Nat.not_le.1 hindex) hfits
  | dirRead fd buf nbytes =>
      simp only [touched, dirReadTouches, hboot] at hi
      split at hi
      · cases hi
      · split at hi
        · cases hi
        · rename_i hfd
          rw [List.mem_singleton.1 hi]
          exact Nat.not_le.1 hfd
  | «open» filename =>
      simp only [touched] at hi
      split at hi
      · cases hi
      · exact hname filename i hi
  | read fd buf nbytes =>
      simp only [touched, readTouches, positionTouches] at hi
      split at hi
      · cases hi
      · split at hi
        · cases hi
        · rename_i hpos
          rw [List.mem_singleton.1 hi]
          exact Nat.not_le.1 hpos
  | close fd => cases hi
  | execute stk command esp ebp =>
      cases command with
      | none => cases hi
      | some command => exact hname _ i hi

/-- `fileSystem_init` mounts every image it is given. -/
theorem init_mounts (fs₀ : FileSys) (image : Image) :
    (fileSystemInit fs₀ image).1.bootB = some image.boot := by
  unfold fileSystemInit
  dsimp only
  split <;> rfl

/-- It fails exactly if the directory does not fit. -/
theorem init_fails_iff (fs₀ : FileSys) (image : Image) :
    (fileSystemInit fs₀ image).2 = -1 ↔
      image.boot.numDirEntries > MAX_FILES := by
  unfold fileSystemInit
  dsimp only
  split
  · rename_i hmany
    exact iff_of_true rfl hmany
  · rename_i hfits
    exact iff_of_false (by decide : ¬ (0 : Int) = -1) hfits

/-- While nothing is mounted, all operations fail. -/
theorem allFail_of_unmounted {fs : FileSys} (hboot : fs.bootB = none)
    (k : Kernel σ) : AllFail fs k := by
  have hname : ∀ fname, readDentryByName fs fname = none := by
    intro fname
    simp [readDentryByName, hboot]
  refine
    { byName := hname, byIndex := ?index, opens := ?opens
      executes := ?executes }
  case index =>
    intro index
    simp [readDentryByIndex, hboot]
  case opens =>
    intro filename
    unfold «open»
    rw [hname]
    split <;> rfl
  case executes =>
    intro stk command esp ebp pid entAdd henter
    unfold execute at henter
    cases command with
    | none => cases henter
    | some command =>
        dsimp only at henter
        rw [hname] at henter
        cases henter

/-- What a rejection promises is kept exactly for the images that are not
rejected: a rejected image is mounted, and stays so. -/
theorem rejected_image_unused_iff (fs₀ : FileSys) (image : Image)
    (k₀ : Kernel σ) :
    RejectionKept fs₀ image k₀ ↔ image.boot.numDirEntries ≤ MAX_FILES := by
  have hmounted := init_mounts fs₀ image
  constructor
  · intro h
    by_contra hmany
    have htoo := Nat.not_le.1 hmany
    have hnone :=
      (h.unused ((init_fails_iff fs₀ image).2 htoo) htoo [] _ .nil).1
    rw [hmounted] at hnone
    cases hnone
  · intro hfits
    refine ⟨fun ops s hrun op => ?_, fun _ hmany => ?_⟩
    · have hboot : s.1.bootB = some image.boot := by
        rw [run_keeps hrun]
        exact hmounted
      exact touched_lt hboot hfits s.2 op
    · exact absurd hfits (Nat.not_le.2 hmany)

/-- An image that claims one entry more than the directory has. -/
def crowdedImage : Image :=
  { boot :=
      { numDirEntries := 64
        numInodes := 1
        numDataBlocks := 1
        dirEntries := fun _ => shellEntry }
    inodes := fun _ => { size := 40, dataBlocks := fun _ => 0 }
    datas := fun i => programBytes.getD i 0 }

/-- The file system before `fileSystem_init`. -/
def unmounted : FileSys :=
  { bootB := none
    inodeSt := fun _ => { size := 0, dataBlocks := fun _ => 0 }
    datab := fun _ => 0 }

/-- The image is rejected, and then its entries are found, by name and by index,
the one behind the directory too. -/
theorem rejected_image_in_use :
    (fileSystemInit unmounted crowdedImage).2 = -1 ∧
    (readDentryByName (fileSystemInit unmounted crowdedImage).1 shellCmd).isSome ∧
    (readDentryByIndex (fileSystemInit unmounted crowdedImage).1 63).isSome ∧
    ¬ RejectionKept unmounted crowdedImage (idleKernel 0) := by
  refine ⟨rfl, by decide, rfl, ?_⟩
  intro h
  exact absurd (h.inDirectory [] _ .nil (.readDentryByIndex 63) 63 (.head _))
    (by decide)

end MongOS.Proofs.RejectedImage
