import MongOS.Model.Types

/-!
# The read-only file system (`filesys.c`)

Name lookup, block-wise reading and the file and directory operations, as
functions of the mounted image.  A function that stores through a buffer
pointer takes the contents of the buffer and returns them after the call.  A
string is read up to its first NUL; `strlen` of the bytes listed for a `CStr`
stops at their end at the latest, where the NUL behind them is.
-/

namespace MongOS.Model

def BLOCK_SIZE : Nat := 4096
def MAX_FILES : Nat := 63
/-- `enter`, the carriage return. -/
def enter : Byte := 13

/-! ## Strings (`lib.c`) -/

/-- `strlen`. -/
def strlen : List Byte → Nat
  | [] => 0
  | b :: bs => if b = 0 then 0 else strlen bs + 1

/-- `for(i = 0; i < n; i++) if(s[i] == NULL) break;`, the value of `i`. -/
def scanNul : List Byte → Nat → Nat
  | _, 0 => 0
  | [], _ + 1 => 0
  | b :: bs, n + 1 => if b = 0 then 0 else scanNul bs n + 1

/-- `strncmp`. -/
def strncmp (s1 s2 : List Byte) : Nat → Int
  | 0 => 0
  | n + 1 =>
      if s1.headD 0 ≠ s2.headD 0 ∨ s1.headD 0 = 0 then
        signed (s1.headD 0) - signed (s2.headD 0)
      else strncmp s1.tail s2.tail n

/-- The first loop of `strncpy`, with `n` bytes to go at offset `i`: the offset
where it ends and the destination by then. -/
def strncpyCopy : List Byte → Nat → Nat → (Nat → Byte) → Nat × (Nat → Byte)
  | _, 0, i, dest => (i, dest)
  | [], _ + 1, i, dest => (i, dest)
  | b :: bs, n + 1, i, dest =>
      if b = 0 then (i, dest)
      else strncpyCopy bs n (i + 1) (Function.update dest i b)

/-- The second loop of `strncpy`, with `n` bytes to go at offset `i`. -/
def strncpyPad : Nat → Nat → (Nat → Byte) → Nat → Byte
  | 0, _, dest => dest
  | n + 1, i, dest => strncpyPad n (i + 1) (Function.update dest i 0)

/-- `strncpy`: the destination afterwards. -/
def strncpy (dest : Nat → Byte) (src : List Byte) (n : Nat) : Nat → Byte :=
  let r := strncpyCopy src n 0 dest
  strncpyPad (n - r.1) r.1 r.2

/-- The bytes of a `uint32_t` in memory. -/
def le32 (n : Nat) : List Byte :=
  [UInt8.ofNat n, UInt8.ofNat (n / 2 ^ 8), UInt8.ofNat (n / 2 ^ 16),
    UInt8.ofNat (n / 2 ^ 24)]

/-- The 64 bytes of a directory entry, which is what `strlen` of the name
field reads when the name fills the field. -/
def Dentry.raw (d : Dentry) : List Byte :=
  d.filename ++ le32 d.type ++ le32 d.indexNode ++ d.reserved

/-! ## Mounting an image -/

/-- What lies behind `fs_start`: the boot block, the inodes from the next block
on, and the memory from `num_inodes` blocks after that on. -/
structure Image where
  boot : BootBlock
  inodes : Nat → Inode
  datas : Nat → Byte

/-- `fileSystem_init`; a `NULL` image is `none`.  The boot block is mounted
before its directory is found to be too long. -/
def fileSystemInit (fs : FileSys) (fsStart : Option Image) : FileSys × Int :=
  match fsStart with
  | none => (fs, -1)
  | some image =>
      let fs := { fs with bootB := some image.boot }
      if image.boot.numDirEntries > MAX_FILES then (fs, -1)
      else ({ fs with inodeSt := image.inodes, datab := image.datas }, 0)

/-- The file system after `fileSystem_init` has accepted an image. -/
def Accepted (fs : FileSys) : Prop :=
  ∃ fs₀ fsStart, fileSystemInit fs₀ fsStart = (fs, 0)

/-- An accepted image is mounted, and its directory fits the boot block. -/
theorem accepted_iff {fs : FileSys} :
    Accepted fs ↔
      ∃ boot, fs.bootB = some boot ∧ boot.numDirEntries ≤ MAX_FILES := by
  constructor
  · rintro ⟨fs₀, fsStart, hinit⟩
    cases fsStart with
    | none =>
        have hfail : (-1 : Int) = 0 := congrArg Prod.snd hinit
        exact absurd hfail (by decide)
    | some image =>
        unfold fileSystemInit at hinit
        dsimp only at hinit
        split at hinit
        · have hfail : (-1 : Int) = 0 := congrArg Prod.snd hinit
          exact absurd hfail (by decide)
        · rename_i hfits
          cases hinit
          exact ⟨image.boot, rfl, Nat.not_lt.1 hfits⟩
  · rintro ⟨boot, hboot, hfits⟩
    refine ⟨fs, some ⟨boot, fs.inodeSt, fs.datab⟩, ?_⟩
    unfold fileSystemInit
    dsimp only
    rw [if_neg (Nat.not_lt.2 hfits), ← hboot]

theorem Accepted.mounted {fs : FileSys} (hfs : Accepted fs) :
    fs.bootB ≠ none := by
  obtain ⟨boot, hboot, -⟩ := accepted_iff.1 hfs
  rw [hboot]
  exact nofun

/-! ## Name lookup -/

/-- The length of `fname` as `read_dentry_by_name` computes it: a trailing
carriage return is dropped.  For the empty name the byte before the pointer is
read, and the `uint32_t` length may wrap; the scan stops at once all the same. -/
def lengthOfName (fname : CStr) : Nat :=
  let n := strlen fname.bytes
  let last := if n = 0 then fname.before else fname.bytes.getD (n - 1) 0
  let n := if last = enter then (n + (2 ^ 32 - 1)) % 2 ^ 32 else n
  scanNul fname.bytes n

/-- `length_of_d`: the length of an entry's name, clipped to the field. -/
def lengthOfD (d : Dentry) : Nat :=
  let n := scanNul d.raw (strlen d.raw)
  if n > FILE_NAME then FILE_NAME else n

/-- The tests of the lookup loop on one entry. -/
def dentryMatches (fname : CStr) (n : Nat) (d : Dentry) : Bool :=
  n == lengthOfD d && strncmp d.filename fname.bytes n == 0

/-- `read_dentry_by_name`, for non-`NULL` pointers; `none` is `SFAIL`. -/
def readDentryByName (fs : FileSys) (fname : CStr) : Option Dentry :=
  match fs.bootB with
  | none => none
  | some boot =>
      let n := lengthOfName fname
      if n > FILE_NAME then none
      else ((List.range boot.numDirEntries).map boot.dirEntries).find?
        (dentryMatches fname n)

/-- The lookup delivers an entry of the directory. -/
theorem entry_of_found {fs : FileSys} {fname : CStr} {d : Dentry}
    (hfound : readDentryByName fs fname = some d) :
    ∃ boot i, fs.bootB = some boot ∧ i < boot.numDirEntries ∧
      boot.dirEntries i = d := by
  cases hboot : fs.bootB with
  | none => simp [readDentryByName, hboot] at hfound
  | some boot =>
      simp only [readDentryByName, hboot] at hfound
      split at hfound
      · cases hfound
      · have hmem := List.mem_of_find?_eq_some hfound
        simp only [List.mem_map, List.mem_range] at hmem
        obtain ⟨i, hi, hd⟩ := hmem
        exact ⟨boot, i, rfl, hi, hd⟩

/-- `read_dentry_by_index`; `none` is `SFAIL`. -/
def readDentryByIndex (fs : FileSys) (index : Nat) : Option Dentry :=
  match fs.bootB with
  | none => none
  | some boot =>
      if index ≥ boot.numDirEntries then none else some (boot.dirEntries index)

/-! ## Reading data -/

/-- `memcpy(&buf[pos], src, n)` out of the data blocks. -/
def memcpyData (fs : FileSys) (buf : Nat → Byte) (pos src n : Nat) :
    Nat → Byte :=
  fun i => if pos ≤ i ∧ i < pos + n then fs.datab (src + (i - pos)) else buf i

/-- What the loop of `read_data` keeps fixed. -/
structure BlockWalk where
  inode : Inode
  off : Nat
  endTmp : Nat
  firstIndex : Nat
  lastIndex : Nat
  flag1 : Bool
  flag2 : Bool

/-- The loop of `read_data`, with `n` blocks to go from block `i` on. -/
def readBlocks (fs : FileSys) (w : BlockWalk) :
    Nat → Nat → Nat → (Nat → Byte) → Nat × (Nat → Byte)
  | 0, _, curBytes, buf => (curBytes, buf)
  | n + 1, i, curBytes, buf =>
      let beginPosition :=
        if w.flag1 && i == w.firstIndex then w.off - i * BLOCK_SIZE else 0
      let endPosition :=
        if w.flag2 && i == w.lastIndex then w.endTmp - i * BLOCK_SIZE
        else BLOCK_SIZE
      let num := (endPosition + 2 ^ 32 - beginPosition) % 2 ^ 32
      let src := w.inode.dataBlocks i * BLOCK_SIZE + beginPosition
      readBlocks fs w n (i + 1) ((curBytes + num) % 2 ^ 32)
        (memcpyData fs buf curBytes src num)

/-- `read_data`: the result and the buffer afterwards. -/
def readData (fs : FileSys) (inode : Inode) (off : Nat) (buf : Nat → Byte)
    (length : Nat) : Int × (Nat → Byte) :=
  match fs.bootB with
  | none => (-1, buf)
  | some _ =>
      if off ≥ inode.size then (0, buf)
      else
        let sum := (off + length) % 2 ^ 32
        let endTmp := if sum > inode.size then inode.size else sum
        let firstIndex := off / BLOCK_SIZE
        let lastIndex := endTmp / BLOCK_SIZE
        let w : BlockWalk :=
          { inode, off, endTmp, firstIndex, lastIndex
            flag1 := firstIndex * BLOCK_SIZE != off
            flag2 := (lastIndex + 1) * BLOCK_SIZE != endTmp }
        let r := readBlocks fs w (lastIndex + 1 - firstIndex) firstIndex 0 buf
        (toInt32 r.1, r.2)

/-! ## File operations -/

/-- `open_f`. -/
def openF (fs : FileSys) (name : CStr) : Int :=
  match fs.bootB with
  | none => -1
  | some _ =>
      match readDentryByName fs name with
      | none => -1
      | some tmp => if tmp.type ≠ 2 then -1 else 0

/-- `close_f`. -/
def closeF (fs : FileSys) : Int := if fs.bootB.isNone then -1 else 0

/-- `read_f`: the result, the position and the buffer afterwards. -/
def readF (fs : FileSys) (inode : Inode) (offset : Nat) (buf : Nat → Byte)
    (nbytes : Int) : Int × Nat × (Nat → Byte) :=
  match fs.bootB with
  | none => (-1, offset, buf)
  | some _ =>
      let r := readData fs inode offset buf (nbytes % 2 ^ 32).toNat
      let offset :=
        if r.1 ≥ 0 then ((offset + r.1) % 2 ^ 32).toNat else offset
      (r.1, offset, r.2)

/-! ## Directory operations -/

/-- `open_d`. -/
def openD (fs : FileSys) : Int := if fs.bootB.isNone then -1 else 0

/-- `close_d`. -/
def closeD (fs : FileSys) : Int := if fs.bootB.isNone then -1 else 0

/-- The word loop of `mycopy`, with `n` words to go at offset `d`. -/
def mycopyWords (src : Nat → Byte) : Nat → Nat → (Nat → Byte) → Nat → Byte
  | 0, _, dst => dst
  | n + 1, d, dst =>
      mycopyWords src n (d + 4)
        (fun i => if d ≤ i ∧ i < d + 4 then src i else dst i)

/-- The remainder loop of `mycopy`: it stores one byte and advances its
word-typed pointers by four. -/
def mycopySlice (src : Nat → Byte) : Nat → Nat → (Nat → Byte) → Nat → Byte
  | 0, _, dst => dst
  | n + 1, d, dst =>
      mycopySlice src n (d + 4) (fun i => if i = d then src i else dst i)

/-- `mycopy`; `sizeof(dst)` is the size of a pointer, 4. -/
def mycopy (dst src : Nat → Byte) (num : Nat) : Nat → Byte :=
  mycopySlice src (num % 4) (4 * (num / 4)) (mycopyWords src (num / 4) 0 dst)

/-- `real_dir_read`, for a non-`NULL` buffer. -/
def realDirRead (boot : BootBlock) (offset : Nat) (buf : Nat → Byte)
    (nbytes : Int) : Int × (Nat → Byte) :=
  if offset ≥ MAX_FILES then (-1, buf)
  else
    let tmp := boot.dirEntries offset
    if strlen tmp.raw = 0 then (0, buf)
    else (FILE_NAME, mycopy buf (fun i => tmp.raw.getD i 0)
      (nbytes % 2 ^ 32).toNat)

/-- `dir_read`, for `fd >= 0`: the result and the buffer afterwards.  The
comparison of `nbytes` with the length of the name is unsigned. -/
def dirRead (fs : FileSys) (fd : Nat) (buf : Nat → Byte) (nbytes : Int) :
    Int × (Nat → Byte) :=
  match fs.bootB with
  | none => (-1, buf)
  | some boot =>
      if fd ≥ boot.numDirEntries then (-1, buf)
      else if fd ≥ MAX_FILES then (-1, buf)
      else
        let dirTemp := boot.dirEntries fd
        let nbytes :=
          if nbytes % 2 ^ 32 > strlen dirTemp.raw then (strlen dirTemp.raw : Int)
          else nbytes
        (nbytes, mycopy buf (fun i => dirTemp.raw.getD i 0)
          (nbytes % 2 ^ 32).toNat)

/-- `read_d`: the result, the position and the buffer afterwards. -/
def readD (boot : BootBlock) (offset : Nat) (buf : Nat → Byte)
    (nbytes : Int) : Int × Nat × (Nat → Byte) :=
  let r := realDirRead boot offset buf nbytes
  if r.1 = -1 then (-1, offset, r.2)
  else if r.1 = 0 then (0, offset, r.2)
  else (r.1, (offset + 1) % 2 ^ 32, r.2)

end MongOS.Model
