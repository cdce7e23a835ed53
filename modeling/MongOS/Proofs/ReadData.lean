import MongOS.Model.FileSys

/-!
# What `read_data` reads

Byte `k` of a file is byte `k % 4096` of its data block `k / 4096`
(`fileByte`).  The loop of `read_data` copies one block after the other, the
first from the offset on and the last up to the end; `readBlocks_spec` follows
it block by block, and `readData_spec` says what the call returns and stores.
For the files that an inode can describe this makes the call a slice of the
file (`read_data_slices_file`).
Both flags of the code are accounted for here: `flag1` only avoids subtracting
zero, and `flag2` is never cleared, because the end position lies in the block
that it is divided down to.
-/

namespace MongOS.Proofs.ReadData

open MongOS.Model

/-- Byte `k` of the file of an inode. -/
def fileByte (fs : FileSys) (inode : Inode) (k : Nat) : Byte :=
  fs.datab (inode.dataBlocks (k / BLOCK_SIZE) * BLOCK_SIZE + k % BLOCK_SIZE)

/-- A walk as `read_data` sets it up for a range of bytes. -/
structure BlockWalk.Covers (w : BlockWalk) : Prop where
  le : w.off ≤ w.endTmp
  small : w.endTmp < 2 ^ 32
  first : w.firstIndex = w.off / BLOCK_SIZE
  last : w.lastIndex = w.endTmp / BLOCK_SIZE
  aligned : w.flag1 = false → w.off % BLOCK_SIZE = 0
  open_end : w.flag2 = true

/-- Where block `i` of a walk is entered: at the offset in the first block and
at its start in all others. -/
def entryPos (w : BlockWalk) (i : Nat) : Nat := max w.off (i * BLOCK_SIZE)

theorem begin_eq {w : BlockWalk} (hw : BlockWalk.Covers w) {i : Nat}
    (hfirst : w.firstIndex ≤ i) :
    (if w.flag1 && i == w.firstIndex then w.off - i * BLOCK_SIZE else 0) =
      entryPos w i - i * BLOCK_SIZE := by
  have hoff := hw.first
  unfold BLOCK_SIZE at *
  rcases Nat.lt_or_ge w.firstIndex i with hlt | hge
  · have hne : i ≠ w.firstIndex := by omega
    have hle : w.off ≤ i * 4096 := by omega
    simp [hne, entryPos, BLOCK_SIZE, Nat.max_eq_right hle]
  · have heq : i = w.firstIndex := by omega
    have hle : i * 4096 ≤ w.off := by omega
    rw [entryPos, BLOCK_SIZE, Nat.max_eq_left hle]
    cases hflag : w.flag1 with
    | true => simp [heq]
    | false =>
        have hmod := hw.aligned hflag
        simp only [BLOCK_SIZE] at hmod
        simp only [Bool.false_and, Bool.false_eq_true, if_false]
        omega

theorem end_eq {w : BlockWalk} (hw : BlockWalk.Covers w) {i : Nat}
    (hlast : i ≤ w.lastIndex) :
    (if w.flag2 && i == w.lastIndex then w.endTmp - i * BLOCK_SIZE
      else BLOCK_SIZE) = min w.endTmp ((i + 1) * BLOCK_SIZE) - i * BLOCK_SIZE := by
  have hend := hw.last
  unfold BLOCK_SIZE at *
  rw [hw.open_end]
  rcases Nat.lt_or_ge i w.lastIndex with hlt | hge
  · have hne : i ≠ w.lastIndex := by omega
    have hle : (i + 1) * 4096 ≤ w.endTmp := by omega
    simp only [Bool.true_and, beq_iff_eq, hne, if_false, Nat.min_eq_right hle]
    omega
  · have heq : i = w.lastIndex := by omega
    have hle : w.endTmp ≤ (i + 1) * 4096 := by omega
    simp [heq ▸ Nat.min_eq_left hle, heq]

/-- One round of the loop copies the bytes of the file from where the block is
entered to where it is left, so that the next block is entered there. -/
theorem entryPos_succ {w : BlockWalk} (hw : BlockWalk.Covers w) {i : Nat}
    (hfirst : w.firstIndex ≤ i) (hlast : i < w.lastIndex) :
    entryPos w (i + 1) = min w.endTmp ((i + 1) * BLOCK_SIZE) := by
  have hoff := hw.first
  have hend := hw.last
  unfold entryPos BLOCK_SIZE at *
  omega

/-- Copying out of data block `i` copies the corresponding bytes of the file. -/
theorem memcpyData_block (fs : FileSys) (w : BlockWalk) (buf : Nat → Byte)
    {i a b : Nat} (ha : i * BLOCK_SIZE ≤ a) (hab : a ≤ b)
    (hb : b ≤ (i + 1) * BLOCK_SIZE) (hoff : w.off ≤ a) :
    memcpyData fs buf (a - w.off)
        (w.inode.dataBlocks i * BLOCK_SIZE + (a - i * BLOCK_SIZE)) (b - a) =
      fun j => if a - w.off ≤ j ∧ j < b - w.off then
        fileByte fs w.inode (w.off + j) else buf j := by
  funext j
  have hrange : (a - w.off ≤ j ∧ j < a - w.off + (b - a)) ↔
      (a - w.off ≤ j ∧ j < b - w.off) := by omega
  simp only [memcpyData, hrange]
  split
  · rename_i hj
    have hblock : (w.off + j) / BLOCK_SIZE = i := by
      unfold BLOCK_SIZE at *
      omega
    have hpos : (w.off + j) % BLOCK_SIZE =
        a - i * BLOCK_SIZE + (j - (a - w.off)) := by
      unfold BLOCK_SIZE at *
      omega
    rw [fileByte, hblock, hpos, Nat.add_assoc]
  · rfl

/-- The loop of `read_data` from block `i` on, with the bytes before it
already copied, delivers the rest of the range. -/
theorem readBlocks_spec (fs : FileSys) {w : BlockWalk}
    (hw : BlockWalk.Covers w) (n : Nat) :
    ∀ (i : Nat) (buf : Nat → Byte), w.firstIndex ≤ i → i + n = w.lastIndex →
      readBlocks fs w (n + 1) i (entryPos w i - w.off) buf =
        (w.endTmp - w.off, fun j =>
          if entryPos w i - w.off ≤ j ∧ j < w.endTmp - w.off then
            fileByte fs w.inode (w.off + j) else buf j) := by
  have hsmall := hw.small
  have hle := hw.le
  induction n with
  | zero =>
      intro i buf hfirst hlast
      have hend := hw.last
      have hentry : i * BLOCK_SIZE ≤ entryPos w i := Nat.le_max_right _ _
      have hoff : w.off ≤ entryPos w i := Nat.le_max_left _ _
      have hleft : min w.endTmp ((i + 1) * BLOCK_SIZE) = w.endTmp := by
        unfold BLOCK_SIZE at *
        omega
      have hreach : entryPos w i ≤ w.endTmp := by
        unfold entryPos BLOCK_SIZE at *
        omega
      have hb : w.endTmp ≤ (i + 1) * BLOCK_SIZE := by
        unfold BLOCK_SIZE at *
        omega
      have hnum : (w.endTmp - i * BLOCK_SIZE + 2 ^ 32 -
          (entryPos w i - i * BLOCK_SIZE)) % 2 ^ 32 =
          w.endTmp - entryPos w i := by
        omega
      have hcur : (entryPos w i - w.off + (w.endTmp - entryPos w i)) % 2 ^ 32 =
          w.endTmp - w.off := by
        omega
      simp only [readBlocks, begin_eq hw hfirst, end_eq hw (by omega : i ≤ _),
        hleft, hnum, hcur]
      rw [memcpyData_block fs w buf hentry hreach hb hoff]
  | succ n ih =>
      intro i buf hfirst hlast
      have hend := hw.last
      have hentry : i * BLOCK_SIZE ≤ entryPos w i := Nat.le_max_right _ _
      have hoff : w.off ≤ entryPos w i := Nat.le_max_left _ _
      have hnext := entryPos_succ hw hfirst (by omega)
      have hfull : min w.endTmp ((i + 1) * BLOCK_SIZE) =
          (i + 1) * BLOCK_SIZE := by
        unfold BLOCK_SIZE at *
        omega
      have hreach : entryPos w i ≤ entryPos w (i + 1) := by
        rw [hnext, hfull]
        have hfirstOff := hw.first
        unfold entryPos BLOCK_SIZE at *
        omega
      have hb : entryPos w (i + 1) ≤ (i + 1) * BLOCK_SIZE := by
        rw [hnext]
        exact Nat.min_le_right _ _
      have htop : entryPos w (i + 1) ≤ w.endTmp := by
        rw [hnext]
        exact Nat.min_le_left _ _
      have hnum : (entryPos w (i + 1) - i * BLOCK_SIZE + 2 ^ 32 -
          (entryPos w i - i * BLOCK_SIZE)) % 2 ^ 32 =
          entryPos w (i + 1) - entryPos w i := by
        omega
      have hcur : (entryPos w i - w.off +
          (entryPos w (i + 1) - entryPos w i)) % 2 ^ 32 =
          entryPos w (i + 1) - w.off := by
        omega
      rw [readBlocks]
      simp only [begin_eq hw hfirst, end_eq hw (by omega : i ≤ _), ← hnext,
        hnum, hcur]
      rw [memcpyData_block fs w buf hentry hreach hb hoff,
        ih (i + 1) _ (by omega) (by omega)]
      refine Prod.ext rfl (funext fun j => ?_)
      -- a byte is copied by this block or by a later one
      dsimp only
      by_cases hlate : entryPos w (i + 1) - w.off ≤ j ∧ j < w.endTmp - w.off
      · rw [if_pos hlate, if_pos ⟨by omega, hlate.2⟩]
      · rw [if_neg hlate]
        by_cases hhere : entryPos w i - w.off ≤ j ∧ j < entryPos w (i + 1) - w.off
        · rw [if_pos hhere, if_pos ⟨hhere.1, by omega⟩]
        · rw [if_neg hhere, if_neg (by omega)]

/-- The walk that `read_data` sets up. -/
def walkOf (inode : Inode) (off length : Nat) : BlockWalk :=
  let sum := (off + length) % 2 ^ 32
  let endTmp := if sum > inode.size then inode.size else sum
  { inode, off, endTmp
    firstIndex := off / BLOCK_SIZE
    lastIndex := endTmp / BLOCK_SIZE
    flag1 := off / BLOCK_SIZE * BLOCK_SIZE != off
    flag2 := (endTmp / BLOCK_SIZE + 1) * BLOCK_SIZE != endTmp }

/-- Before the end of the file, `read_data` runs this walk. -/
theorem readData_eq_walk (fs : FileSys) (inode : Inode) (off length : Nat)
    (buf : Nat → Byte) (hinit : fs.bootB ≠ none) (hoff : off < inode.size) :
    readData fs inode off buf length =
      let w := walkOf inode off length
      let r := readBlocks fs w (w.lastIndex + 1 - w.firstIndex) w.firstIndex 0 buf
      (toInt32 r.1, r.2) := by
  obtain ⟨boot, hboot⟩ := Option.ne_none_iff_exists'.1 hinit
  simp only [readData, hboot, ge_iff_le, Nat.not_le.2 hoff, if_false]
  rfl

/-- The walk ends where the length or the file ends. -/
theorem walkOf_endTmp {inode : Inode} {off length : Nat}
    (hoff : off < inode.size) (hwrap : off + length < 2 ^ 32) :
    (walkOf inode off length).endTmp =
      off + min length (inode.size - off) := by
  have hsum : (off + length) % 2 ^ 32 = off + length := Nat.mod_eq_of_lt hwrap
  simp only [walkOf, hsum]
  split <;> omega

theorem walkOf_covers {inode : Inode} {off length : Nat}
    (hoff : off < inode.size) (hwrap : off + length < 2 ^ 32) :
    BlockWalk.Covers (walkOf inode off length) :=
  have hend := walkOf_endTmp hoff hwrap
  { le := by
      rw [hend]
      exact Nat.le_add_right _ _
    small := by
      rw [hend]
      omega
    first := rfl
    last := rfl
    aligned := by
      intro hflag
      have heq : off / BLOCK_SIZE * BLOCK_SIZE = off := by
        simpa [walkOf, bne_eq_false_iff_eq] using hflag
      show off % BLOCK_SIZE = 0
      unfold BLOCK_SIZE at *
      omega
    open_end := by
      show (_ != _) = true
      rw [bne_iff_ne]
      unfold BLOCK_SIZE
      omega }

/-- `read_data` from an offset inside the file returns the requested length or
what is left of the file, and stores exactly those bytes of the file. -/
theorem readData_spec (fs : FileSys) (inode : Inode) (off length : Nat)
    (buf : Nat → Byte) (hinit : fs.bootB ≠ none) (hoff : off < inode.size)
    (hwrap : off + length < 2 ^ 32) :
    readData fs inode off buf length =
      (toInt32 (min length (inode.size - off)), fun j =>
        if j < min length (inode.size - off) then
          fileByte fs inode (off + j) else buf j) := by
  have hw := walkOf_covers hoff hwrap
  have hcount : (walkOf inode off length).endTmp - off =
      min length (inode.size - off) := by
    rw [walkOf_endTmp hoff hwrap]
    exact Nat.add_sub_cancel_left off _
  rw [readData_eq_walk fs inode off length buf hinit hoff]
  have hfile : (walkOf inode off length).inode = inode := rfl
  have hstart : (walkOf inode off length).off = off := rfl
  generalize walkOf inode off length = w at *
  have hfirst := hw.first
  have hlast := hw.last
  have hle := hw.le
  have hentry : entryPos w w.firstIndex = off := by
    unfold entryPos BLOCK_SIZE at *
    omega
  have hblocks : w.lastIndex + 1 - w.firstIndex =
      (w.lastIndex - w.firstIndex) + 1 := by
    unfold BLOCK_SIZE at *
    omega
  have hrest : w.firstIndex + (w.lastIndex - w.firstIndex) = w.lastIndex := by
    unfold BLOCK_SIZE at *
    omega
  have hrun := readBlocks_spec fs hw (w.lastIndex - w.firstIndex)
    w.firstIndex buf (Nat.le_refl _) hrest
  rw [hentry, hstart, Nat.sub_self, ← hblocks, hcount, hfile] at hrun
  dsimp only
  rw [hrun]
  simp only [Nat.zero_le, true_and]

/-- At or behind the end of the file `read_data` delivers nothing. -/
theorem readData_eof (fs : FileSys) (inode : Inode) (off length : Nat)
    (buf : Nat → Byte) (hinit : fs.bootB ≠ none) (hoff : inode.size ≤ off) :
    readData fs inode off buf length = (0, buf) := by
  obtain ⟨boot, hboot⟩ := Option.ne_none_iff_exists'.1 hinit
  simp [readData, hboot, hoff]

/-- The number of block numbers in an inode, `INODE_BLK`. -/
def INODE_BLK : Nat := BLOCK_SIZE / 4 - 1

/-- `read_data` is a slice of the file: it returns 0 from the end of the file
on, and otherwise the length or what is left of the file; the bytes it stores
are those of the file from the offset on, and no others. -/
theorem read_data_slices_file (fs : FileSys) (inode : Inode) (off length : Nat)
    (buf : Nat → Byte) (hinit : fs.bootB ≠ none)
    (hsize : inode.size ≤ INODE_BLK * BLOCK_SIZE)
    (hwrap : off + length < 2 ^ 32) :
    ∃ count : Nat,
      count = (if inode.size ≤ off then 0 else min length (inode.size - off)) ∧
      (readData fs inode off buf length).1 = count ∧
      (∀ j < count, (readData fs inode off buf length).2 j =
        fs.datab (inode.dataBlocks ((off + j) / 4096) * 4096 +
          (off + j) % 4096)) ∧
      ∀ j, count ≤ j → (readData fs inode off buf length).2 j = buf j := by
  by_cases hoff : inode.size ≤ off
  · rw [readData_eof fs inode off length buf hinit hoff, if_pos hoff]
    refine ⟨0, rfl, rfl, ?_, fun _ _ => rfl⟩
    intro j hj
    exact absurd hj (Nat.not_lt_zero j)
  · rw [readData_spec fs inode off length buf hinit (Nat.not_le.1 hoff) hwrap,
      if_neg hoff]
    refine ⟨min length (inode.size - off), rfl, ?_, ?_, ?_⟩
    · apply toInt32_of_lt
      unfold INODE_BLK BLOCK_SIZE at hsize
      omega
    · intro j hj
      exact if_pos hj
    · intro j hj
      exact if_neg (Nat.not_lt.2 hj)

/-- A file of 5000 bytes, in the data blocks 7 and 3. -/
def twoBlockFile : Inode :=
  { size := 5000, dataBlocks := fun i => if i = 0 then 7 else 3 }

/-- A boot block for eight data blocks. -/
def numberedBoot : BootBlock :=
  { numDirEntries := 0
    numInodes := 1
    numDataBlocks := 8
    dirEntries := fun _ =>
      { filename := List.replicate 32 0, type := 0, indexNode := 0
        reserved := List.replicate 24 0 } }

/-- An image with this file; each byte of a data block is the number of the
block. -/
def numberedImage : FileSys :=
  { bootB := some numberedBoot
    inodeSt := fun _ => twoBlockFile
    datab := fun a => UInt8.ofNat (a / 4096) }

/-- Three bytes over the end of the first block come from both blocks. -/
theorem twoBlockFile_slice :
    (readData numberedImage twoBlockFile 4095 (fun _ => 0) 3).1 = 3 ∧
    (readData numberedImage twoBlockFile 4095 (fun _ => 0) 3).2 0 = 7 ∧
    (readData numberedImage twoBlockFile 4095 (fun _ => 0) 3).2 1 = 3 ∧
    (readData numberedImage twoBlockFile 4095 (fun _ => 0) 3).2 3 = 0 := by
  obtain ⟨count, hcount, hret, hbytes, hrest⟩ :=
    read_data_slices_file numberedImage twoBlockFile 4095 3 (fun _ => 0) nofun
      (by decide) (by decide)
  have hthree : count = 3 := hcount.trans (by decide)
  subst hthree
  exact ⟨hret, (hbytes 0 (by decide)).trans (by decide),
    (hbytes 1 (by decide)).trans (by decide), hrest 3 (by decide)⟩

end MongOS.Proofs.ReadData
