import MongOS.Proofs.ReadData

/-!
# What `read_data` touches

The loop of `read_data` looks at one entry of the block table a round and
copies out of the block it finds there.  `dataCopies` lists these copies, and
`readData_eq_copies` says that the call is nothing but them, one after the
other.

The table belongs to the inode up to entry `INODE_BLK`, and to the file up to
its size.  The loop runs to the block that the end position is divided down to,
which for an end at the end of a block is the block behind the last one read;
and no block number is compared with the number of data blocks.
`read_inside_iff` says for which inodes and ranges this stays inside the image.
-/

namespace MongOS.Proofs.ReadAccess

open MongOS.Model
open MongOS.Proofs.ReadData

/-! ## The copies of a read -/

/-- One round of the loop: the entry of the block table, the block number found
there, and the range of the block that is copied. -/
structure BlockCopy where
  entry : Nat
  block : Nat
  start : Nat
  num : Nat

/-- The copy of round `i`. -/
def blockCopy (w : BlockWalk) (i : Nat) : BlockCopy :=
  let beginPosition :=
    if w.flag1 && i == w.firstIndex then w.off - i * BLOCK_SIZE else 0
  let endPosition :=
    if w.flag2 && i == w.lastIndex then w.endTmp - i * BLOCK_SIZE
    else BLOCK_SIZE
  { entry := i
    block := w.inode.dataBlocks i
    start := beginPosition
    num := (endPosition + 2 ^ 32 - beginPosition) % 2 ^ 32 }

/-- Copy to the end of what has been copied. -/
def runCopy (fs : FileSys) (r : Nat × (Nat → Byte)) (c : BlockCopy) :
    Nat × (Nat → Byte) :=
  ((r.1 + c.num) % 2 ^ 32,
    memcpyData fs r.2 r.1 (c.block * BLOCK_SIZE + c.start) c.num)

/-- The copies of a call of `read_data`. -/
def dataCopies (fs : FileSys) (inode : Inode) (off length : Nat) :
    List BlockCopy :=
  if fs.bootB.isNone ∨ off ≥ inode.size then []
  else
    let w := walkOf inode off length
    (List.range' w.firstIndex (w.lastIndex + 1 - w.firstIndex)).map (blockCopy w)

theorem readBlocks_eq_copies (fs : FileSys) (w : BlockWalk) (n : Nat) :
    ∀ (i curBytes : Nat) (buf : Nat → Byte),
      readBlocks fs w n i curBytes buf =
        ((List.range' i n).map (blockCopy w)).foldl (runCopy fs)
          (curBytes, buf) := by
  induction n with
  | zero =>
      intro i curBytes buf
      rfl
  | succ n ih =>
      intro i curBytes buf
      rw [readBlocks, List.range'_succ, List.map_cons, List.foldl_cons]
      exact ih (i + 1) _ _

/-- Before the end of the file the loop runs over the blocks from that of the
offset to that of the end position. -/
theorem dataCopies_eq {fs : FileSys} {inode : Inode} {off length : Nat}
    (hinit : fs.bootB ≠ none) (hoff : off < inode.size) :
    dataCopies fs inode off length =
      (List.range' (walkOf inode off length).firstIndex
        ((walkOf inode off length).lastIndex + 1 -
          (walkOf inode off length).firstIndex)).map
        (blockCopy (walkOf inode off length)) := by
  have hsome : fs.bootB.isNone = false := by
    rwa [Option.isNone_eq_false_iff, Option.isSome_iff_ne_none]
  unfold dataCopies
  rw [if_neg (by simp [hsome, Nat.not_le.2 hoff])]

/-- From the end of the file on, nothing is copied. -/
theorem dataCopies_eof {fs : FileSys} {inode : Inode} {off length : Nat}
    (hoff : inode.size ≤ off) : dataCopies fs inode off length = [] :=
  if_pos (.inr hoff)

/-- A call of `read_data` on a mounted image returns the number of bytes its
copies have copied, and stores what they store. -/
theorem readData_eq_copies (fs : FileSys) (inode : Inode) (off length : Nat)
    (buf : Nat → Byte) (hinit : fs.bootB ≠ none) :
    readData fs inode off buf length =
      (toInt32 ((dataCopies fs inode off length).foldl (runCopy fs) (0, buf)).1,
        ((dataCopies fs inode off length).foldl (runCopy fs) (0, buf)).2) := by
  by_cases hoff : off < inode.size
  · rw [readData_eq_walk fs inode off length buf hinit hoff,
      dataCopies_eq hinit hoff]
    dsimp only
    rw [readBlocks_eq_copies]
  · rw [readData_eof fs inode off length buf hinit (Nat.not_lt.1 hoff),
      dataCopies_eof (Nat.not_lt.1 hoff)]
    rfl

/-- The copies before the end of the file, one for each of these blocks. -/
theorem mem_dataCopies {fs : FileSys} {inode : Inode} {off length : Nat}
    (hinit : fs.bootB ≠ none) (hoff : off < inode.size) {c : BlockCopy} :
    c ∈ dataCopies fs inode off length ↔
      ∃ i, off / BLOCK_SIZE ≤ i ∧
        i ≤ (walkOf inode off length).endTmp / BLOCK_SIZE ∧
        blockCopy (walkOf inode off length) i = c := by
  have hrange : ∀ i, i ∈ List.range' (walkOf inode off length).firstIndex
      ((walkOf inode off length).lastIndex + 1 -
        (walkOf inode off length).firstIndex) ↔
      off / BLOCK_SIZE ≤ i ∧
        i ≤ (walkOf inode off length).endTmp / BLOCK_SIZE := by
    intro i
    rw [List.mem_range'_1]
    show off / BLOCK_SIZE ≤ i ∧
      i < off / BLOCK_SIZE + ((walkOf inode off length).endTmp / BLOCK_SIZE + 1 -
        off / BLOCK_SIZE) ↔ _
    omega
  rw [dataCopies_eq hinit hoff]
  simp only [List.mem_map, hrange, and_assoc]

/-- A read that does not wrap copies ranges of its blocks. -/
theorem blockCopy_within {w : BlockWalk} (hw : BlockWalk.Covers w) {i : Nat}
    (hfirst : w.firstIndex ≤ i) (hlast : i ≤ w.lastIndex) :
    (blockCopy w i).start + (blockCopy w i).num ≤ BLOCK_SIZE := by
  have hoff := hw.first
  have hend := hw.last
  have hle := hw.le
  have hsmall := hw.small
  simp only [blockCopy, begin_eq hw hfirst, end_eq hw hlast]
  unfold entryPos BLOCK_SIZE at *
  omega

/-! ## Reads inside the image -/

/-- Entry `i` of the block table belongs to the inode and to its file. -/
def InFile (inode : Inode) (i : Nat) : Prop :=
  i < INODE_BLK ∧ i < (inode.size + BLOCK_SIZE - 1) / BLOCK_SIZE

instance decidable_inFile (inode : Inode) (i : Nat) :
    Decidable (InFile inode i) := inferInstanceAs (Decidable (_ ∧ _))

/-- A read that stays inside the image: it looks only at entries of the file,
copies only out of data blocks that the image has, and fails when the inode
names a block that the image does not have. -/
structure StaysInside (boot : BootBlock) (inode : Inode) (ret : Int)
    (copies : List BlockCopy) : Prop where
  entries : ∀ c ∈ copies, InFile inode c.entry
  blocks : ∀ c ∈ copies, 0 < c.num →
    c.block < boot.numDataBlocks ∧ c.start + c.num ≤ BLOCK_SIZE
  refuses : (∃ i, InFile inode i ∧ boot.numDataBlocks ≤ inode.dataBlocks i) →
    ret = -1

/-- The inode names only data blocks of the image. -/
def NamesDataBlocks (boot : BootBlock) (inode : Inode) : Prop :=
  ∀ i, InFile inode i → inode.dataBlocks i < boot.numDataBlocks

/-- The block that the end position is divided down to is a block of the file,
or the loop does not run: from the end of the file on, and when the sum of
offset and length wraps to an earlier block. -/
def EndsInFile (inode : Inode) (off length : Nat) : Prop :=
  inode.size ≤ off ∨
  (off + length < 2 ^ 32 ∧
    InFile inode (min (off + length) inode.size / BLOCK_SIZE)) ∨
  (2 ^ 32 ≤ off + length ∧
    (off + length - 2 ^ 32) / BLOCK_SIZE < off / BLOCK_SIZE)

section Read

variable {fs : FileSys} {boot : BootBlock} {inode : Inode} {off length : Nat}

theorem inFile_mono {i j : Nat} (hle : j ≤ i) (hi : InFile inode i) :
    InFile inode j :=
  ⟨Nat.lt_of_le_of_lt hle hi.1, Nat.lt_of_le_of_lt hle hi.2⟩

/-- Where a wrapped sum ends. -/
theorem walkOf_wrapped (hoff : off < 2 ^ 32) (hlength : length < 2 ^ 32)
    (hbefore : off < inode.size) (hwrap : 2 ^ 32 ≤ off + length) :
    (walkOf inode off length).endTmp = off + length - 2 ^ 32 := by
  have hsum : (off + length) % 2 ^ 32 = off + length - 2 ^ 32 := by omega
  simp only [walkOf, hsum]
  exact if_neg (by omega)

/-- A sum that wraps to an earlier block ends the loop before it begins. -/
theorem dataCopies_wrapped (hoff : off < 2 ^ 32) (hlength : length < 2 ^ 32)
    (hbefore : off < inode.size) (hwrap : 2 ^ 32 ≤ off + length)
    (hearlier : (off + length - 2 ^ 32) / BLOCK_SIZE < off / BLOCK_SIZE) :
    dataCopies fs inode off length = [] := by
  have hnone : (walkOf inode off length).lastIndex + 1 -
      (walkOf inode off length).firstIndex = 0 := by
    show (walkOf inode off length).endTmp / BLOCK_SIZE + 1 - off / BLOCK_SIZE = 0
    rw [walkOf_wrapped hoff hlength hbefore hwrap]
    omega
  unfold dataCopies
  split
  · rfl
  · dsimp only
    rw [hnone]
    rfl

/-- A sum that wraps within the block makes the difference of the positions
wrap too: the copy is longer than a block. -/
theorem wrapped_copy_leaves (hoff : off < 2 ^ 32) (hlength : length < 2 ^ 32)
    (hbefore : off < inode.size) (hwrap : 2 ^ 32 ≤ off + length)
    (hsame : (off + length - 2 ^ 32) / BLOCK_SIZE = off / BLOCK_SIZE) :
    BLOCK_SIZE < (blockCopy (walkOf inode off length) (off / BLOCK_SIZE)).num := by
  have hend := walkOf_wrapped hoff hlength hbefore hwrap
  have hlast : (walkOf inode off length).lastIndex = off / BLOCK_SIZE := by
    show (walkOf inode off length).endTmp / BLOCK_SIZE = _
    rw [hend, hsame]
  have hfirst : (walkOf inode off length).firstIndex = off / BLOCK_SIZE := rfl
  have hstart : (walkOf inode off length).off = off := rfl
  have hflag1 : (walkOf inode off length).flag1 = true := by
    show (_ != _) = true
    rw [bne_iff_ne]
    unfold BLOCK_SIZE at *
    omega
  have hflag2 : (walkOf inode off length).flag2 = true := by
    show (_ != _) = true
    rw [bne_iff_ne]
    unfold BLOCK_SIZE
    omega
  simp only [blockCopy, hflag1, hflag2, hfirst, hlast, hend, hstart, beq_self_eq_true,
    Bool.and_self, if_true]
  unfold BLOCK_SIZE at *
  omega

/-- A read that stays in the file does not return `-1`. -/
theorem ret_ne_fail (buf : Nat → Byte) (hinit : fs.bootB ≠ none)
    (hoff : off < 2 ^ 32) (hlength : length < 2 ^ 32)
    (hends : EndsInFile inode off length) :
    (readData fs inode off buf length).1 ≠ -1 := by
  rcases Nat.lt_or_ge off inode.size with hbefore | heof
  · rcases hends with heof | ⟨hsum, hfile⟩ | ⟨hwrap, hearlier⟩
    · exact absurd heof (Nat.not_le.2 hbefore)
    · have hcount : min length (inode.size - off) < 2 ^ 31 := by
        have hblock := hfile.1
        unfold INODE_BLK BLOCK_SIZE at hblock
        omega
      rw [readData_spec fs inode off length buf hinit hbefore hsum,
        toInt32_of_lt hcount]
      omega
    · rw [readData_eq_copies fs inode off length buf hinit,
        dataCopies_wrapped hoff hlength hbefore hwrap hearlier]
      exact (by decide : toInt32 0 ≠ -1)
  · rw [readData_eof fs inode off length buf hinit heof]
    exact (by decide : (0 : Int) ≠ -1)

theorem endsInFile_of_staysInside (hinit : fs.bootB ≠ none)
    (hoff : off < 2 ^ 32) (hlength : length < 2 ^ 32) {ret : Int}
    (h : StaysInside boot inode ret (dataCopies fs inode off length)) :
    EndsInFile inode off length := by
  rcases Nat.lt_or_ge off inode.size with hbefore | heof
  · refine .inr ?_
    rcases Nat.lt_or_ge (off + length) (2 ^ 32) with hsum | hwrap
    · have hend : (walkOf inode off length).endTmp =
          min (off + length) inode.size := by
        rw [walkOf_endTmp hbefore hsum]
        omega
      have hlast : blockCopy (walkOf inode off length)
          (min (off + length) inode.size / BLOCK_SIZE) ∈
            dataCopies fs inode off length := by
        refine (mem_dataCopies hinit hbefore).2 ⟨_, ?_, ?_, rfl⟩
        · exact Nat.div_le_div_right (by omega)
        · rw [hend]
      exact .inl ⟨hsum, h.entries _ hlast⟩
    · refine .inr ⟨hwrap, ?_⟩
      have hle : (off + length - 2 ^ 32) / BLOCK_SIZE ≤ off / BLOCK_SIZE :=
        Nat.div_le_div_right (by omega)
      rcases Nat.lt_or_eq_of_le hle with hearlier | hsame
      · exact hearlier
      · have hlong := wrapped_copy_leaves hoff hlength hbefore hwrap hsame
        have hcopy : blockCopy (walkOf inode off length) (off / BLOCK_SIZE) ∈
            dataCopies fs inode off length := by
          refine (mem_dataCopies hinit hbefore).2 ⟨_, Nat.le_refl _, ?_, rfl⟩
          rw [walkOf_wrapped hoff hlength hbefore hwrap, hsame]
        have hwithin := (h.blocks _ hcopy (by omega)).2
        omega
  · exact .inl heof

theorem staysInside_of_endsInFile (hinit : fs.bootB ≠ none)
    (hoff : off < 2 ^ 32) (hlength : length < 2 ^ 32) (ret : Int)
    (hnames : NamesDataBlocks boot inode) (hends : EndsInFile inode off length) :
    StaysInside boot inode ret (dataCopies fs inode off length) := by
  have hrefuses : (∃ i, InFile inode i ∧
      boot.numDataBlocks ≤ inode.dataBlocks i) → ret = -1 := by
    rintro ⟨i, hfile, hbad⟩
    exact absurd (hnames i hfile) (Nat.not_lt.2 hbad)
  have hnothing : dataCopies fs inode off length = [] →
      StaysInside boot inode ret (dataCopies fs inode off length) := by
    intro hnil
    rw [hnil]
    exact ⟨nofun, nofun, hrefuses⟩
  rcases Nat.lt_or_ge off inode.size with hbefore | heof
  · rcases hends with heof | ⟨hsum, hfile⟩ | ⟨hwrap, hearlier⟩
    · exact absurd heof (Nat.not_le.2 hbefore)
    · have hend : (walkOf inode off length).endTmp =
          min (off + length) inode.size := by
        rw [walkOf_endTmp hbefore hsum]
        omega
      refine ⟨?_, ?_, hrefuses⟩
      · intro c hc
        obtain ⟨i, -, hlast, rfl⟩ := (mem_dataCopies hinit hbefore).1 hc
        exact inFile_mono (by rwa [hend] at hlast) hfile
      · intro c hc _
        obtain ⟨i, hfirst, hlast, rfl⟩ := (mem_dataCopies hinit hbefore).1 hc
        refine ⟨hnames i (inFile_mono (by rwa [hend] at hlast) hfile), ?_⟩
        exact blockCopy_within (walkOf_covers hbefore hsum) hfirst hlast
    · exact hnothing (dataCopies_wrapped hoff hlength hbefore hwrap hearlier)
  · exact hnothing (dataCopies_eof heof)

end Read

/-- `read_data` on a mounted image stays inside the image exactly when the
inode names only data blocks of the image and the read does not end at the end
of the last block of the file or behind the block table: these are the reads
whose end position lies in a block of the file, the reads from the end of the
file on, and those whose length wraps to an earlier block. -/
theorem read_inside_iff (fs : FileSys) (boot : BootBlock)
    (hboot : fs.bootB = some boot) (inode : Inode) (off length : Nat)
    (hoff : off < 2 ^ 32) (hlength : length < 2 ^ 32) (buf : Nat → Byte) :
    StaysInside boot inode (readData fs inode off buf length).1
        (dataCopies fs inode off length) ↔
      NamesDataBlocks boot inode ∧ EndsInFile inode off length := by
  have hinit : fs.bootB ≠ none := by
    rw [hboot]
    exact Option.some_ne_none boot
  constructor
  · intro h
    have hends := endsInFile_of_staysInside hinit hoff hlength h
    refine ⟨fun i hfile => Nat.not_le.1 fun hbad => ?_, hends⟩
    exact ret_ne_fail buf hinit hoff hlength hends (h.refuses ⟨i, hfile, hbad⟩)
  · rintro ⟨hnames, hends⟩
    exact staysInside_of_endsInFile hinit hoff hlength _ hnames hends

/-- Three bytes over the end of the first block of a file. -/
theorem twoBlockFile_inside :
    StaysInside numberedBoot twoBlockFile
      (readData numberedImage twoBlockFile 4095 (fun _ => 0) 3).1
      (dataCopies numberedImage twoBlockFile 4095 3) := by
  refine (read_inside_iff numberedImage numberedBoot rfl twoBlockFile 4095 3
    (by decide) (by decide) (fun _ => 0)).2 ⟨?_, .inr (.inl (by decide))⟩
  intro i _
  show (if i = 0 then 7 else 3) < 8
  split <;> decide

/-- A file that fills its only block. -/
def fullBlockFile : Inode := { size := 4096, dataBlocks := fun _ => 7 }

/-- A file of the largest size that a block table describes. -/
def maximalFile : Inode := { size := 1023 * 4096, dataBlocks := fun _ => 7 }

/-- A file of one byte in a block that the image does not have. -/
def strayFile : Inode := { size := 1, dataBlocks := fun _ => 8 }

/-- Reading a file that fills its blocks to its end looks at the entry behind
its last one, which for the largest file lies behind the table, and a block
number that the image does not have is used all the same. -/
theorem read_leaves_image :
    Accepted numberedImage ∧
    ¬ StaysInside numberedBoot fullBlockFile
      (readData numberedImage fullBlockFile 0 (fun _ => 0) 4096).1
      (dataCopies numberedImage fullBlockFile 0 4096) ∧
    ¬ StaysInside numberedBoot maximalFile
      (readData numberedImage maximalFile (1023 * 4096 - 1) (fun _ => 0) 1).1
      (dataCopies numberedImage maximalFile (1023 * 4096 - 1) 1) ∧
    ¬ StaysInside numberedBoot strayFile
      (readData numberedImage strayFile 0 (fun _ => 0) 1).1
      (dataCopies numberedImage strayFile 0 1) := by
  refine ⟨accepted_iff.2 ⟨numberedBoot, rfl, by decide⟩, ?_, ?_, ?_⟩
  · intro h
    exact absurd (h.entries ⟨1, 7, 0, 0⟩ (.tail _ (.head _))).2 (by decide)
  · intro h
    exact absurd (h.entries ⟨1023, 7, 0, 0⟩ (.tail _ (.head _))).1 (by decide)
  · intro h
    exact absurd (h.blocks ⟨0, 8, 0, 1⟩ (.head _) (by decide)).1 (by decide)

end MongOS.Proofs.ReadAccess
