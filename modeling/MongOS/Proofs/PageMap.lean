import MongOS.Model.Paging
import Mathlib.Tactic.Common

/-!
# The memory map after `paging_init`

Each entry of the three arrays is decoded after the loops that set it, and the
walk over them is then a function of the address alone (`memoryMap`).  It is
the intended map from 4 MB on and on the video pages; below 4 MB the table
makes every other page present, too.
-/

namespace MongOS.Proofs.PageMap

open MongOS.Model MongOS.Verified

/-! ## Decoded entries -/

/-- What a directory entry stands for. -/
inductive DirectoryEntry where
  | absent
  /-- A 4 MB page. -/
  | page (number : Nat)
  /-- A page table in a page frame. -/
  | table (frame : Nat)
  deriving DecidableEq

/-- Read a directory entry as the processor does. -/
def decodePde (e : BitVec 32) : DirectoryEntry :=
  if Pde4kb.present.get e = 0 then .absent
  else if Pde4mb.pageSize.get e = 1 then .page (Pde4mb.address.get e)
  else .table (Pde4kb.address.get e)

/-- The page frame of a present table entry. -/
def decodePte (e : BitVec 32) : Option Nat :=
  if PteWord.present.get e = 0 then none else some (PteWord.address.get e)

/-- The address behind `a` once its directory entry is decoded. -/
def DirectoryEntry.resolve (words : Words) (a : Nat) :
    DirectoryEntry → Option Nat
  | absent => none
  | page number => some (number * 2 ^ 22 + a % 2 ^ 22)
  | table frame =>
      (decodePte (words (frameWord frame + a / 2 ^ 12 % 1024))).map
        fun target => target * 2 ^ 12 + a % 2 ^ 12

/-- The walk over the tables through decoded entries. -/
theorem translate_eq_resolve {s : Paging} (hpaging : s.cr0.getLsbD 31 = true)
    (hlarge : s.cr4.getLsbD 4 = true) (va : BitVec 32) :
    s.translate va =
      (decodePde
        (s.words (frameWord (s.cr3.toNat / 4096) + va.toNat / 2 ^ 22))).resolve
        s.words va.toNat := by
  unfold Paging.translate decodePde
  rw [if_neg (by simp [hpaging])]
  dsimp only
  generalize s.words (frameWord (s.cr3.toNat / 4096) + va.toNat / 2 ^ 22) = pde
  by_cases hpresent : Pde4kb.present.get pde = 0
  · rw [if_pos hpresent, if_pos hpresent]
    rfl
  · rw [if_neg hpresent, if_neg hpresent]
    by_cases hsize : Pde4mb.pageSize.get pde = 1
    · rw [if_pos ⟨hlarge, hsize⟩, if_pos hsize]
      rfl
    · rw [if_neg (fun h => hsize h.2), if_neg hsize]
      rw [DirectoryEntry.resolve, decodePte]
      by_cases hentry : PteWord.present.get (s.words
          (frameWord (Pde4kb.address.get pde) + va.toNat / 2 ^ 12 % 1024)) = 0
      · rw [if_pos hentry, if_pos hentry]
        rfl
      · rw [if_neg hentry, if_neg hentry]
        rfl

/-! ## The setters -/

section Setters

variable (p : PageArrays) (words : Words)

theorem decodePde_setParamterPdeKb (i : Nat) :
    decodePde (setParamterPdeKb p words i 1 (frameWord p.pageDirectory + i)) =
      .table p.pageTable := by
  have hframe : p.pageTable % 2 ^ Pde4kb.address.width = p.pageTable :=
    Nat.mod_eq_of_lt p.pageTable_lt
  unfold setParamterPdeKb decodePde
  rw [updateAt_self]
  simp (disch := decide) only [BitField.get_set_of_eq,
    BitField.get_set_of_disjoint]
  rw [if_neg (by decide), if_neg (by decide), hframe]

theorem decodePde_setParamterPdeMb_present {i : Nat} (hi : i < PDE_TOT_NUM) :
    decodePde (setParamterPdeMb p words i 1 (frameWord p.pageDirectory + i)) =
      .page i := by
  have hnumber : i % 2 ^ Pde4mb.address.width = i := Nat.mod_eq_of_lt hi
  unfold setParamterPdeMb decodePde
  rw [updateAt_self]
  simp (disch := decide) only [BitField.get_set_of_eq,
    BitField.get_set_of_disjoint]
  rw [if_neg (by decide), if_pos (by decide), hnumber]

/-- A 4 MB entry with flag 0 is neither present nor large. -/
theorem setParamterPdeMb_absent (i : Nat) :
    let e := setParamterPdeMb p words i 0 (frameWord p.pageDirectory + i)
    Pde4kb.present.get e = 0 ∧ Pde4mb.pageSize.get e = 0 := by
  dsimp only
  unfold setParamterPdeMb
  rw [updateAt_self]
  simp (disch := decide) only [BitField.get_set_of_eq,
    BitField.get_set_of_disjoint]
  decide

/-- What the first loop makes of entry `index`. -/
def plannedPde (p : PageArrays) (index : Nat) : DirectoryEntry :=
  if index = 0 then .table p.pageTable
  else if index = 1 ∨ index = USER_IMAGE then .page index
  else if index = USER_VIDMEM_INDEX then .table p.pageTableUsermapping
  else .absent

theorem decodePde_initDirectoryEntry {index : Nat} (hi : index < PDE_TOT_NUM) :
    decodePde
        (initDirectoryEntry p words index (frameWord p.pageDirectory + index)) =
      plannedPde p index := by
  have hframe : p.pageTableUsermapping % 2 ^ Pde4kb.address.width =
      p.pageTableUsermapping := Nat.mod_eq_of_lt p.pageTableUsermapping_lt
  have habsent := setParamterPdeMb_absent p words index
  unfold initDirectoryEntry plannedPde
  by_cases hzero : index = 0
  · rw [if_pos hzero, if_pos hzero]
    exact decodePde_setParamterPdeKb p words index
  · rw [if_neg hzero, if_neg hzero]
    by_cases hlarge : index = 1 ∨ index = USER_IMAGE
    · rw [if_pos hlarge, if_pos hlarge]
      exact decodePde_setParamterPdeMb_present p words hi
    · rw [if_neg hlarge, if_neg hlarge]
      by_cases huser : index = USER_VIDMEM_INDEX
      · rw [if_pos huser, if_pos huser, updateAt_self, decodePde]
        simp (disch := decide) only [BitField.get_set_of_eq,
          BitField.get_set_of_disjoint]
        rw [if_neg (by decide), habsent.2, if_neg (by decide), hframe]
      · rw [if_neg huser, if_neg huser, decodePde, if_pos habsent.1]

theorem decodePte_setParamterPte {i : Nat} (hi : i < PTE_TOT_NUM) :
    decodePte (setParamterPte p words i 1 (frameWord p.pageTable + i)) =
      some i := by
  have hframe : i % 2 ^ PteWord.address.width = i :=
    Nat.mod_eq_of_lt (Nat.lt_trans hi (by decide))
  unfold setParamterPte decodePte
  rw [updateAt_self]
  simp (disch := decide) only [BitField.get_set_of_eq,
    BitField.get_set_of_disjoint]
  rw [if_neg (by decide), hframe]

theorem decodePte_initUserMapping (i flag : Nat) :
    decodePte
        (initUserMapping p words i flag (frameWord p.pageTableUsermapping + i)) =
      none := by
  unfold initUserMapping decodePte
  rw [updateAt_self]
  simp (disch := decide) only [BitField.get_set_of_eq,
    BitField.get_set_of_disjoint]
  rw [if_pos (by decide)]

end Setters

/-! ## One round of each loop -/

section Rounds

variable {p : PageArrays} {words : Words} {index w : Nat}

/-- A round of the first loop writes its directory entry only. -/
theorem initDirectoryEntry_of_ne (hw : w ≠ frameWord p.pageDirectory + index) :
    initDirectoryEntry p words index w = words w := by
  unfold initDirectoryEntry setParamterPdeKb setParamterPdeMb
  split
  · rw [updateAt_of_ne hw]
  · split
    · rw [updateAt_of_ne hw]
    · dsimp only
      split
      · rw [updateAt_of_ne hw, updateAt_of_ne hw]
      · rw [updateAt_of_ne hw]

/-- Both branches of the last conditional of the second loop are the same. -/
theorem initTableEntries_eq :
    initTableEntries p words index =
      setParamterPte p
        (let words := initUserMapping p words index 0
        if (index : Int) = OUR_VID_MAP then
          updateAt words (frameWord p.pageTableUsermapping + index) fun e =>
            PteWord.address.set (VIDEO_MEM >>> pagingOffset)
              (PteWord.present.set 1 e)
        else words) index 1 := by
  unfold initTableEntries
  exact ite_self _

/-- A round of the second loop writes one entry of each table only. -/
theorem initTableEntries_of_ne (htable : w ≠ frameWord p.pageTable + index)
    (huser : w ≠ frameWord p.pageTableUsermapping + index) :
    initTableEntries p words index w = words w := by
  rw [initTableEntries_eq, setParamterPte, updateAt_of_ne htable]
  split
  · rw [updateAt_of_ne huser, initUserMapping, updateAt_of_ne huser]
  · rw [initUserMapping, updateAt_of_ne huser]

theorem decodePte_initTableEntries (hi : index < PTE_TOT_NUM) :
    decodePte
        (initTableEntries p words index (frameWord p.pageTable + index)) =
      some index := by
  rw [initTableEntries_eq]
  exact decodePte_setParamterPte p _ hi

/-- The user's video page is the only one of its table. -/
def plannedUserPte (index : Nat) : Option Nat :=
  if (index : Int) = OUR_VID_MAP then some (VIDEO_MEM >>> pagingOffset) else none

theorem decodePte_initTableEntries_user :
    decodePte (initTableEntries p words index
        (frameWord p.pageTableUsermapping + index)) =
      plannedUserPte index := by
  have hother : frameWord p.pageTableUsermapping + index ≠
      frameWord p.pageTable + index := by
    have hne := p.table_ne_usermapping
    unfold frameWord
    omega
  rw [initTableEntries_eq, setParamterPte, updateAt_of_ne hother,
    plannedUserPte]
  split
  · rw [updateAt_self, decodePte]
    simp (disch := decide) only [BitField.get_set_of_eq,
      BitField.get_set_of_disjoint]
    rw [if_neg (by decide)]
    rfl
  · exact decodePte_initUserMapping p words index 0

end Rounds

/-! ## The three arrays after `paging_init` -/

/-- Words of different page frames. -/
theorem frameWord_ne {f g i j : Nat} (hframe : f ≠ g) (hi : i < 1024)
    (hj : j < 1024) : frameWord f + i ≠ frameWord g + j := by
  unfold frameWord
  omega

section Arrays

variable (p : PageArrays) (words : Words) {i : Nat}

/-- Memory after the two loops. -/
def afterLoops : Words :=
  (List.range PTE_TOT_NUM).foldl (initTableEntries p)
    ((List.range PDE_TOT_NUM).foldl (initDirectoryEntry p) words)

/-- The first loop sets up the directory, and the second does not touch it. -/
theorem afterLoops_pageDirectory (hi : i < PDE_TOT_NUM) :
    decodePde (afterLoops p words (frameWord p.pageDirectory + i)) =
      plannedPde p i := by
  let P : Words → Prop := fun words =>
    decodePde (words (frameWord p.pageDirectory + i)) = plannedPde p i
  have hfirst : P ((List.range PDE_TOT_NUM).foldl (initDirectoryEntry p)
      words) := by
    apply foldl_range_establishes _ P hi
    case hround =>
      intro words
      exact decodePde_initDirectoryEntry p words hi
    case hlater =>
      intro words j hij _ hwords
      have hother : frameWord p.pageDirectory + i ≠
          frameWord p.pageDirectory + j := by omega
      simpa only [P, initDirectoryEntry_of_ne hother] using hwords
  apply foldl_range_preserves _ P _ hfirst
  intro words j hj hwords
  have htable := frameWord_ne p.directory_ne_table hi hj
  have huser := frameWord_ne p.directory_ne_usermapping hi hj
  simpa only [P, initTableEntries_of_ne htable huser] using hwords

/-- What round `i` of the second loop makes of word `w` is there after both
loops if no later round owns the word. -/
theorem decodePte_afterLoops {w : Nat} {entry : Option Nat}
    (hi : i < PTE_TOT_NUM)
    (hround : ∀ words, decodePte (initTableEntries p words i w) = entry)
    (hothers : ∀ j, i < j → j < PTE_TOT_NUM →
      w ≠ frameWord p.pageTable + j ∧
        w ≠ frameWord p.pageTableUsermapping + j) :
    decodePte (afterLoops p words w) = entry := by
  let P : Words → Prop := fun words => decodePte (words w) = entry
  show P (afterLoops p words)
  unfold afterLoops
  apply foldl_range_establishes _ P hi
  case hround => exact hround
  case hlater =>
    intro words j hij hj hwords
    have hother := hothers j hij hj
    simpa only [P, initTableEntries_of_ne hother.1 hother.2] using hwords

theorem afterLoops_pageTable (hi : i < PTE_TOT_NUM) :
    decodePte (afterLoops p words (frameWord p.pageTable + i)) = some i := by
  apply decodePte_afterLoops p words hi
  case hround =>
    intro words
    exact decodePte_initTableEntries hi
  case hothers =>
    intro j hij hj
    constructor
    · omega
    · exact frameWord_ne p.table_ne_usermapping hi hj

theorem afterLoops_pageTableUsermapping (hi : i < PTE_TOT_NUM) :
    decodePte (afterLoops p words (frameWord p.pageTableUsermapping + i)) =
      plannedUserPte i := by
  apply decodePte_afterLoops p words hi
  case hround =>
    intro words
    exact decodePte_initTableEntries_user
  case hothers =>
    intro j hij hj
    constructor
    · exact frameWord_ne p.table_ne_usermapping.symm hi hj
    · omega

variable (s : Paging)

/-- The last assignments of `paging_init` are to the video page's entry. -/
theorem pagingInit_words :
    (pagingInit p s).words =
      updateAt (afterLoops p s.words)
        (frameWord p.pageTable + VIDEO_MEM >>> pagingOffset) fun e =>
        PteWord.cacheDisable.set 0 (PteWord.present.set 1 e) := rfl

theorem pagingInit_pageDirectory (hi : i < PDE_TOT_NUM) :
    decodePde ((pagingInit p s).words (frameWord p.pageDirectory + i)) =
      plannedPde p i := by
  have hvideo := frameWord_ne p.directory_ne_table hi
    (by decide : VIDEO_MEM >>> pagingOffset < 1024)
  rw [pagingInit_words, updateAt_of_ne hvideo]
  exact afterLoops_pageDirectory p s.words hi

theorem pagingInit_pageTableUsermapping (hi : i < PTE_TOT_NUM) :
    decodePte ((pagingInit p s).words (frameWord p.pageTableUsermapping + i)) =
      plannedUserPte i := by
  have hvideo := frameWord_ne p.table_ne_usermapping.symm hi
    (by decide : VIDEO_MEM >>> pagingOffset < 1024)
  rw [pagingInit_words, updateAt_of_ne hvideo]
  exact afterLoops_pageTableUsermapping p s.words hi

/-- Setting a present entry present again does not change its frame. -/
theorem decodePte_present_again {e : BitVec 32} {frame : Nat}
    (he : decodePte e = some frame) :
    decodePte (PteWord.cacheDisable.set 0 (PteWord.present.set 1 e)) =
      some frame := by
  unfold decodePte at he ⊢
  simp (disch := decide) only [BitField.get_set_of_eq,
    BitField.get_set_of_disjoint]
  rw [if_neg (by decide)]
  split at he
  · cases he
  · exact he

theorem pagingInit_pageTable (hi : i < PTE_TOT_NUM) :
    decodePte ((pagingInit p s).words (frameWord p.pageTable + i)) =
      some i := by
  have hloop := afterLoops_pageTable p s.words hi
  rw [pagingInit_words]
  by_cases hvideo : i = VIDEO_MEM >>> pagingOffset
  · subst hvideo
    rw [updateAt_self]
    exact decodePte_present_again hloop
  · rw [updateAt_of_ne (by omega)]
    exact hloop

end Arrays

/-! ## The memory map -/

/-- Where an address goes after `paging_init`. -/
def memoryMap (a : Nat) : Option Nat :=
  if a < 0x800000 then some a
  else if 0x8000000 ≤ a ∧ a < 0x8400000 then some a
  else if 0x8422000 ≤ a ∧ a < 0x8423000 then some (0xB8000 + (a - 0x8422000))
  else none

/-- The planned directory gives the memory map if the tables are as planned. -/
theorem resolve_plannedPde {p : PageArrays} {words : Words} {a : Nat}
    (htable : decodePte
      (words (frameWord p.pageTable + a / 2 ^ 12 % 1024)) =
        some (a / 2 ^ 12 % 1024))
    (huser : decodePte
      (words (frameWord p.pageTableUsermapping + a / 2 ^ 12 % 1024)) =
        plannedUserPte (a / 2 ^ 12 % 1024)) :
    (plannedPde p (a / 2 ^ 22)).resolve words a = memoryMap a := by
  unfold plannedPde memoryMap
  by_cases hzero : a / 2 ^ 22 = 0
  · rw [if_pos hzero, DirectoryEntry.resolve, htable, if_pos (by omega)]
    show some (a / 2 ^ 12 % 1024 * 2 ^ 12 + a % 2 ^ 12) = some a
    congr 1
    omega
  · rw [if_neg hzero]
    by_cases hlarge : a / 2 ^ 22 = 1 ∨ a / 2 ^ 22 = USER_IMAGE
    · have hself : a / 2 ^ 22 * 2 ^ 22 + a % 2 ^ 22 = a := by omega
      rw [if_pos hlarge, DirectoryEntry.resolve, hself]
      unfold USER_IMAGE at hlarge
      cases hlarge with
      | inl hkernel => rw [if_pos (by omega)]
      | inr himage => rw [if_neg (by omega), if_pos (by omega)]
    · rw [if_neg hlarge]
      unfold USER_IMAGE at hlarge
      by_cases hvideo : a / 2 ^ 22 = USER_VIDMEM_INDEX
      · rw [if_pos hvideo, DirectoryEntry.resolve, huser, plannedUserPte]
        unfold USER_VIDMEM_INDEX at hvideo
        unfold OUR_VID_MAP
        rw [if_neg (c := a < 0x800000) (by omega),
          if_neg (c := 0x8000000 ≤ a ∧ a < 0x8400000) (by omega)]
        by_cases hpage : 0x8422000 ≤ a ∧ a < 0x8423000
        · rw [if_pos (by omega), if_pos hpage]
          have hframe : VIDEO_MEM >>> pagingOffset = 0xB8 := by decide
          have haddress : 0xB8 * 2 ^ 12 + a % 2 ^ 12 =
              0xB8000 + (a - 0x8422000) := by omega
          rw [hframe, Option.map_some, haddress]
        · rw [if_neg (by omega), if_neg hpage]
          rfl
      · rw [if_neg hvideo, DirectoryEntry.resolve]
        unfold USER_VIDMEM_INDEX at hvideo
        rw [if_neg (by omega), if_neg (by omega), if_neg (by omega)]

theorem translate_pagingInit (p : PageArrays) (s : Paging) (va : BitVec 32) :
    (pagingInit p s).translate va = memoryMap va.toNat := by
  have hva : va.toNat < 2 ^ 32 := va.isLt
  have hframe : (pagingInit p s).cr3.toNat / 4096 = p.pageDirectory := by
    have hlt := p.pageDirectory_lt
    show (BitVec.ofNat 32 (p.pageDirectory * 4096)).toNat / 4096 = _
    rw [BitVec.toNat_ofNat]
    omega
  have hpaging : (pagingInit p s).cr0.getLsbD 31 = true := by
    show (s.cr0 ||| 0x80000000).getLsbD 31 = true
    simp
  have hlarge : (pagingInit p s).cr4.getLsbD 4 = true := by
    show (s.cr4 ||| 0x00000010).getLsbD 4 = true
    simp
  have hindex : va.toNat / 2 ^ 22 < PDE_TOT_NUM := by
    show va.toNat / 2 ^ 22 < 1024
    omega
  have hentry : va.toNat / 2 ^ 12 % 1024 < PTE_TOT_NUM :=
    Nat.mod_lt _ (by decide)
  rw [translate_eq_resolve hpaging hlarge, hframe,
    pagingInit_pageDirectory p s hindex]
  apply resolve_plannedPde
  case htable => exact pagingInit_pageTable p s hentry
  case huser => exact pagingInit_pageTableUsermapping p s hentry

/-! ## The intended map -/

/-- The video page and the saved screens behind it. -/
def InVideo (a : Nat) : Prop := 0xB8000 ≤ a ∧ a < 0xBC000

/-- The kernel page. -/
def InKernel (a : Nat) : Prop := 0x400000 ≤ a ∧ a < 0x800000

/-- The page of the user image. -/
def InUserImage (a : Nat) : Prop := 0x8000000 ≤ a ∧ a < 0x8400000

/-- The user's video page. -/
def InUserVideo (a : Nat) : Prop := 0x8422000 ≤ a ∧ a < 0x8423000

/-- Address `va` goes where the memory map of the kernel intends it to go. -/
structure MapsAsIntended (s : Paging) (va : BitVec 32) : Prop where
  present : (s.translate va).isSome ↔
    InVideo va.toNat ∨ InKernel va.toNat ∨ InUserImage va.toNat ∨
      InUserVideo va.toNat
  kernel : InKernel va.toNat → s.translate va = some va.toNat
  video : InVideo va.toNat → s.translate va = some va.toNat
  user_video : InUserVideo va.toNat →
    s.translate va = some (0xB8000 + (va.toNat - 0x8422000))

/-- Which addresses translate. -/
theorem memoryMap_isSome (a : Nat) :
    (memoryMap a).isSome ↔
      a < 0x400000 ∨ InKernel a ∨ InUserImage a ∨ InUserVideo a := by
  unfold memoryMap InKernel InUserImage InUserVideo
  split
  case isTrue hlow => simp; omega
  case isFalse hlow =>
    split
    case isTrue himage => simp; omega
    case isFalse himage =>
      split
      case isTrue hvideo => simp; omega
      case isFalse hvideo => simp; omega

theorem memoryMap_low {a : Nat} (ha : a < 0x800000) :
    memoryMap a = some a := if_pos ha

theorem memoryMap_userVideo {a : Nat} (ha : InUserVideo a) :
    memoryMap a = some (0xB8000 + (a - 0x8422000)) := by
  unfold InUserVideo at ha
  unfold memoryMap
  rw [if_neg (by omega), if_neg (by omega), if_pos ha]

/-- The intended map holds of every address except those below 4 MB outside the
video pages, which are present as well. -/
theorem mapsAsIntended_iff (p : PageArrays) (s : Paging) (va : BitVec 32) :
    MapsAsIntended (pagingInit p s) va ↔
      0x400000 ≤ va.toNat ∨ (0xB8000 ≤ va.toNat ∧ va.toNat < 0xBC000) := by
  have hmap := translate_pagingInit p s va
  have hsome := memoryMap_isSome va.toNat
  constructor
  · intro hintended
    have hpresent := hintended.present
    rw [hmap, hsome] at hpresent
    unfold InVideo InKernel InUserImage InUserVideo at hpresent
    omega
  · intro hregion
    constructor
    case present =>
      rw [hmap, hsome]
      unfold InVideo InKernel InUserImage InUserVideo
      omega
    case kernel =>
      intro hkernel
      rw [hmap]
      exact memoryMap_low hkernel.2
    case video =>
      intro hvideo
      rw [hmap]
      exact memoryMap_low (Nat.lt_trans hvideo.2 (by decide))
    case user_video =>
      intro huser
      rw [hmap]
      exact memoryMap_userVideo huser

/-- Three arrays in kernel memory. -/
def sampleArrays : PageArrays :=
  { pageDirectory := 0x410
    pageTable := 0x411
    pageTableUsermapping := 0x412
    pageDirectory_lt := by decide
    pageTable_lt := by decide
    pageTableUsermapping_lt := by decide
    directory_ne_table := by decide
    directory_ne_usermapping := by decide
    table_ne_usermapping := by decide }

/-- A machine in protected mode without paging. -/
def sampleMachine : Paging :=
  { words := fun _ => 0, cr0 := 0x11, cr3 := 0, cr4 := 0 }

/-- A null pointer and the last byte before the kernel translate. -/
theorem null_translates :
    (pagingInit sampleArrays sampleMachine).translate 0 = some 0 ∧
      (pagingInit sampleArrays sampleMachine).translate 0x3FFFFF =
        some 0x3FFFFF ∧
      ¬ MapsAsIntended (pagingInit sampleArrays sampleMachine) 0 := by
  have hnull := translate_pagingInit sampleArrays sampleMachine 0
  have hedge := translate_pagingInit sampleArrays sampleMachine 0x3FFFFF
  constructor
  · exact hnull
  · constructor
    · exact hedge
    · intro hintended
      have hpresent := hintended.present.1 (by rw [hnull]; rfl)
      revert hpresent
      unfold InVideo InKernel InUserImage InUserVideo
      decide

/-! ## The console's view -/

/-- Below 4 MB the console's translation is the processor's. -/
theorem translate_unclearedConsole (p : PageArrays) (s : Paging)
    (mem : Int → Byte) {va : BitVec 32} (hva : va.toNat < 0x400000) :
    (pagingInit p s).translate va =
      some ((unclearedConsole mem).translate va.toNat).toNat := by
  have hlow : va.toNat < 0x800000 := Nat.lt_trans hva (by decide)
  rw [translate_pagingInit, memoryMap_low hlow]
  unfold Console.translate unclearedConsole VIDEO PAGE
  dsimp only
  congr 1
  split <;> omega

/-- The console's user mapping is the decoded table. -/
theorem userMapping_unclearedConsole (p : PageArrays) (s : Paging)
    (mem : Int → Byte) {i : Nat} (hi : i < PTE_TOT_NUM) :
    decodePte ((pagingInit p s).words
        (frameWord p.pageTableUsermapping + i)) =
      if ((unclearedConsole mem).userMapping i).present = 0 then none
      else some ((unclearedConsole mem).userMapping i).address.toNat := by
  rw [pagingInit_pageTableUsermapping p s hi]
  unfold plannedUserPte unclearedConsole
  by_cases hvideo : (i : Int) = OUR_VID_MAP
  · simp only [if_pos hvideo]
    rfl
  · simp only [if_neg hvideo]
    rfl

end MongOS.Proofs.PageMap
