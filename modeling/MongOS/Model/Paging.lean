import MongOS.Model.Screen
import MongOS.Verified.BitField

/-!
# The memory map (`paging.c`, `paging_asm.S`)

`paging_init` fills the page directory and two page tables and turns paging on.
Physical memory is a function from word numbers to 32-bit words; a page
directory entry is one word under two views, for a 4 KB table (`kb`) and for a
4 MB page (`mb`).  `Paging.translate` is the processor's walk over the tables.
-/

namespace MongOS.Model

open MongOS.Verified

def PDE_TOT_NUM : Nat := 1024
def PTE_TOT_NUM : Nat := 1024
def pagingOffset : Nat := 12
def VIDEO_MEM : Nat := 0xB8000
def VIDEO_BUFFER_MAX : Nat := 0xB8000
def USER_IMAGE : Nat := 32
def USER_VIDMEM_INDEX : Nat := 33

/-! ## Entries -/

/-! The fields of `pde_4kb_t`. -/
namespace Pde4kb

def present : BitField := { offset := 0, width := 1 }
def readWrite : BitField := { offset := 1, width := 1 }
def userSupervisor : BitField := { offset := 2, width := 1 }
def writeThrough : BitField := { offset := 3, width := 1 }
def cacheDisable : BitField := { offset := 4, width := 1 }
def accessed : BitField := { offset := 5, width := 1 }
def reserved : BitField := { offset := 6, width := 1 }
def pageSize : BitField := { offset := 7, width := 1 }
def globalPage : BitField := { offset := 8, width := 1 }
def available : BitField := { offset := 9, width := 3 }
def address : BitField := { offset := 12, width := 20 }

end Pde4kb

/-! The fields of `pde_4mb_t`. -/
namespace Pde4mb

def present : BitField := { offset := 0, width := 1 }
def readWrite : BitField := { offset := 1, width := 1 }
def userSupervisor : BitField := { offset := 2, width := 1 }
def writeThrough : BitField := { offset := 3, width := 1 }
def cacheDisable : BitField := { offset := 4, width := 1 }
def accessed : BitField := { offset := 5, width := 1 }
def dirty : BitField := { offset := 6, width := 1 }
def pageSize : BitField := { offset := 7, width := 1 }
def global : BitField := { offset := 8, width := 1 }
def available : BitField := { offset := 9, width := 3 }
def pat : BitField := { offset := 12, width := 1 }
def reserved : BitField := { offset := 13, width := 9 }
def address : BitField := { offset := 22, width := 10 }

end Pde4mb

/-! The fields of `pte_t`. -/
namespace PteWord

def present : BitField := { offset := 0, width := 1 }
def readWrite : BitField := { offset := 1, width := 1 }
def userSupervisor : BitField := { offset := 2, width := 1 }
def writeThrough : BitField := { offset := 3, width := 1 }
def cacheDisable : BitField := { offset := 4, width := 1 }
def accessed : BitField := { offset := 5, width := 1 }
def dirty : BitField := { offset := 6, width := 1 }
def pat : BitField := { offset := 7, width := 1 }
def globalPage : BitField := { offset := 8, width := 1 }
def available : BitField := { offset := 9, width := 3 }
def address : BitField := { offset := 12, width := 20 }

end PteWord

/-! ## State -/

/-- The page frames the linker gives the three arrays of `x86_desc.S`, each
aligned to 4 KB and 1024 words long. -/
structure PageArrays where
  pageDirectory : Nat
  pageTable : Nat
  pageTableUsermapping : Nat
  pageDirectory_lt : pageDirectory < 2 ^ 20
  pageTable_lt : pageTable < 2 ^ 20
  pageTableUsermapping_lt : pageTableUsermapping < 2 ^ 20
  directory_ne_table : pageDirectory ≠ pageTable
  directory_ne_usermapping : pageDirectory ≠ pageTableUsermapping
  table_ne_usermapping : pageTable ≠ pageTableUsermapping

/-- Physical memory by 32-bit words. -/
abbrev Words := Nat → BitVec 32

/-- Physical memory and the control registers. -/
structure Paging where
  words : Words
  cr0 : BitVec 32
  cr3 : BitVec 32
  cr4 : BitVec 32

/-- The number of the first word of a page frame. -/
def frameWord (frame : Nat) : Nat := frame * 1024

/-! ## Setting up -/

/-- `set_paramter_pde_kb`.  The `address` field keeps 20 bits of
`(int)page_table >> paging_offset`, which are those of the frame number. -/
def setParamterPdeKb (p : PageArrays) (words : Words) (i flag : Nat) :
    Words :=
  updateAt words (frameWord p.pageDirectory + i) fun e =>
    let e := Pde4kb.present.set flag e
    let e := Pde4kb.readWrite.set 1 e
    let e := Pde4kb.userSupervisor.set 0 e
    let e := Pde4kb.writeThrough.set 0 e
    let e := Pde4kb.cacheDisable.set 0 e
    let e := Pde4kb.accessed.set 0 e
    let e := Pde4kb.reserved.set 0 e
    let e := Pde4kb.pageSize.set 0 e
    let e := Pde4kb.globalPage.set 1 e
    let e := Pde4kb.available.set 0 e
    Pde4kb.address.set p.pageTable e

/-- `set_paramter_pde_mb`. -/
def setParamterPdeMb (p : PageArrays) (words : Words) (i flag : Nat) :
    Words :=
  updateAt words (frameWord p.pageDirectory + i) fun e =>
    let e := Pde4mb.present.set flag e
    let e := Pde4mb.readWrite.set 1 e
    let e := Pde4mb.userSupervisor.set 0 e
    let e := Pde4mb.writeThrough.set 0 e
    let e := Pde4mb.cacheDisable.set 0 e
    let e := Pde4mb.accessed.set 0 e
    let e := Pde4mb.dirty.set 0 e
    let e := Pde4mb.pageSize.set flag e
    let e := Pde4mb.global.set 1 e
    let e := Pde4mb.available.set 0 e
    let e := Pde4mb.pat.set flag e
    let e := Pde4mb.reserved.set 0 e
    Pde4mb.address.set i e

/-- `set_paramter_pte`. -/
def setParamterPte (p : PageArrays) (words : Words) (i flag : Nat) :
    Words :=
  updateAt words (frameWord p.pageTable + i) fun e =>
    let e := PteWord.present.set flag e
    let e := PteWord.readWrite.set 1 e
    let e := PteWord.userSupervisor.set 0 e
    let e := PteWord.writeThrough.set 0 e
    let e := PteWord.cacheDisable.set 0 e
    let e := PteWord.accessed.set 0 e
    let e := PteWord.dirty.set 0 e
    let e := PteWord.pat.set 0 e
    let e := PteWord.globalPage.set 1 e
    let e := PteWord.available.set 0 e
    PteWord.address.set i e

/-- `init_user_mapping`, which does not use its flag. -/
def initUserMapping (p : PageArrays) (words : Words) (i _flag : Nat) :
    Words :=
  updateAt words (frameWord p.pageTableUsermapping + i) fun e =>
    let e := PteWord.present.set 0 e
    let e := PteWord.readWrite.set 1 e
    let e := PteWord.userSupervisor.set 1 e
    let e := PteWord.writeThrough.set 0 e
    let e := PteWord.cacheDisable.set 0 e
    let e := PteWord.accessed.set 0 e
    let e := PteWord.dirty.set 0 e
    let e := PteWord.pat.set 0 e
    let e := PteWord.globalPage.set 1 e
    let e := PteWord.available.set 0 e
    PteWord.address.set i e

/-- The body of the first loop of `paging_init`. -/
def initDirectoryEntry (p : PageArrays) (words : Words) (index : Nat) :
    Words :=
  if index = 0 then setParamterPdeKb p words index 1
  else if index = 1 ∨ index = USER_IMAGE then setParamterPdeMb p words index 1
  else
    let words := setParamterPdeMb p words index 0
    if index = USER_VIDMEM_INDEX then
      updateAt words (frameWord p.pageDirectory + index) fun e =>
        let e := Pde4kb.present.set 1 e
        let e := Pde4kb.userSupervisor.set 1 e
        Pde4kb.address.set p.pageTableUsermapping e
    else words

/-- The body of the second loop of `paging_init`; both branches of its last
conditional pass the flag 1. -/
def initTableEntries (p : PageArrays) (words : Words) (index : Nat) :
    Words :=
  let words := initUserMapping p words index 0
  let words :=
    if (index : Int) = OUR_VID_MAP then
      updateAt words (frameWord p.pageTableUsermapping + index) fun e =>
        let e := PteWord.present.set 1 e
        PteWord.address.set (VIDEO_MEM >>> pagingOffset) e
    else words
  if VIDEO_MEM >>> pagingOffset ≤ index ∧
      index ≤ VIDEO_BUFFER_MAX >>> pagingOffset then
    setParamterPte p words index 1
  else setParamterPte p words index 1

/-- `set_regs`: the directory pointer, the page size extension and the paging
bit. -/
def setRegs (s : Paging) (ptr : Nat) : Paging :=
  { s with
    cr3 := BitVec.ofNat 32 ptr
    cr4 := s.cr4 ||| 0x00000010
    cr0 := s.cr0 ||| 0x80000000 }

/-- `paging_init`. -/
def pagingInit (p : PageArrays) (s : Paging) : Paging :=
  let words := (List.range PDE_TOT_NUM).foldl (initDirectoryEntry p) s.words
  let words := (List.range PTE_TOT_NUM).foldl (initTableEntries p) words
  let words :=
    updateAt words (frameWord p.pageTable + VIDEO_MEM >>> pagingOffset) fun e =>
      let e := PteWord.present.set 1 e
      PteWord.cacheDisable.set 0 e
  setRegs { s with words := words } (p.pageDirectory * 4096)

/-! ## Translating -/

namespace Paging

/-- The physical address behind a virtual one, or `none` for a page fault. -/
def translate (s : Paging) (va : BitVec 32) : Option Nat :=
  let a := va.toNat
  if s.cr0.getLsbD 31 = false then some a
  else
    let pde := s.words (frameWord (s.cr3.toNat / 4096) + a / 2 ^ 22)
    if Pde4kb.present.get pde = 0 then none
    else if s.cr4.getLsbD 4 ∧ Pde4mb.pageSize.get pde = 1 then
      some (Pde4mb.address.get pde * 2 ^ 22 + a % 2 ^ 22)
    else
      let table := frameWord (Pde4kb.address.get pde)
      let pte := s.words (table + a / 2 ^ 12 % 1024)
      if PteWord.present.get pte = 0 then none
      else some (PteWord.address.get pte * 2 ^ 12 + a % 2 ^ 12)

end Paging

end MongOS.Model
