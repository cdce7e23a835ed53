import MongOS.Model.CopyMemory

/-!
# `memset`, `memcpy` and `memmove` (`lib.c`)

The three functions are `asm` statements.  A loop is a function of the register
that counts it down; the other registers, the direction flag and the memory are
in `Asm`.  The flag is whatever the code before has left.
-/

namespace MongOS.Model

/-- The registers the statements use, the direction flag and the memory. -/
structure Asm where
  eax : Nat
  esi : Nat
  edi : Nat
  df : Bool
  mem : Nat → Byte

namespace Asm

/-- What a string instruction adds to a pointer. -/
def stride (df : Bool) (size p : Nat) : Nat :=
  address (if df then p + (2 ^ 32 - size) else p + size)

/-- `rep`, with the count in `ecx`. -/
def rep (op : Asm → Asm) : Nat → Asm → Asm
  | 0, m => m
  | ecx + 1, m => rep op ecx (op m)

/-- `stosl` -/
def stosl (m : Asm) : Asm :=
  { m with
    mem := [0, 1, 2, 3].foldl
      (fun mem i =>
        Function.update mem (address (m.edi + i)) (UInt8.ofNat (m.eax / 2 ^ (8 * i))))
      m.mem
    edi := stride m.df 4 m.edi }

/-- `movsl`: the word is read as a whole, and then stored. -/
def movsl (m : Asm) : Asm :=
  { m with
    mem := [0, 1, 2, 3].foldl
      (fun mem i =>
        Function.update mem (address (m.edi + i)) (m.mem (address (m.esi + i))))
      m.mem
    esi := stride m.df 4 m.esi
    edi := stride m.df 4 m.edi }

/-- `movsb` -/
def movsb (m : Asm) : Asm :=
  { m with
    mem := Function.update m.mem m.edi (m.mem m.esi)
    esi := stride m.df 1 m.esi
    edi := stride m.df 1 m.edi }

/-- `cld` -/
def cld (m : Asm) : Asm := { m with df := false }

/-- `movb %al, (%edi); addl $1, %edi` -/
def storeByte (m : Asm) : Asm :=
  { m with
    mem := Function.update m.mem m.edi (UInt8.ofNat m.eax)
    edi := address (m.edi + 1) }

/-- `movb (%esi), %al; movb %al, (%edi); addl $1, %edi; addl $1, %esi` -/
def moveByte (m : Asm) : Asm :=
  let m := { m with eax := m.eax / 2 ^ 8 * 2 ^ 8 + (m.mem m.esi).toNat }
  { m with
    mem := Function.update m.mem m.edi (UInt8.ofNat m.eax)
    esi := address (m.esi + 1)
    edi := address (m.edi + 1) }

end Asm

/-! ## `memset` -/

/-- `.memset_bottom`, with the count in `edx`. -/
def memsetBottom : Nat → Asm → Asm
  | 0, m => m
  | edx + 1, m => memsetBottom edx m.storeByte

/-- `.memset_aligned` -/
def memsetAligned (ecx : Nat) (m : Asm) : Asm :=
  let edx := ecx % 4
  let ecx := ecx / 4
  memsetBottom edx (Asm.rep .stosl ecx m.cld)

/-- `.memset_top` -/
def memsetTop : Nat → Asm → Asm
  | 0, m => m
  | ecx + 1, m =>
      if m.edi % 4 = 0 then memsetAligned (ecx + 1) m else memsetTop ecx m.storeByte

/-- The value of `eax` for the byte `c`. -/
def fillWord (c : UInt32) : UInt32 :=
  let c := c &&& 0xFF
  c <<< 24 ||| c <<< 16 ||| c <<< 8 ||| c

def memset (s : Nat) (c : UInt32) (n : Nat) (m : Asm) : Asm :=
  memsetTop n { m with eax := (fillWord c).toNat, edi := s }

/-! ## `memcpy` -/

/-- `.memcpy_bottom`, with the count in `edx`. -/
def memcpyBottom : Nat → Asm → Asm
  | 0, m => m
  | edx + 1, m => memcpyBottom edx m.moveByte

/-- `.memcpy_aligned` -/
def memcpyAligned (ecx : Nat) (m : Asm) : Asm :=
  let edx := ecx % 4
  let ecx := ecx / 4
  memcpyBottom edx (Asm.rep .movsl ecx m.cld)

/-- `.memcpy_top` -/
def memcpyTop : Nat → Asm → Asm
  | 0, m => m
  | ecx + 1, m =>
      if m.edi % 4 = 0 then memcpyAligned (ecx + 1) m else memcpyTop ecx m.moveByte

def memcpy (dest src n : Nat) (m : Asm) : Asm :=
  memcpyTop n { m with esi := src, edi := dest }

/-! ## `memmove` -/

def memmove (dest src n : Nat) (m : Asm) : Asm :=
  let m := { m with esi := src, edi := dest }.cld
  if m.esi ≥ m.edi then Asm.rep .movsb n m
  else
    -- from the last byte downwards
    Asm.rep .movsb n
      { m with
        esi := address (m.esi + n + (2 ^ 32 - 1))
        edi := address (m.edi + n + (2 ^ 32 - 1))
        df := true }

end MongOS.Model
