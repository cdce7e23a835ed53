import MongOS.Model.FileSys

/-!
# `mycopy` on memory (`filesys.c`)

The copy at the level of its pointers: 32-bit addresses into one memory, word
loads and stores, and a record of the bytes that are read.
-/

namespace MongOS.Model

/-- Memory, and the addresses that have been read, the last one first. -/
structure CopyState where
  mem : Nat → Byte
  reads : List Nat

/-- The address behind a pointer. -/
def address (p : Nat) : Nat := p % 2 ^ 32

/-- `*((char *)d) = *((char *)s);` -/
def copyByte (d s : Nat) (m : CopyState) : CopyState :=
  { mem := Function.update m.mem (address d) (m.mem (address s))
    reads := address s :: m.reads }

/-- `*d = *s;` on words: the word is read as a whole, and then stored. -/
def copyWord (d s : Nat) (m : CopyState) : CopyState :=
  { mem := [0, 1, 2, 3].foldl
      (fun mem i =>
        Function.update mem (address (d + i)) (m.mem (address (s + i))))
      m.mem
    reads := [3, 2, 1, 0].map (fun i => address (s + i)) ++ m.reads }

/-- `while(nchunks--) *d++ = *s++;` -/
def copyChunks : Nat → Nat → Nat → CopyState → CopyState
  | 0, _, _, m => m
  | nchunks + 1, d, s, m => copyChunks nchunks (d + 4) (s + 4) (copyWord d s m)

/-- `while (slice--) *((char *)d++) = *((char *)s++);`: the casts are of the
values of `d` and `s`, which still point to words. -/
def copySlice : Nat → Nat → Nat → CopyState → CopyState
  | 0, _, _, m => m
  | slice + 1, d, s, m => copySlice slice (d + 4) (s + 4) (copyByte d s m)

/-- `mycopy` from address `src` to address `dst`. -/
def mycopyAt (dst src num : Nat) (m : CopyState) : CopyState :=
  let nchunks := num / 4
  let slice := num % 4
  copySlice slice (dst + 4 * nchunks) (src + 4 * nchunks)
    (copyChunks nchunks dst src m)

end MongOS.Model
