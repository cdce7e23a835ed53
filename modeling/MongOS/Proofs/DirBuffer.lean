import MongOS.Proofs.DirListing

/-!
# What a directory read stores

A directory read copies as many bytes as it is asked for, from the name field
on and past its end, and the bytes behind the last whole word go to every
fourth byte; it returns 32 in any case.  So it respects the buffer of its
caller only for the one length that the programs use.
-/

namespace MongOS.Proofs.DirBuffer

open MongOS.Model
open MongOS.Proofs.DirListing

/-- The remainder loop stores `n` bytes, every fourth from `d` on. -/
theorem mycopySlice_spec (src : Nat → Byte) (n : Nat) :
    ∀ (d : Nat) (dst : Nat → Byte) (i : Nat),
      mycopySlice src n d dst i =
        if d ≤ i ∧ i < d + 4 * n ∧ (i - d) % 4 = 0 then src i else dst i := by
  induction n with
  | zero =>
      intro d dst i
      rw [mycopySlice, if_neg (by omega)]
  | succ n ih =>
      intro d dst i
      rw [mycopySlice, ih]
      by_cases hlater : d + 4 ≤ i ∧ i < d + 4 + 4 * n ∧ (i - (d + 4)) % 4 = 0
      · rw [if_pos hlater, if_pos (by omega)]
      · rw [if_neg hlater]
        by_cases hhere : i = d
        · rw [if_pos hhere, if_pos (by omega)]
        · rw [if_neg hhere, if_neg (by omega)]

/-- `mycopy` stores the whole words, and for each byte that is left the byte
four behind the one before. -/
theorem mycopy_spec (dst src : Nat → Byte) (num i : Nat) :
    mycopy dst src num i =
      if i < 4 * (num / 4) ∨
        i < 4 * (num / 4) + 4 * (num % 4) ∧ i % 4 = 0 then src i
      else dst i := by
  rw [mycopy, mycopySlice_spec, mycopyWords_spec]
  by_cases hword : i < 4 * (num / 4)
  · rw [if_neg (by omega), if_pos (by omega), if_pos (.inl hword)]
  · by_cases hslice : i < 4 * (num / 4) + 4 * (num % 4) ∧ i % 4 = 0
    · rw [if_pos (by omega), if_pos (.inr hslice)]
    · rw [if_neg (by omega), if_neg (by omega), if_neg (by omega)]

/-- A read at position `pos` respects a buffer of `nbytes` bytes: it stores what
fits of the name field and nothing else, and returns the number of bytes it
stored. -/
structure RespectsBuffer (boot : BootBlock) (pos : Nat) (nbytes : Int) :
    Prop where
  returns : ∀ buf, (readD boot pos buf nbytes).1 = min nbytes FILE_NAME
  stores : ∀ buf (i : Nat), i < min nbytes FILE_NAME →
    (readD boot pos buf nbytes).2.2 i =
      (boot.dirEntries pos).filename.getD i 0
  keeps : ∀ buf (i : Nat), min nbytes FILE_NAME ≤ i →
    (readD boot pos buf nbytes).2.2 i = buf i

/-- A read of 32 bytes stores nothing behind them. -/
theorem nameBuffer_outside (d : Dentry) (buf : Nat → Byte) {i : Nat}
    (hi : FILE_NAME ≤ i) : nameBuffer d buf i = buf i := by
  unfold FILE_NAME at hi
  rw [nameBuffer, mycopy_spec, FILE_NAME, if_neg (by omega)]

/-- A directory read of an entry with a name respects the buffer of its caller
exactly if it asks for 32 bytes. -/
theorem dir_read_respects_iff (boot : BootBlock) (pos : Nat) (nbytes : Int)
    (hpos : pos < MAX_FILES) (hname : Named (boot.dirEntries pos))
    (hlen : (boot.dirEntries pos).filename.length = FILE_NAME)
    (hnonneg : 0 ≤ nbytes) (hint : nbytes < 2 ^ 31) :
    RespectsBuffer boot pos nbytes ↔ nbytes = 32 := by
  constructor
  · intro h
    have hmin : (FILE_NAME : Int) = min nbytes FILE_NAME := by
      rw [← h.returns fun _ => 0, readD_entry boot _ nbytes hpos hname]
    by_contra hne
    have hmore : 32 < nbytes := by
      unfold FILE_NAME at hmin
      omega
    -- the byte behind the name field is stored, so it cannot keep its value
    have hstored : ∀ buf, (readD boot pos buf nbytes).2.2 32 =
        (boot.dirEntries pos).raw.getD 32 0 := by
      intro buf
      rw [readD_entry boot buf nbytes hpos hname]
      dsimp only
      rw [mycopy_spec, if_pos (by omega)]
    have hkept := h.keeps (fun _ => (boot.dirEntries pos).raw.getD 32 0 + 1) 32 (by
      unfold FILE_NAME
      omega)
    rw [hstored] at hkept
    simp at hkept
  · rintro rfl
    refine ⟨?_, ?_, ?_⟩
    · intro buf
      rw [readD_entry boot buf 32 hpos hname]
      rfl
    · intro buf i hi
      have hshort : i < FILE_NAME := by
        unfold FILE_NAME at *
        omega
      rw [readD_entry boot buf 32 hpos hname]
      exact nameBuffer_eq buf hlen hshort
    · intro buf i hi
      have hlong : FILE_NAME ≤ i := by
        unfold FILE_NAME at *
        omega
      rw [readD_entry boot buf 32 hpos hname]
      exact nameBuffer_outside _ buf hlong

/-- The 32 bytes that the programs ask for. -/
theorem shell_name_read : RespectsBuffer (listedBoot 1 blankEntry) 0 32 :=
  (dir_read_respects_iff (listedBoot 1 blankEntry) 0 32 (by decide) (by decide)
    (by decide) (by decide) (by decide)).2 rfl

/-- A read of 1024 bytes stores the type of the entry behind its name, and a
read of 10 bytes stores into byte 12 and reports 32. -/
theorem dir_read_overruns :
    ((readD (listedBoot 1 blankEntry) 0 (fun _ => 255) 1024).2.2 32 = 2 ∧
      ¬ RespectsBuffer (listedBoot 1 blankEntry) 0 1024) ∧
    ((readD (listedBoot 1 blankEntry) 0 (fun _ => 255) 10).1 = 32 ∧
      (readD (listedBoot 1 blankEntry) 0 (fun _ => 255) 10).2.2 12 = 0 ∧
      ¬ RespectsBuffer (listedBoot 1 blankEntry) 0 10) := by
  have htype :
      (readD (listedBoot 1 blankEntry) 0 (fun _ => 255) 1024).2.2 32 = 2 := by
    decide +kernel
  have hcount : (readD (listedBoot 1 blankEntry) 0 (fun _ => 255) 10).1 = 32 :=
    rfl
  have hstray :
      (readD (listedBoot 1 blankEntry) 0 (fun _ => 255) 10).2.2 12 = 0 := by
    decide +kernel
  refine ⟨⟨htype, fun h => ?_⟩, hcount, hstray, fun h => ?_⟩
  · have hkept := h.keeps (fun _ => 255) 32 (by decide)
    rw [htype] at hkept
    exact absurd hkept (by decide)
  · have hreturn := h.returns fun _ => 255
    rw [hcount] at hreturn
    exact absurd hreturn (by decide)

end MongOS.Proofs.DirBuffer
