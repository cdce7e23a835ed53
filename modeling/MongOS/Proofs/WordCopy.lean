import MongOS.Model.CopyMemory
import MongOS.Proofs.DirBuffer

/-!
# Where `mycopy` copies

The remainder loop advances word pointers for each byte, so a byte that is left
over after the first one is read and stored four bytes further on.

* `copyChunks_spec`, `copySlice_spec` — the two loops on memory.
* `mycopyAt_mycopy` — the copy on memory is the one that the directory reads
  use.
* `mycopyAt_copies_iff` — it copies the buffer, and touches nothing else,
  exactly if at most one byte is left over.
-/

namespace MongOS.Proofs.WordCopy

open MongOS.Model
open MongOS.Proofs.DirBuffer

/-- Two stretches of `n` bytes share no byte, and both are in memory. -/
structure Apart (dst src n : Nat) : Prop where
  dstEnd : dst + n ≤ 2 ^ 32
  srcEnd : src + n ≤ 2 ^ 32
  disjoint : dst + n ≤ src ∨ src + n ≤ dst

theorem address_of_lt {p : Nat} (h : p < 2 ^ 32) : address p = p :=
  Nat.mod_eq_of_lt h

/-! ## Words -/

theorem copyWord_mem {d s : Nat} (hd : d + 4 ≤ 2 ^ 32) (hs : s + 4 ≤ 2 ^ 32)
    (m : CopyState) (a : Nat) :
    (copyWord d s m).mem a =
      if d ≤ a ∧ a < d + 4 then m.mem (s + (a - d)) else m.mem a := by
  have hdst : ∀ i, i < 4 → address (d + i) = d + i :=
    fun i hi => address_of_lt (by omega)
  have hsrc : ∀ i, i < 4 → address (s + i) = s + i :=
    fun i hi => address_of_lt (by omega)
  simp only [copyWord, List.foldl_cons, List.foldl_nil]
  rw [hdst 0 (by omega), hdst 1 (by omega), hdst 2 (by omega),
    hdst 3 (by omega), hsrc 0 (by omega), hsrc 1 (by omega),
    hsrc 2 (by omega), hsrc 3 (by omega)]
  by_cases hin : d ≤ a ∧ a < d + 4
  · rw [if_pos hin]
    obtain ⟨i, hi, rfl⟩ : ∃ i, i < 4 ∧ a = d + i := ⟨a - d, by omega, by omega⟩
    rw [Nat.add_sub_cancel_left]
    match i, hi with
    | 0, _ => simp
    | 1, _ => simp
    | 2, _ => simp
    | 3, _ => simp
  · rw [if_neg hin, Function.update_of_ne (by omega),
      Function.update_of_ne (by omega), Function.update_of_ne (by omega),
      Function.update_of_ne (by omega)]

theorem copyWord_reads {d s : Nat} (hs : s + 4 ≤ 2 ^ 32) (m : CopyState) :
    ∀ a ∈ (copyWord d s m).reads, a ∈ m.reads ∨ s ≤ a ∧ a < s + 4 := by
  intro a ha
  have hsrc : ∀ i, i < 4 → address (s + i) = s + i :=
    fun i hi => address_of_lt (by omega)
  simp only [copyWord, List.map_cons, List.map_nil, List.cons_append,
    List.nil_append, List.mem_cons] at ha
  rw [hsrc 0 (by omega), hsrc 1 (by omega), hsrc 2 (by omega),
    hsrc 3 (by omega)] at ha
  rcases ha with ha | ha | ha | ha | ha
  · exact .inr (by omega)
  · exact .inr (by omega)
  · exact .inr (by omega)
  · exact .inr (by omega)
  · exact .inl ha

/-- The word loop copies `n` words between stretches that are apart. -/
theorem copyChunks_spec (n : Nat) :
    ∀ (d s : Nat) (m : CopyState), Apart d s (4 * n) →
      (∀ a, (copyChunks n d s m).mem a =
        if d ≤ a ∧ a < d + 4 * n then m.mem (s + (a - d)) else m.mem a) ∧
      ∀ a ∈ (copyChunks n d s m).reads,
        a ∈ m.reads ∨ s ≤ a ∧ a < s + 4 * n := by
  induction n with
  | zero =>
      intro d s m _
      refine ⟨fun a => ?_, fun a ha => .inl ha⟩
      rw [copyChunks, if_neg (by omega)]
  | succ n ih =>
      intro d s m hapart
      obtain ⟨hdst, hsrc, hdisjoint⟩ := hapart
      obtain ⟨hmem, hreads⟩ := ih (d + 4) (s + 4) (copyWord d s m)
        ⟨by omega, by omega, by omega⟩
      have hword := copyWord_mem (d := d) (s := s) (by omega) (by omega) m
      refine ⟨fun a => ?_, fun a ha => ?_⟩
      · rw [copyChunks, hmem a]
        by_cases hrest : d + 4 ≤ a ∧ a < d + 4 + 4 * n
        · -- the source of the later words has not been written
          rw [if_pos hrest, if_pos (by omega), hword, if_neg (by omega),
            show s + 4 + (a - (d + 4)) = s + (a - d) by omega]
        · rw [if_neg hrest, hword]
          by_cases hfirst : d ≤ a ∧ a < d + 4
          · rw [if_pos hfirst, if_pos (by omega)]
          · rw [if_neg hfirst, if_neg (by omega)]
      · rcases hreads a ha with hbefore | hlater
        · rcases copyWord_reads (by omega) m a hbefore with hm | hfirst
          · exact .inl hm
          · exact .inr (by omega)
        · exact .inr (by omega)

/-! ## Bytes -/

/-- The remainder loop copies every fourth byte.  The last one ends the stretch
it needs. -/
theorem copySlice_spec (n : Nat) :
    ∀ (d s : Nat) (m : CopyState), Apart d s (4 * n - 3) →
      (∀ a, (copySlice n d s m).mem a =
        if d ≤ a ∧ a < d + 4 * n ∧ (a - d) % 4 = 0 then m.mem (s + (a - d))
        else m.mem a) ∧
      ∀ a ∈ (copySlice n d s m).reads,
        a ∈ m.reads ∨ s ≤ a ∧ a < s + (4 * n - 3) := by
  induction n with
  | zero =>
      intro d s m _
      refine ⟨fun a => ?_, fun a ha => .inl ha⟩
      rw [copySlice, if_neg (by omega)]
  | succ n ih =>
      intro d s m hapart
      obtain ⟨hdst, hsrc, hdisjoint⟩ := hapart
      have hd : address d = d := address_of_lt (by omega)
      have hs : address s = s := address_of_lt (by omega)
      have hbyte : ∀ a, (copyByte d s m).mem a =
          if a = d then m.mem s else m.mem a := by
        intro a
        simp only [copyByte, hd, hs, Function.update_apply]
      cases n with
      | zero =>
          refine ⟨fun a => ?_, fun a ha => ?_⟩
          · rw [copySlice, copySlice, hbyte]
            by_cases ha : a = d
            · subst ha
              rw [if_pos rfl, if_pos (by omega), Nat.sub_self, Nat.add_zero]
            · rw [if_neg ha, if_neg (by omega)]
          · rw [copySlice, copySlice, copyByte, hs] at ha
            rcases List.mem_cons.1 ha with hhere | hm
            · exact .inr (by omega)
            · exact .inl hm
      | succ n =>
          obtain ⟨hmem, hreads⟩ := ih (d + 4) (s + 4) (copyByte d s m)
            ⟨by omega, by omega, by omega⟩
          refine ⟨fun a => ?_, fun a ha => ?_⟩
          · rw [copySlice, hmem a]
            by_cases hrest : d + 4 ≤ a ∧ a < d + 4 + 4 * (n + 1) ∧
                (a - (d + 4)) % 4 = 0
            · rw [if_pos hrest, if_pos (by omega), hbyte, if_neg (by omega),
                show s + 4 + (a - (d + 4)) = s + (a - d) by omega]
            · rw [if_neg hrest, hbyte]
              by_cases hfirst : a = d
              · subst hfirst
                rw [if_pos rfl, if_pos (by omega), Nat.sub_self, Nat.add_zero]
              · rw [if_neg hfirst, if_neg (by omega)]
          · rcases hreads a ha with hbefore | hlater
            · rw [copyByte, hs] at hbefore
              rcases List.mem_cons.1 hbefore with hhere | hm
              · exact .inr (by omega)
              · exact .inl hm
            · exact .inr (by omega)

/-- A read of the remainder loop stays recorded. -/
theorem copySlice_reads_mono (n : Nat) :
    ∀ (d s : Nat) (m : CopyState), ∀ a ∈ m.reads,
      a ∈ (copySlice n d s m).reads := by
  induction n with
  | zero => exact fun _ _ _ _ ha => ha
  | succ n ih =>
      intro d s m a ha
      exact ih _ _ _ a (List.mem_cons_of_mem _ ha)

/-- From the second byte on, the remainder loop reads past the source. -/
theorem copySlice_reads_second (n d s : Nat) (m : CopyState) :
    address (s + 4) ∈ (copySlice (n + 2) d s m).reads :=
  copySlice_reads_mono n _ _ _ _ List.mem_cons_self

/-! ## The copy -/

/-- The bytes from the start of a buffer to the last one that `mycopy`
touches. -/
def extent (num : Nat) : Nat := 4 * (num / 4) + (4 * (num % 4) - 3)

/-- `mycopy` between stretches that are apart as far as it gets. -/
theorem mycopyAt_spec {dst src num : Nat} (h : Apart dst src (extent num))
    (m : CopyState) :
    (∀ a, (mycopyAt dst src num m).mem a =
      if dst ≤ a ∧ (a < dst + 4 * (num / 4) ∨
          a < dst + 4 * (num / 4) + 4 * (num % 4) ∧ (a - dst) % 4 = 0) then
        m.mem (src + (a - dst))
      else m.mem a) ∧
    ∀ a ∈ (mycopyAt dst src num m).reads,
      a ∈ m.reads ∨ src ≤ a ∧ a < src + extent num := by
  obtain ⟨hdst, hsrc, hdisjoint⟩ := h
  unfold extent at hdst hsrc hdisjoint ⊢
  unfold mycopyAt
  dsimp only
  generalize num / 4 = q at hdst hsrc hdisjoint ⊢
  generalize num % 4 = r at hdst hsrc hdisjoint ⊢
  obtain ⟨hwords, hwordReads⟩ := copyChunks_spec q dst src m
    ⟨by omega, by omega, by omega⟩
  obtain ⟨hbytes, hbyteReads⟩ := copySlice_spec r (dst + 4 * q) (src + 4 * q)
    (copyChunks q dst src m) ⟨by omega, by omega, by omega⟩
  refine ⟨fun a => ?_, fun a ha => ?_⟩
  · rw [hbytes a]
    by_cases hslice : dst + 4 * q ≤ a ∧ a < dst + 4 * q + 4 * r ∧
        (a - (dst + 4 * q)) % 4 = 0
    · rw [if_pos hslice, if_pos (by omega), hwords, if_neg (by omega),
        show src + 4 * q + (a - (dst + 4 * q)) = src + (a - dst) by omega]
    · rw [if_neg hslice, hwords]
      by_cases hword : dst ≤ a ∧ a < dst + 4 * q
      · rw [if_pos hword, if_pos (by omega)]
      · rw [if_neg hword, if_neg (by omega)]
  · rcases hbyteReads a ha with hbefore | hslice
    · rcases hwordReads a hbefore with hm | hword
      · exact .inl hm
      · exact .inr (by omega)
    · exact .inr (by omega)

/-- On buffers that are apart it is the copy between two buffers. -/
theorem mycopyAt_mycopy {dst src num : Nat} (h : Apart dst src (extent num))
    (m : CopyState) (i : Nat) :
    (mycopyAt dst src num m).mem (dst + i) =
      mycopy (fun i => m.mem (dst + i)) (fun i => m.mem (src + i)) num i := by
  rw [(mycopyAt_spec h m).1, mycopy_spec, Nat.add_sub_cancel_left]
  by_cases hin : i < 4 * (num / 4) ∨
      i < 4 * (num / 4) + 4 * (num % 4) ∧ i % 4 = 0
  · rw [if_pos hin, if_pos (by omega)]
  · rw [if_neg hin, if_neg (by omega)]

/-- `m'` is `m` with `num` bytes copied from `src` to `dst`, and no other byte
changed or read. -/
structure Copies (dst src num : Nat) (m m' : CopyState) : Prop where
  copied : ∀ i, i < num → m'.mem (dst + i) = m.mem (src + i)
  unchanged : ∀ a, ¬(dst ≤ a ∧ a < dst + num) → m'.mem a = m.mem a
  inside : ∀ a ∈ m'.reads, a ∈ m.reads ∨ src ≤ a ∧ a < src + num

/-- `mycopy` copies between any two buffers that do not overlap exactly if it
has at most one byte left over after the words. -/
theorem mycopyAt_copies_iff {dst src num : Nat} (h : Apart dst src num)
    (mem : Nat → Byte) :
    Copies dst src num { mem := mem, reads := [] }
        (mycopyAt dst src num { mem := mem, reads := [] }) ↔
      num % 4 ≤ 1 := by
  obtain ⟨hdst, hsrc, hdisjoint⟩ := h
  constructor
  · intro hcopies
    refine Classical.byContradiction fun hmore => ?_
    obtain ⟨n, hn⟩ : ∃ n, num % 4 = n + 2 := ⟨num % 4 - 2, by omega⟩
    have hread := copySlice_reads_second n (dst + 4 * (num / 4))
      (src + 4 * (num / 4))
      (copyChunks (num / 4) dst src { mem := mem, reads := [] })
    rw [← hn] at hread
    rcases hcopies.inside _ hread with hnone | hin
    · cases hnone
    · -- the stray byte is behind the source, also round the end of memory
      unfold address at hin
      omega
  · intro hfew
    have hextent : extent num = num := by
      unfold extent
      omega
    have hapart : Apart dst src (extent num) := by
      rw [hextent]
      exact ⟨hdst, hsrc, hdisjoint⟩
    obtain ⟨hmem, hreads⟩ := mycopyAt_spec hapart { mem := mem, reads := [] }
    rw [hextent] at hreads
    refine { copied := fun i hi => ?_, unchanged := fun a ha => ?_
             inside := hreads }
    · rw [hmem, if_pos (by omega), Nat.add_sub_cancel_left]
    · rw [hmem, if_neg (by omega)]

/-- Nine bytes are copied. -/
theorem mycopyAt_nine :
    Copies 0 16 9 { mem := fun a => UInt8.ofNat a, reads := [] }
      (mycopyAt 0 16 9 { mem := fun a => UInt8.ofNat a, reads := [] }) :=
  (mycopyAt_copies_iff ⟨by decide, by decide, by decide⟩ _).2 (by decide)

/-- Of two bytes the second is not copied: the byte four behind the first is,
to a place outside the buffer. -/
theorem mycopyAt_two_strays :
    (mycopyAt 0 16 2 { mem := fun a => UInt8.ofNat a, reads := [] }).mem 1 = 1 ∧
      (mycopyAt 0 16 2 { mem := fun a => UInt8.ofNat a, reads := [] }).mem 4 =
        20 ∧
      (mycopyAt 0 16 2 { mem := fun a => UInt8.ofNat a, reads := [] }).reads =
        [20, 16] ∧
      ¬Copies 0 16 2 { mem := fun a => UInt8.ofNat a, reads := [] }
        (mycopyAt 0 16 2 { mem := fun a => UInt8.ofNat a, reads := [] }) := by
  refine ⟨by decide, by decide, by decide, fun hcopies => ?_⟩
  have hsecond := hcopies.copied 1 (by decide)
  exact absurd hsecond (by decide)

end MongOS.Proofs.WordCopy
