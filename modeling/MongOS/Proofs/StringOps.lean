import MongOS.Model.StringOps
import MongOS.Verified.Segments

/-!
# The memory functions copy and fill

`memset` and `memcpy` go byte by byte up to a word boundary, then word by word,
and byte by byte again at the end.  What they leave does not depend on where the
boundaries lie, nor on the direction flag they find.

* `memset_fills` — `memset` stores `n` times its byte.
* `memcpy_copies` — `memcpy` copies, unless the destination begins inside the
  source.
* `memmove_moves` — `memmove` copies whatever the overlap.
-/

namespace MongOS.Proofs.StringOps

open MongOS.Model
open MongOS.Verified

/-! ## Pointers -/

theorem address_of_lt {p : Nat} (h : p < 2 ^ 32) : address p = p := Nat.mod_eq_of_lt h

theorem address_le (p : Nat) : address p ≤ p := Nat.mod_le p _

theorem address_lt (p : Nat) : address p < 2 ^ 32 := Nat.mod_lt p (by decide)

theorem address_add (p k : Nat) : address (address p + k) = address (p + k) :=
  Nat.mod_add_mod p _ k

/-- A pointer behind the last byte of the memory is only used for no bytes. -/
theorem storeAt_address (m : Nat → Byte) {p : Nat} {l : List Byte}
    (h : p + l.length ≤ 2 ^ 32) : storeAt m (address p) l = storeAt m p l := by
  cases l with
  | nil => rw [storeAt_nil, storeAt_nil]
  | cons b l =>
      rw [List.length_cons] at h
      rw [address_of_lt (by omega)]

theorem readAt_address (m : Nat → Byte) {p n : Nat} (h : p + n ≤ 2 ^ 32) :
    readAt m (address p) n = readAt m p n := by
  cases n with
  | zero => rfl
  | succ n => rw [address_of_lt (by omega)]

/-- Downwards, a pointer goes to the byte before. -/
theorem stride_down {p : Nat} (hpos : 0 < p) (h : p < 2 ^ 32) :
    Asm.stride true 1 p = p - 1 := by
  show (p + (2 ^ 32 - 1)) % 2 ^ 32 = p - 1
  omega

/-- Four bytes of a word, stored one behind the other. -/
theorem store_word (m : Nat → Byte) {p : Nat} (h : p + 4 ≤ 2 ^ 32) (b : Nat → Byte) :
    [0, 1, 2, 3].foldl (fun mem i => Function.update mem (address (p + i)) (b i)) m =
      storeAt m p [b 0, b 1, b 2, b 3] := by
  simp only [List.foldl_cons, List.foldl_nil, storeAt_cons, storeAt_nil]
  rw [address_of_lt (by omega), address_of_lt (by omega), address_of_lt (by omega),
    address_of_lt (by omega)]
  rfl

/-! ## `memset` -/

theorem fillWord_toNat (c : UInt32) :
    (fillWord c).toNat = (c.toNat % 256) <<< 24 ||| (c.toNat % 256) <<< 16 |||
      (c.toNat % 256) <<< 8 ||| (c.toNat % 256) := by
  have hmask : c.toNat &&& 255 = c.toNat % 256 := Nat.and_two_pow_sub_one_eq_mod c.toNat 8
  unfold fillWord
  simp only [UInt32.toNat_or, UInt32.toNat_shiftLeft, UInt32.toNat_and,
    UInt32.reduceToNat, hmask]
  have hb : c.toNat % 256 < 256 := Nat.mod_lt _ (by decide)
  generalize c.toNat % 256 = b at hb
  have hshift : ∀ j, 2 ^ j ≤ 2 ^ 24 → b <<< j % 2 ^ 32 = b <<< j := by
    intro j hj
    have hlt : b * 2 ^ j < 2 ^ 8 * 2 ^ 24 := Nat.mul_lt_mul_of_lt_of_le hb hj (by decide)
    rw [Nat.shiftLeft_eq]
    exact Nat.mod_eq_of_lt hlt
  exact congrArg₂ (· ||| ·) (congrArg₂ (· ||| ·) (congrArg₂ (· ||| ·)
    (hshift 24 (by decide)) (hshift 16 (by decide))) (hshift 8 (by decide))) rfl

/-- Every byte of the word is the byte that is set. -/
theorem fillWord_byte (c : UInt32) {i : Nat} (hi : i < 4) :
    UInt8.ofNat ((fillWord c).toNat / 2 ^ (8 * i)) = c.toUInt8 := by
  have hbytes : ∀ b : Fin 256, ∀ i : Fin 4,
      UInt8.ofNat ((b.val <<< 24 ||| b.val <<< 16 ||| b.val <<< 8 ||| b.val) /
        2 ^ (8 * i.val)) = UInt8.ofNat b.val := by decide +kernel
  rw [fillWord_toNat, hbytes ⟨c.toNat % 256, Nat.mod_lt _ (by decide)⟩ ⟨i, hi⟩]
  apply UInt8.toNat_inj.1
  simp

/-- Every byte of `eax` is `b`. -/
def Filled (b : Byte) (m : Asm) : Prop :=
  ∀ i < 4, UInt8.ofNat (m.eax / 2 ^ (8 * i)) = b

section Fill

variable {b : Byte}

theorem Filled.low {m : Asm} (h : Filled b m) : UInt8.ofNat m.eax = b := by
  have hlow := h 0 (by decide)
  rwa [Nat.mul_zero, Nat.pow_zero, Nat.div_one] at hlow

theorem memsetBottom_mem (n : Nat) {m : Asm} (hb : Filled b m) (h : m.edi + n ≤ 2 ^ 32) :
    (memsetBottom n m).mem = storeAt m.mem m.edi (List.replicate n b) := by
  induction n generalizing m with
  | zero => exact (storeAt_nil _ _).symm
  | succ n ih =>
      have hle := address_le (m.edi + 1)
      have hrest := ih (m := m.storeByte) hb (by simp only [Asm.storeByte]; omega)
      rw [memsetBottom, hrest]
      simp only [Asm.storeByte]
      rw [storeAt_address _ (by rw [List.length_replicate]; omega), hb.low,
        List.replicate_succ, storeAt_cons]

/-- `rep stosl` fills words. -/
theorem rep_stosl (n : Nat) {m : Asm} (hb : Filled b m) (hdf : m.df = false)
    (hlt : m.edi < 2 ^ 32) (h : m.edi + 4 * n ≤ 2 ^ 32) :
    (Asm.rep .stosl n m).mem = storeAt m.mem m.edi (List.replicate (4 * n) b) ∧
      (Asm.rep .stosl n m).edi = address (m.edi + 4 * n) ∧
      Filled b (Asm.rep .stosl n m) := by
  induction n generalizing m with
  | zero => exact ⟨(storeAt_nil _ _).symm, (address_of_lt hlt).symm, hb⟩
  | succ n ih =>
      have hedi : m.stosl.edi = address (m.edi + 4) := by
        simp only [Asm.stosl, hdf]
        rfl
      have hmem : m.stosl.mem = storeAt m.mem m.edi (List.replicate 4 b) := by
        simp only [Asm.stosl]
        rw [store_word m.mem (by omega), hb 0 (by decide), hb 1 (by decide),
          hb 2 (by decide), hb 3 (by decide)]
        rfl
      have hle := address_le (m.edi + 4)
      obtain ⟨hrest, hend, hfill⟩ := ih (m := m.stosl) hb hdf
        (by rw [hedi]; exact address_lt _) (by rw [hedi]; omega)
      have hcount : 4 * (n + 1) = 4 + 4 * n := by omega
      have hindex : m.edi + 4 + 4 * n = m.edi + (4 + 4 * n) := by omega
      refine ⟨?_, ?_, hfill⟩
      · rw [Asm.rep, hrest, hmem, hedi,
          storeAt_address _ (by rw [List.length_replicate]; omega), hcount,
          List.replicate_add, storeAt_append, List.length_replicate]
      · rw [Asm.rep, hend, hedi, address_add, hcount, hindex]

theorem memsetTop_mem (n : Nat) {m : Asm} (hb : Filled b m) (h : m.edi + n ≤ 2 ^ 32) :
    (memsetTop n m).mem = storeAt m.mem m.edi (List.replicate n b) := by
  induction n generalizing m with
  | zero => exact (storeAt_nil _ _).symm
  | succ n ih =>
      rw [memsetTop]
      split
      · -- the words, and what is left behind them
        have hcount : n + 1 = 4 * ((n + 1) / 4) + (n + 1) % 4 := by omega
        obtain ⟨hmem, hedi, hfill⟩ := rep_stosl ((n + 1) / 4) (m := m.cld) hb rfl
          (show m.edi < _ by omega) (show m.edi + _ ≤ _ by omega)
        have hle := address_le (m.edi + 4 * ((n + 1) / 4))
        have hedi' : (Asm.rep .stosl ((n + 1) / 4) m.cld).edi =
          address (m.edi + 4 * ((n + 1) / 4)) := hedi
        rw [memsetAligned, memsetBottom_mem _ hfill (by rw [hedi']; omega), hmem, hedi',
          storeAt_address _ (by rw [List.length_replicate]; omega)]
        conv_rhs => rw [hcount, List.replicate_add, storeAt_append, List.length_replicate]
        rfl
      · have hle := address_le (m.edi + 1)
        have hrest := ih (m := m.storeByte) hb (by simp only [Asm.storeByte]; omega)
        rw [hrest]
        simp only [Asm.storeByte]
        rw [storeAt_address _ (by rw [List.length_replicate]; omega), hb.low,
          List.replicate_succ, storeAt_cons]

end Fill

/-- `memset` stores `n` times the low byte of `c` from `s` on and changes nothing
else, whatever the alignment, the length, and the direction flag that it finds. -/
theorem memset_fills {s n : Nat} (c : UInt32) (m : Asm) (h : s + n ≤ 2 ^ 32) :
    (memset s c n m).mem = storeAt m.mem s (List.replicate n c.toUInt8) := by
  have hfilled : Filled c.toUInt8 { m with eax := (fillWord c).toNat, edi := s } :=
    fun i hi => fillWord_byte c hi
  exact memsetTop_mem n hfilled h

theorem memset_line :
    (memset 0x1003 0x141 10 ⟨0, 0, 0, true, fun _ => 0⟩).mem =
      storeAt (fun _ => 0) 0x1003 (List.replicate 10 0x41) :=
  memset_fills 0x141 ⟨0, 0, 0, true, fun _ => 0⟩ (by decide)

/-! ## `memcpy` -/

/-- The destination does not begin inside the source. -/
def Clear (d s n : Nat) : Prop := d ≤ s ∨ s + n ≤ d

/-- After `k` bytes, the rest is as clear. -/
theorem Clear.rest {d s k n : Nat} (h : Clear d s (k + n)) (hd : d + k + n ≤ 2 ^ 32)
    (hs : s + k + n ≤ 2 ^ 32) : Clear (address (d + k)) (address (s + k)) n := by
  rcases Nat.eq_zero_or_pos n with rfl | hpos
  · exact Nat.le_total _ _
  · unfold Clear at h ⊢
    rw [address_of_lt (by omega), address_of_lt (by omega)]
    omega

/-- A piece of code that copies `k` bytes upwards. -/
structure Copies (k : Nat) (m m' : Asm) : Prop where
  mem : m'.mem = storeAt m.mem m.edi (readAt m.mem m.esi k)
  edi : m'.edi = address (m.edi + k)
  esi : m'.esi = address (m.esi + k)

/-- The segments of a copy lie in the memory, and the copy can go upwards. -/
structure Fits (n : Nat) (m : Asm) : Prop where
  dest : m.edi + n ≤ 2 ^ 32
  src : m.esi + n ≤ 2 ^ 32
  clear : Clear m.edi m.esi n

theorem Fits.rest {k n : Nat} {m m' : Asm} (h : Fits (k + n) m) (hstep : Copies k m m') :
    Fits n m' := by
  obtain ⟨hdest, hsrc, hclear⟩ := h
  have hd := address_le (m.edi + k)
  have hs := address_le (m.esi + k)
  refine { dest := by rw [hstep.edi]; omega, src := by rw [hstep.esi]; omega, clear := ?_ }
  rw [hstep.edi, hstep.esi]
  exact hclear.rest (by omega) (by omega)

namespace Copies

/-- Copies one behind the other. -/
theorem trans {k n : Nat} {m m' m'' : Asm} (hfits : Fits (k + n) m)
    (h : Copies k m m') (h' : Copies n m' m'') : Copies (k + n) m m'' := by
  obtain ⟨hdest, hsrc, hclear⟩ := hfits
  refine { mem := ?_, edi := ?_, esi := ?_ }
  · rw [h'.mem, h.edi, h.esi, readAt_address _ (by omega),
      storeAt_address _ (by rw [length_readAt]; omega), h.mem]
    refine copy_up m.mem m.edi m.esi k n ?_
    unfold Clear at hclear
    omega
  · rw [h'.edi, h.edi, address_add, Nat.add_assoc]
  · rw [h'.esi, h.esi, address_add, Nat.add_assoc]

theorem zero {m : Asm} (hd : m.edi < 2 ^ 32) (hs : m.esi < 2 ^ 32) : Copies 0 m m :=
  { mem := by rw [readAt_zero, storeAt_nil]
    edi := (address_of_lt hd).symm
    esi := (address_of_lt hs).symm }

/-- It leaves pointers. -/
theorem edi_lt {k : Nat} {m m' : Asm} (h : Copies k m m') : m'.edi < 2 ^ 32 := by
  rw [h.edi]
  exact address_lt _

theorem esi_lt {k : Nat} {m m' : Asm} (h : Copies k m m') : m'.esi < 2 ^ 32 := by
  rw [h.esi]
  exact address_lt _

end Copies

/-- `rep` with an instruction that copies `k` bytes copies `n` times as many. -/
theorem rep_copies {op : Asm → Asm} {k : Nat}
    (hop : ∀ m : Asm, m.df = false → m.edi + k ≤ 2 ^ 32 → m.esi + k ≤ 2 ^ 32 →
      Copies k m (op m) ∧ (op m).df = false)
    (n : Nat) {m : Asm} (hdf : m.df = false) (hd : m.edi < 2 ^ 32) (hs : m.esi < 2 ^ 32)
    (hfits : Fits (k * n) m) :
    Copies (k * n) m (Asm.rep op n m) ∧ (Asm.rep op n m).df = false := by
  induction n generalizing m with
  | zero => exact ⟨.zero hd hs, hdf⟩
  | succ n ih =>
      have hcount : k * (n + 1) = k + k * n := by rw [Nat.mul_succ, Nat.add_comm]
      rw [hcount] at hfits ⊢
      have hdest := hfits.dest
      have hsrc := hfits.src
      obtain ⟨hstep, hdf'⟩ := hop m hdf (by omega) (by omega)
      obtain ⟨hrest, hend⟩ := ih hdf' hstep.edi_lt hstep.esi_lt (hfits.rest hstep)
      exact ⟨hstep.trans hfits hrest, hend⟩

theorem moveByte_copies (m : Asm) : Copies 1 m m.moveByte := by
  refine { mem := ?_, edi := rfl, esi := rfl }
  have hbyte : UInt8.ofNat (m.eax / 2 ^ 8 * 2 ^ 8 + (m.mem m.esi).toNat) = m.mem m.esi := by
    apply UInt8.toNat_inj.1
    have hlt := (m.mem m.esi).toNat_lt
    rw [UInt8.toNat_ofNat']
    omega
  have hread : readAt m.mem m.esi 1 = [m.mem m.esi] := rfl
  simp only [Asm.moveByte, hbyte]
  rw [hread, storeAt_cons, storeAt_nil]

theorem movsl_copies (m : Asm) (hdf : m.df = false) (hd : m.edi + 4 ≤ 2 ^ 32)
    (hs : m.esi + 4 ≤ 2 ^ 32) : Copies 4 m m.movsl := by
  refine { mem := ?_, edi := ?_, esi := ?_ }
  · have hread : readAt m.mem m.esi 4 =
        [m.mem m.esi, m.mem (m.esi + 1), m.mem (m.esi + 2), m.mem (m.esi + 3)] := rfl
    simp only [Asm.movsl]
    rw [store_word m.mem hd, hread, address_of_lt (by omega), address_of_lt (by omega),
      address_of_lt (by omega), address_of_lt (by omega)]
    rfl
  · simp only [Asm.movsl, hdf]
    rfl
  · simp only [Asm.movsl, hdf]
    rfl

theorem movsb_copies (m : Asm) (hdf : m.df = false) : Copies 1 m m.movsb := by
  have hread : readAt m.mem m.esi 1 = [m.mem m.esi] := rfl
  refine { mem := ?_, edi := ?_, esi := ?_ }
  · rw [hread, storeAt_cons, storeAt_nil]
    rfl
  · simp only [Asm.movsb, hdf]
    rfl
  · simp only [Asm.movsb, hdf]
    rfl

/-- The bytes behind the last word. -/
theorem memcpyBottom_copies (n : Nat) {m : Asm} (hd : m.edi < 2 ^ 32)
    (hs : m.esi < 2 ^ 32) (hfits : Fits n m) : Copies n m (memcpyBottom n m) := by
  induction n generalizing m with
  | zero => exact .zero hd hs
  | succ n ih =>
      rw [Nat.add_comm] at hfits
      have hstep := moveByte_copies m
      have hrest := ih hstep.edi_lt hstep.esi_lt (hfits.rest hstep)
      rw [memcpyBottom, Nat.add_comm]
      exact hstep.trans hfits hrest

theorem memcpyTop_copies (n : Nat) {m : Asm} (hd : m.edi < 2 ^ 32) (hs : m.esi < 2 ^ 32)
    (hfits : Fits n m) : Copies n m (memcpyTop n m) := by
  induction n generalizing m with
  | zero => exact .zero hd hs
  | succ n ih =>
      rw [memcpyTop]
      split
      · -- the words, and what is left behind them
        have hcount : 4 * ((n + 1) / 4) + (n + 1) % 4 = n + 1 := by omega
        have hfits' : Fits (4 * ((n + 1) / 4) + (n + 1) % 4) m.cld := by
          rw [hcount]
          exact { hfits with dest := hfits.dest }
        have hwords : Fits (4 * ((n + 1) / 4)) m.cld := by
          obtain ⟨hdest, hsrc, hclear⟩ := hfits'
          unfold Clear at hclear
          exact { dest := by omega, src := by omega, clear := by unfold Clear; omega }
        obtain ⟨hmoved, -⟩ := rep_copies
          (fun m hdf hd hs => ⟨movsl_copies m hdf hd hs, hdf⟩) ((n + 1) / 4)
          (m := m.cld) rfl hd hs hwords
        have htail := memcpyBottom_copies ((n + 1) % 4) hmoved.edi_lt hmoved.esi_lt
          (hfits'.rest hmoved)
        have hall := hmoved.trans hfits' htail
        rw [hcount] at hall
        exact { mem := hall.mem, edi := hall.edi, esi := hall.esi }
      · rw [Nat.add_comm] at hfits
        have hstep := moveByte_copies m
        have hrest := ih hstep.edi_lt hstep.esi_lt (hfits.rest hstep)
        rw [Nat.add_comm]
        exact hstep.trans hfits hrest

/-- `memcpy` copies `n` bytes and changes nothing else, whatever the alignment, the
length and the direction flag, when the destination does not begin inside the
source. -/
theorem memcpy_copies {dest src n : Nat} (m : Asm) (hd : dest + n ≤ 2 ^ 32)
    (hs : src + n ≤ 2 ^ 32) (hclear : dest ≤ src ∨ src + n ≤ dest) :
    (memcpy dest src n m).mem = storeAt m.mem dest (readAt m.mem src n) := by
  cases n with
  | zero => exact (storeAt_nil m.mem dest).symm
  | succ n =>
      exact (memcpyTop_copies (m := { m with esi := src, edi := dest }) (n + 1)
        (show dest < _ by omega) (show src < _ by omega)
        { dest := hd, src := hs, clear := hclear }).mem

/-- A copy between unaligned places, downwards onto a part of the source. -/
theorem memcpy_down :
    (memcpy 0x1001 0x1003 10 ⟨0, 0, 0, true, UInt8.ofNat⟩).mem =
      storeAt UInt8.ofNat 0x1001 (readAt UInt8.ofNat 0x1003 10) :=
  memcpy_copies ⟨0, 0, 0, true, UInt8.ofNat⟩ (by decide) (by decide) (by decide)

/-! ## `memmove` -/

/-- `rep movsb` with the direction flag set copies from the last byte downwards. -/
theorem rep_movsb_down (n d s : Nat) {m : Asm} (hdf : m.df = true)
    (hptr : 0 < n → m.edi = d + n - 1 ∧ m.esi = s + n - 1) (hd : d + n ≤ 2 ^ 32)
    (hle : s ≤ d) :
    (Asm.rep .movsb n m).mem = storeAt m.mem d (readAt m.mem s n) := by
  induction n generalizing m with
  | zero => exact (storeAt_nil m.mem d).symm
  | succ n ih =>
      obtain ⟨hedi, hesi⟩ := hptr (Nat.succ_pos n)
      have hedi : m.edi = d + n := hedi
      have hesi : m.esi = s + n := hesi
      have hrest := ih (m := m.movsb) hdf ?_ (by omega)
      · rw [Asm.rep, hrest]
        simp only [Asm.movsb, hedi, hesi]
        exact copy_down m.mem n hle
      · intro hpos
        simp only [Asm.movsb, hdf, hedi, hesi]
        exact ⟨stride_down (by omega) (by omega), stride_down (by omega) (by omega)⟩

/-- `memmove` copies `n` bytes and changes nothing else, however the segments
overlap.  It leaves the direction flag set when it has copied downwards. -/
theorem memmove_moves {dest src n : Nat} (m : Asm) (hd : dest + n ≤ 2 ^ 32)
    (hs : src + n ≤ 2 ^ 32) :
    (memmove dest src n m).mem = storeAt m.mem dest (readAt m.mem src n) ∧
      (memmove dest src n m).df = decide (src < dest) := by
  have hlast : ∀ {p : Nat}, p + n ≤ 2 ^ 32 → 0 < n →
      address (p + n + (2 ^ 32 - 1)) = p + n - 1 := by
    intro p hp hn
    show (p + n + (2 ^ 32 - 1)) % 2 ^ 32 = p + n - 1
    omega
  have hdown : ∀ k (m : Asm), (Asm.rep .movsb k m).df = m.df := by
    intro k
    induction k with
    | zero => exact fun m => rfl
    | succ k ih => exact fun m => ih m.movsb
  unfold memmove
  dsimp only
  split
  · rename_i hup
    have hup : dest ≤ src := hup
    have hflag : decide (src < dest) = false := decide_eq_false (by omega)
    rw [hdown, hflag]
    refine ⟨?_, rfl⟩
    cases n with
    | zero => exact (storeAt_nil m.mem dest).symm
    | succ n =>
        have hfits : Fits (1 * (n + 1)) { m with esi := src, edi := dest }.cld := by
          rw [Nat.one_mul]
          exact { dest := hd, src := hs, clear := .inl hup }
        have hcopied := (rep_copies (fun m hdf _ _ => ⟨movsb_copies m hdf, hdf⟩) (n + 1)
          (m := { m with esi := src, edi := dest }.cld) rfl (show dest < _ by omega)
          (show src < _ by omega) hfits).1.mem
        rw [Nat.one_mul] at hcopied
        exact hcopied
  · rename_i hup
    have hup : src < dest := Nat.lt_of_not_le hup
    have hflag : decide (src < dest) = true := decide_eq_true hup
    rw [hdown, hflag]
    refine ⟨?_, rfl⟩
    exact rep_movsb_down n dest src rfl (fun hn => ⟨hlast hd hn, hlast hs hn⟩) hd
      (Nat.le_of_lt hup)

/-- A move upwards onto a part of the source. -/
theorem memmove_up :
    (memmove 0x1003 0x1001 10 ⟨0, 0, 0, true, UInt8.ofNat⟩).mem =
        storeAt UInt8.ofNat 0x1003 (readAt UInt8.ofNat 0x1001 10) ∧
      (memmove 0x1003 0x1001 10 ⟨0, 0, 0, true, UInt8.ofNat⟩).df =
        decide (0x1001 < 0x1003) :=
  memmove_moves ⟨0, 0, 0, true, UInt8.ofNat⟩ (by decide) (by decide)

end MongOS.Proofs.StringOps
