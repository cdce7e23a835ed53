import MongOS.Proofs.Numerals

/-!
# Formatted output

A format is a list of pieces: characters of the text, and conversions.  `render`
says what they print.  `printf_prints` classifies the formats: those that are
made of whole pieces are printed piece by piece, and behind a conversion that is
cut off at the end `printf` reads on behind the NUL.  `conversions_read_back`
is the round trip for the numbers it prints.
-/

namespace MongOS.Proofs.Printf

open MongOS.Model
open MongOS.Verified
open MongOS.Proofs.CStrings
open MongOS.Proofs.Numerals

/-! ## What a format says -/

/-- A piece of a format: a character, or a conversion `spec` behind a `%` and
`marks` signs `#`. -/
inductive Piece where
  | char (b : Byte)
  | conv (marks : Nat) (spec : Byte)

namespace Piece

/-- A character is no `%`, and a conversion is not cut off. -/
def Valid : Piece → Prop
  | char b => b ≠ 0 ∧ b ≠ 37
  | conv _ spec => spec ≠ 0 ∧ spec ≠ 35

/-- How the piece is written. -/
def bytes : Piece → List Byte
  | char b => [b]
  | conv marks spec => 37 :: (List.replicate marks 35 ++ [spec])

/-- The conversions `%x`, `%u`, `%d`, `%c` and `%s` take an argument. -/
def takes : Piece → Bool
  | char _ => false
  | conv _ spec => [120, 117, 100, 99, 115].contains spec

end Piece

/-- A hexadecimal number, with the alternate form of eight digits. -/
def hexText (alternate : Bool) (value : Nat) : List Byte :=
  if alternate then
    List.replicate (8 - (numeral 16 value).length) 48 ++ numeral 16 value
  else numeral 16 value

/-- A signed decimal number. -/
def signedText (value : Int) : List Byte :=
  if value < 0 then 45 :: numeral 10 value.natAbs else numeral 10 value.natAbs

/-- What a conversion prints. -/
def convText (strings : UInt32 → List Byte) (alternate : Bool) (spec : Byte)
    (arg : UInt32) : List Byte :=
  if spec = 37 then [37]
  else if spec = 120 then hexText alternate arg.toNat
  else if spec = 117 then numeral 10 arg.toNat
  else if spec = 100 then signedText (toInt32 arg.toNat)
  else if spec = 99 then [arg.toUInt8]
  else if spec = 115 then cstr (strings arg)
  else []

/-- What a piece prints, with the argument that is next. -/
def Piece.text (strings : UInt32 → List Byte) (arg : UInt32) : Piece → List Byte
  | .char b => [b]
  | .conv marks spec => convText strings (marks != 0) spec arg

/-- A format made of pieces. -/
def format (ps : List Piece) : List Byte := ps.flatMap Piece.bytes

/-- What the pieces print, with the arguments from number `i` on. -/
def render (strings : UInt32 → List Byte) (esp : Nat → UInt32) :
    List Piece → Nat → List Byte
  | [], _ => []
  | p :: ps, i =>
      p.text strings (esp i) ++
        render strings esp ps (if p.takes then i + 1 else i)

/-! ## The conversions -/

theorem cstr_append_text {l : List Byte} (hl : 0 ∉ l) (t : List Byte) :
    cstr (l ++ t) = l ++ cstr t := by
  unfold cstr
  apply List.takeWhile_append_of_pos
  intro b hb
  rw [bne_iff_ne]
  rintro rfl
  exact hl hb

theorem numeral16_short (v : UInt32) : (numeral 16 v.toNat).length ≤ 8 := by
  rw [length_numeral (by decide)]
  exact Nat.log_lt_of_lt_pow' (by decide) v.toNat_lt

theorem numeral10_short {n : Nat} (hn : n < 2 ^ 32) :
    (numeral 10 n).length ≤ 10 := by
  rw [length_numeral (by decide)]
  exact Nat.log_lt_of_lt_pow' (by decide) (Nat.lt_trans hn (by decide))

/-- A number in an array that is long enough. -/
theorem itoa_text (size value radix : Nat) (h2 : 2 ≤ radix) (h36 : radix ≤ 36)
    (hsize : (numeral radix value).length < size) (buf : Nat → Byte) :
    ∃ s, itoa size value buf radix = some s ∧
      cstr (arrayBytes size s) = numeral radix value := by
  refine ⟨_, by rw [itoa_eq h2 h36, if_pos hsize], ?_⟩
  exact cstr_stored (zero_notMem_numeral h2 h36 value) hsize buf

/-- The alternate form has eight digits. -/
theorem alternateHex_text (v : UInt32) (convBuf : Nat → Byte) :
    ∃ s, alternateHex v.toNat convBuf = some s ∧ cstr s = hexText true v.toNat := by
  have hshort := numeral16_short v
  obtain ⟨digits, hdigits, htext⟩ := itoa_text 56 v.toNat 16 (by decide) (by decide)
    (by omega) fun i => convBuf (8 + i)
  unfold alternateHex
  rw [hdigits]
  refine ⟨_, rfl, ?_⟩
  dsimp only
  rw [strlen_eq, htext, arrayBytes_eq, drop_readAt, Nat.zero_add]
  generalize hn : (numeral 16 v.toNat).length = n at hshort ⊢
  have hlength : 64 - n = (8 - n) + 56 := by omega
  have hindex : n + (8 - n) = 8 := by omega
  -- zeros up to index 8, and the digits behind them
  have hzeros : readAt (fun i => if 8 ≤ i then digits (i - 8)
      else if n ≤ i then 48 else convBuf i) n (8 - n) =
      List.replicate (8 - n) 48 := by
    apply readAt_eq_replicate
    intro j hlo hhi
    rw [if_neg (by omega), if_pos hlo]
  have hdigits' : readAt (fun i => if 8 ≤ i then digits (i - 8)
      else if n ≤ i then 48 else convBuf i) 8 56 = readAt digits 0 56 := by
    rw [← readAt_shift _ 8 0]
    apply readAt_congr
    intro j _ _
    rw [if_pos (Nat.le_add_right 8 j), Nat.add_sub_cancel_left]
  rw [hlength, readAt_append, hindex, hzeros, hdigits', cstr_append_text ?_,
    ← arrayBytes_eq, htext, hexText, if_pos rfl, hn]
  rw [List.mem_replicate]
  rintro ⟨-, hzero⟩
  exact absurd hzero (by decide)

/-- `%d` puts the sign and the digits of the absolute value. -/
theorem signedDecimal_text (v : UInt32) (convBuf : Nat → Byte) :
    ∃ s, signedDecimal (toInt32 v.toNat) convBuf = some s ∧
      cstr s = signedText (toInt32 v.toNat) := by
  have hrange : (toInt32 v.toNat).natAbs < 2 ^ 32 := by
    have hlt := v.toNat_lt
    unfold toInt32
    split <;> omega
  have hshort := numeral10_short hrange
  generalize toInt32 v.toNat = value at hrange hshort
  unfold signedDecimal signedText
  split
  · rename_i hneg
    have habs : (-value).toNat = value.natAbs := by omega
    obtain ⟨digits, hdigits, htext⟩ := itoa_text 35 value.natAbs 10 (by decide)
      (by decide) (by omega) fun i => convBuf (1 + i)
    rw [habs, hdigits]
    refine ⟨_, rfl, ?_⟩
    rw [cstr_cons, if_neg (by decide), htext]
  · rename_i hpos
    have habs : value.toNat = value.natAbs := by omega
    obtain ⟨digits, hdigits, htext⟩ := itoa_text 36 value.natAbs 10 (by decide)
      (by decide) (by omega) convBuf
    rw [habs, hdigits]
    exact ⟨_, rfl, htext⟩

/-- The number conversions stay inside `conv_buf` and put their text. -/
theorem convert_eq (strings : UInt32 → List Byte) (convBuf : Nat → Byte)
    (alternate : Bool) (spec : Byte) (hspec : spec ≠ 99) (marks : Nat)
    (arg : UInt32) :
    ∃ s, convert strings convBuf alternate spec arg =
        some (s, (Piece.conv marks spec).takes) ∧
      cstr s = convText strings alternate spec arg := by
  have hshort := numeral16_short arg
  have hshort' := numeral10_short arg.toNat_lt
  unfold convert convText
  split
  · rename_i h
    subst h
    exact ⟨[37], rfl, rfl⟩
  split
  · rename_i h
    subst h
    cases alternate with
    | true =>
        obtain ⟨s, hs, htext⟩ := alternateHex_text arg convBuf
        rw [if_pos rfl, hs]
        exact ⟨s, rfl, htext⟩
    | false =>
        obtain ⟨s, hs, htext⟩ := itoa_text 64 arg.toNat 16 (by decide) (by decide)
          (by omega) convBuf
        rw [if_neg Bool.false_ne_true, hs]
        exact ⟨arrayBytes 64 s, rfl, htext⟩
  split
  · rename_i h
    subst h
    obtain ⟨s, hs, htext⟩ := itoa_text 36 arg.toNat 10 (by decide) (by decide)
      (by omega) convBuf
    rw [hs]
    exact ⟨arrayBytes 36 s, rfl, htext⟩
  split
  · rename_i h
    subst h
    obtain ⟨s, hs, htext⟩ := signedDecimal_text arg convBuf
    rw [hs]
    exact ⟨s, rfl, htext⟩
  split
  · rename_i h
    subst h
    exact ⟨strings arg, rfl, rfl⟩
  · refine ⟨[], ?_, rfl⟩
    simp_all [Piece.takes]

/-! ## The loop -/

section Loop

variable (strings : UInt32 → List Byte) (convBuf : Nat → Byte) (esp : Nat → UInt32)

theorem puts_eq (c : Console) (s : List Byte) : puts c s = (cstr s).foldl putc c := by
  rw [puts, cstr_eq_take]

/-- The signs `#` behind a `%` set the variable `alternate`. -/
theorem loop_marks (marks : Nat) (alternate : Bool) (rest : List Byte)
    (pos i : Nat) (c : Console) :
    printfLoop strings convBuf esp (.conversion alternate)
        (List.replicate marks 35 ++ rest) pos i c =
      printfLoop strings convBuf esp (.conversion (alternate || marks != 0)) rest
        (pos + marks) i c := by
  induction marks generalizing alternate pos with
  | zero => simp
  | succ marks ih =>
      have hpos : pos + 1 + marks = pos + (marks + 1) := by omega
      rw [List.replicate_succ, List.cons_append, printfLoop, if_pos rfl, ih, hpos]
      simp

/-- Behind the signs, the letter of a conversion ends it. -/
theorem loop_spec {spec : Byte} (hspec : spec ≠ 35) (marks : Nat) (rest : List Byte)
    (pos i : Nat) (c : Console) :
    printfLoop strings convBuf esp (.conversion (marks != 0)) (spec :: rest) pos i c =
      printfLoop strings convBuf esp .text rest (pos + 1)
        (if (Piece.conv marks spec).takes then i + 1 else i)
        (((Piece.conv marks spec).text strings (esp i)).foldl putc c) := by
  rw [printfLoop, if_neg hspec]
  split
  · rename_i h
    subst h
    rfl
  · rename_i hchar
    obtain ⟨s, hs, htext⟩ :=
      convert_eq strings convBuf (marks != 0) spec hchar marks (esp i)
    rw [hs]
    dsimp only
    rw [puts_eq, htext]
    rfl

/-- A piece is printed as a whole. -/
theorem loop_piece {p : Piece} (hp : p.Valid) (rest : List Byte) (pos i : Nat)
    (c : Console) :
    printfLoop strings convBuf esp .text (p.bytes ++ rest) pos i c =
      printfLoop strings convBuf esp .text rest (pos + p.bytes.length)
        (if p.takes then i + 1 else i) ((p.text strings (esp i)).foldl putc c) := by
  cases p with
  | char b =>
      obtain ⟨hzero, hpercent⟩ := hp
      rw [Piece.bytes, List.singleton_append, printfLoop, if_neg hzero,
        if_neg hpercent]
      rfl
  | conv marks spec =>
      have hbytes : (Piece.conv marks spec).bytes ++ rest =
          37 :: (List.replicate marks 35 ++ spec :: rest) := by
        simp [Piece.bytes]
      have hlength : pos + 1 + marks + 1 =
          pos + (Piece.conv marks spec).bytes.length := by
        simp only [Piece.bytes, List.length_cons, List.length_append,
          List.length_replicate, List.length_nil]
        omega
      rw [hbytes, printfLoop, if_neg (by decide), if_pos rfl, loop_marks,
        Bool.false_or, loop_spec strings convBuf esp hp.2, hlength]

/-- The pieces are printed one after the other. -/
theorem loop_pieces {ps : List Piece} (hps : ∀ p ∈ ps, p.Valid) (rest : List Byte)
    (pos i : Nat) (c : Console) :
    ∃ j, printfLoop strings convBuf esp .text (format ps ++ rest) pos i c =
      printfLoop strings convBuf esp .text rest (pos + (format ps).length) j
        ((render strings esp ps i).foldl putc c) := by
  induction ps generalizing pos i c with
  | nil => exact ⟨i, rfl⟩
  | cons p ps ih =>
      have hformat : format (p :: ps) = p.bytes ++ format ps := List.flatMap_cons ..
      obtain ⟨j, hj⟩ := ih (fun q hq => hps q (.tail _ hq)) (pos + p.bytes.length)
        (if p.takes then i + 1 else i) ((p.text strings (esp i)).foldl putc c)
      refine ⟨j, ?_⟩
      rw [hformat, List.append_assoc, loop_piece strings convBuf esp (hps p (.head _)),
        hj, render, List.foldl_append, List.length_append, Nat.add_assoc]

end Loop

/-- The signs `#` at the front of a string. -/
theorem split_marks (s : List Byte) :
    ∃ k t, s = List.replicate k 35 ++ t ∧ t.head? ≠ some 35 := by
  induction s with
  | nil => exact ⟨0, [], rfl, nofun⟩
  | cons b s ih =>
      by_cases hb : b = 35
      · obtain ⟨k, t, rfl, ht⟩ := ih
        exact ⟨k + 1, t, by rw [hb, List.replicate_succ, List.cons_append], ht⟩
      · exact ⟨0, b :: s, rfl, fun h => hb (Option.some.inj h)⟩

/-- A string without a NUL is made of whole pieces, but for a conversion that is
cut off at its end. -/
theorem split_format (s : List Byte) (hs : 0 ∉ s) :
    ∃ ps : List Piece, (∀ p ∈ ps, p.Valid) ∧
      (s = format ps ∨ ∃ k, s = format ps ++ 37 :: List.replicate k 35) := by
  obtain ⟨n, hn⟩ : ∃ n, s.length = n := ⟨_, rfl⟩
  induction n using Nat.strongRecOn generalizing s with
  | ind n ih =>
      cases s with
      | nil => exact ⟨[], nofun, .inl rfl⟩
      | cons b s =>
          obtain ⟨hb, hs'⟩ := not_or.1 (fun h => hs (List.mem_cons.2 h))
          -- the rest of the string behind the first piece, split
          have hrest : ∀ (p : Piece) (t : List Byte), p.Valid → b :: s = p.bytes ++ t →
              ∃ ps : List Piece, (∀ p ∈ ps, p.Valid) ∧
                (b :: s = format ps ∨
                  ∃ k, b :: s = format ps ++ 37 :: List.replicate k 35) := by
            intro p t hp ht
            have hlt : t.length < n := by
              have hlength := congrArg List.length ht
              have hpos : 0 < p.bytes.length := by cases p <;> simp [Piece.bytes]
              rw [List.length_append] at hlength
              omega
            have hnul : 0 ∉ t := fun h => hs (ht ▸ List.mem_append_right _ h)
            obtain ⟨ps, hps, hcases⟩ := ih t.length hlt t hnul rfl
            refine ⟨p :: ps, List.forall_mem_cons.2 ⟨hp, hps⟩, ?_⟩
            have hformat : format (p :: ps) = p.bytes ++ format ps :=
              List.flatMap_cons ..
            rw [ht, hformat]
            rcases hcases with rfl | ⟨k, rfl⟩
            · exact .inl rfl
            · exact .inr ⟨k, (List.append_assoc ..).symm⟩
          by_cases hpercent : b = 37
          · subst hpercent
            obtain ⟨k, t, rfl, ht⟩ := split_marks s
            cases t with
            | nil =>
                refine ⟨[], nofun, .inr ⟨k, ?_⟩⟩
                rw [List.append_nil]
                rfl
            | cons spec t =>
                have hspec : spec ≠ 35 := fun h => ht (congrArg some h)
                have hne : spec ≠ 0 := fun h =>
                  hs' (List.mem_append_right _ (h ▸ .head _))
                refine hrest (.conv k spec) t ⟨hne, hspec⟩ ?_
                simp [Piece.bytes]
          · exact hrest (.char b) s ⟨Ne.symm hb, hpercent⟩ rfl

/-- A format of whole pieces, which `printf` prints piece by piece; it returns the
length of the format. -/
structure Printed (s : List Byte) (ps : List Piece) : Prop where
  whole : s = format ps
  prints : ∀ strings convBuf rest esp c,
    printf strings convBuf (s ++ 0 :: rest) esp c =
      some ((render strings esp ps 0).foldl putc c, s.length)

/-- A format with a conversion that is cut off behind its pieces: there `printf`
reads on behind the NUL. -/
structure CutOff (s : List Byte) (ps : List Piece) : Prop where
  cut : ∃ k, s = format ps ++ 37 :: List.replicate k 35
  leaves : ∀ strings convBuf esp c, printf strings convBuf (s ++ [0]) esp c = none

theorem printf_pieces {ps : List Piece} (hps : ∀ p ∈ ps, p.Valid)
    (strings : UInt32 → List Byte) (convBuf : Nat → Byte) (rest : List Byte)
    (esp : Nat → UInt32) (c : Console) :
    printf strings convBuf (format ps ++ 0 :: rest) esp c =
      some ((render strings esp ps 0).foldl putc c, (format ps).length) := by
  obtain ⟨j, hj⟩ := loop_pieces strings convBuf esp hps (0 :: rest) 0 0 c
  rw [printf, hj, printfLoop, if_pos rfl, Nat.zero_add]

/-- `printf` prints every format piece by piece, without leaving `conv_buf`, and
reads on behind the NUL exactly if the format ends in a cut off conversion. -/
theorem printf_prints (s : List Byte) (hs : 0 ∉ s) :
    ∃ ps : List Piece, (∀ p ∈ ps, p.Valid) ∧ (Printed s ps ∨ CutOff s ps) := by
  obtain ⟨ps, hps, hcases⟩ := split_format s hs
  refine ⟨ps, hps, ?_⟩
  rcases hcases with rfl | ⟨k, rfl⟩
  · exact .inl ⟨rfl, printf_pieces hps⟩
  · refine .inr ⟨⟨k, rfl⟩, fun strings convBuf esp c => ?_⟩
    obtain ⟨j, hj⟩ :=
      loop_pieces strings convBuf esp hps (37 :: (List.replicate k 35 ++ [0])) 0 0 c
    rw [printf, List.append_assoc, List.cons_append, hj, printfLoop,
      if_neg (by decide), if_pos rfl, loop_marks, Bool.false_or,
      loop_spec strings convBuf esp (by decide)]
    rfl

/-- A format of the exception handler. -/
theorem num_printed :
    ∃ ps : List Piece, (∀ p ∈ ps, p.Valid) ∧
      (Printed (str "num=%d\n") ps ∨ CutOff (str "num=%d\n") ps) :=
  printf_prints (str "num=%d\n") (by decide)

/-! ## Numbers -/

/-- Reading a signed number. -/
def readSigned (s : List Byte) : Int :=
  if s.head? = some 45 then -(readNumeral 10 s.tail : Int) else readNumeral 10 s

theorem readNumeral_zeros (radix n : Nat) (s : List Byte) :
    readNumeral radix (List.replicate n 48 ++ s) = readNumeral radix s := by
  induction n with
  | zero => rfl
  | succ n ih =>
      have hzero : 0 * radix + digitValue 48 = 0 := by
        rw [Nat.zero_mul]
        rfl
      rw [← ih, readNumeral, List.replicate_succ, List.cons_append, List.foldl_cons,
        hzero]
      rfl

theorem readSigned_text (value : Int) : readSigned (signedText value) = value := by
  have hround : readNumeral 10 (numeral 10 value.natAbs) = value.natAbs :=
    readNumeral_numeral (by decide) (by decide) _
  unfold readSigned signedText
  split
  · simp only [List.head?_cons, if_true, List.tail_cons, hround]
    omega
  · have hhead : (numeral 10 value.natAbs).head? ≠ some 45 := by
      intro h
      obtain ⟨i, hi, hdigit⟩ :=
        mem_numeral (by decide) (by decide) (List.mem_of_mem_head? h)
      have hall : ∀ i : Fin 10, (45 : Byte) ≠ lookup i := by decide
      exact hall ⟨i, hi⟩ hdigit
    rw [if_neg hhead, hround]
    omega

/-- Every number that `printf` prints can be read back: `%x` and `%u` give the
argument word, `%#x` does with exactly eight digits, and `%d` gives the word as
a signed number; none of them leaves `conv_buf`. -/
theorem conversions_read_back (strings : UInt32 → List Byte) (convBuf : Nat → Byte)
    (arg : UInt32) :
    (∀ alternate, ∃ s, convert strings convBuf alternate 120 arg = some (s, true) ∧
        readNumeral 16 (cstr s) = arg.toNat ∧
        (alternate = true → (cstr s).length = 8)) ∧
      (∀ alternate, ∃ s, convert strings convBuf alternate 117 arg = some (s, true) ∧
        readNumeral 10 (cstr s) = arg.toNat) ∧
      ∀ alternate, ∃ s, convert strings convBuf alternate 100 arg = some (s, true) ∧
        readSigned (cstr s) = toInt32 arg.toNat := by
  have hround : ∀ radix, 2 ≤ radix → radix ≤ 36 →
      readNumeral radix (numeral radix arg.toNat) = arg.toNat :=
    fun _ h2 h36 => readNumeral_numeral h2 h36 _
  refine ⟨fun alternate => ?hex, fun alternate => ?unsigned, fun alternate => ?signed⟩
  case hex =>
    have hshort := numeral16_short arg
    obtain ⟨s, hs, htext⟩ :=
      convert_eq strings convBuf alternate 120 (by decide) 0 arg
    refine ⟨s, hs, ?_, fun h => ?_⟩
    · rw [htext]
      show readNumeral 16 (hexText alternate arg.toNat) = _
      unfold hexText
      split
      · rw [readNumeral_zeros, hround 16 (by decide) (by decide)]
      · exact hround 16 (by decide) (by decide)
    · subst h
      rw [htext]
      show (hexText true arg.toNat).length = 8
      rw [hexText, if_pos rfl, List.length_append, List.length_replicate]
      omega
  case unsigned =>
    obtain ⟨s, hs, htext⟩ :=
      convert_eq strings convBuf alternate 117 (by decide) 0 arg
    exact ⟨s, hs, htext ▸ hround 10 (by decide) (by decide)⟩
  case signed =>
    obtain ⟨s, hs, htext⟩ :=
      convert_eq strings convBuf alternate 100 (by decide) 0 arg
    exact ⟨s, hs, htext ▸ readSigned_text _⟩

end MongOS.Proofs.Printf
