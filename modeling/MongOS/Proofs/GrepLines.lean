import Mathlib.Data.List.Infix
import MongOS.Proofs.FilePrograms

/-!
# `grep`

`do_one_file` reads a file in pieces of up to 1024 bytes into a buffer, searches
the lines that are complete there, and moves what follows the last newline to the
front of the buffer before it reads on.  On a text file whose lines fit the buffer
the pieces do not show: it prints the lines that contain the string, each behind
the name of the file.  A string whose first byte is 128 or more is found nowhere.

* `searchLine_iff` — the search in one line.
* `runs_lineLoop` — what one buffer leads to, and what stays for the next read.
* `runs_fileLoop` — a whole file.
* `grep_command_prints` — all files of the directory.
-/

namespace MongOS.Proofs.GrepLines

open MongOS.Model
open MongOS.Verified
open MongOS.Proofs.Arguments
open MongOS.Proofs.CStrings
open MongOS.Proofs.CommandLine
open MongOS.Proofs.DescriptorCalls
open MongOS.Proofs.DirListing
open MongOS.Proofs.FileReads
open MongOS.Proofs.Numerals
open MongOS.Proofs.UserCalls
open MongOS.Proofs.FilePrograms

variable {σ : Type}

/-! ## The lines of a text -/

/-- The string begins with a byte below 128.  A larger one is negative as a `char`
and equals no byte of the buffer. -/
def PlainHead (p : List Byte) : Prop := (p.headD 0).toNat < 128

instance (p : List Byte) : Decidable (PlainHead p) :=
  inferInstanceAs (Decidable ((p.headD 0).toNat < 128))

/-- What `grep` prints for a line. -/
def matchLine (p name line : List Byte) : List Byte :=
  if PlainHead p ∧ p <:+: line then name ++ str ":" ++ line ++ str "\n" else []

/-- What `grep` prints for a text: its lines that contain `p`. -/
def grepText (p name text : List Byte) : List Byte :=
  (text.splitOn 10).flatMap (matchLine p name)

/-- A text of whole lines. -/
def Closed (text : List Byte) : Prop := text = [] ∨ ∃ lines, text = lines ++ [10]

section Text

variable {p name : List Byte}

theorem matchLine_nil (hp : p ≠ []) : matchLine p name [] = [] := by
  unfold matchLine
  rw [if_neg]
  rintro ⟨-, hin⟩
  exact hp (List.infix_nil.1 hin)

theorem grepText_line {line : List Byte} (h : 10 ∉ line) :
    grepText p name line = matchLine p name line := by
  unfold grepText List.splitOn
  rw [List.splitOnP_eq_singleton, List.flatMap_singleton]
  intro b hb
  rw [beq_eq_false_iff_ne]
  rintro rfl
  exact h hb

theorem grepText_nil (hp : p ≠ []) : grepText p name [] = [] := by
  rw [grepText_line List.not_mem_nil, matchLine_nil hp]

theorem grepText_append_line (lines rest : List Byte) :
    grepText p name (lines ++ 10 :: rest) =
      grepText p name lines ++ grepText p name rest := by
  unfold grepText List.splitOn
  rw [List.splitOnP_append_cons _ _ (by decide), List.flatMap_append]

/-- Whole lines can be searched on their own. -/
theorem grepText_append (hp : p ≠ []) {text : List Byte} (h : Closed text)
    (rest : List Byte) :
    grepText p name (text ++ rest) = grepText p name text ++ grepText p name rest := by
  rcases h with rfl | ⟨lines, rfl⟩
  · rw [grepText_nil hp, List.nil_append, List.nil_append]
  · rw [List.append_assoc, List.singleton_append, grepText_append_line,
      grepText_append_line, grepText_nil hp, List.append_nil]

theorem Closed.cons_line {text : List Byte} (h : Closed text) (line : List Byte) :
    Closed (line ++ 10 :: text) := by
  rcases h with rfl | ⟨lines, rfl⟩
  · exact .inr ⟨line, rfl⟩
  · exact .inr ⟨line ++ 10 :: lines, by simp⟩

end Text

/-! ## The functions of `do_one_file` -/

/-- `ece391_strncmp` finds two strings equal exactly if they agree up to `n`
characters. -/
theorem ece391Strncmp_eq_zero (s1 s2 : List Byte) (n : Nat) :
    ece391Strncmp s1 s2 n = 0 ↔ (cstr s1).take n = (cstr s2).take n := by
  induction n generalizing s1 s2 with
  | zero => simp [ece391Strncmp]
  | succ n ih =>
      rw [ece391Strncmp, cstr_eq_of_headD s1, cstr_eq_of_headD s2]
      generalize s1.headD 0 = a
      generalize s2.headD 0 = b
      by_cases hab : a = b
      · subst hab
        by_cases ha : a = 0
        · simp [ha]
        · simp [ha, ih]
      · have hval : (a.toNat : Int) - b.toNat ≠ 0 := by
          intro hzero
          exact hab (UInt8.toNat_inj.1 (by omega))
        rw [if_neg hab]
        refine iff_of_false hval ?_
        split <;> split <;> simp_all

/-- `findLineEnd` stops at the newline or at the end of the bytes. -/
theorem findLineEnd_eq (data : Nat → Byte) (last n lineEnd : Nat)
    (h : lineEnd + n = last) :
    findLineEnd data last n lineEnd =
      lineEnd + ((readAt data lineEnd n).takeWhile (· != 10)).length := by
  induction n generalizing lineEnd with
  | zero => rfl
  | succ n ih =>
      rw [findLineEnd, readAt_succ, List.takeWhile_cons]
      by_cases hnl : data lineEnd = 10
      · rw [if_neg (by simp [hnl]), if_neg (by simp [hnl])]
        rfl
      · rw [if_pos ⟨by omega, hnl⟩, if_pos (by simpa using hnl), ih _ (by omega),
          List.length_cons]
        omega

/-- `ece391_strcpy` towards the front of the same array. -/
theorem ece391Strcpy_eq {t : List Byte} (ht : 0 ∉ t) {n dst src : Nat}
    (hn : t.length < n) (hdst : dst ≤ src) (m : Nat → Byte)
    (htext : readAt m src t.length = t) (hnul : m (src + t.length) = 0) :
    ece391Strcpy n dst src m = some (storeAt m dst (t ++ [0])) := by
  induction t generalizing n dst src m with
  | nil =>
      obtain ⟨n, rfl⟩ := Nat.exists_eq_succ_of_ne_zero (n := n) (by omega)
      have hzero : m src = 0 := hnul
      rw [ece391Strcpy, hzero, if_pos rfl, List.nil_append, storeAt_cons, storeAt_nil]
  | cons b t ih =>
      obtain ⟨n, rfl⟩ := Nat.exists_eq_succ_of_ne_zero (n := n) (by omega)
      rw [List.length_cons, readAt_succ] at htext
      obtain ⟨hb, hrest⟩ := List.cons.inj htext
      rw [List.length_cons] at hn hnul
      have hne : b ≠ 0 := fun hzero => ht (hzero ▸ List.mem_cons_self ..)
      have hkeep : ∀ j, src < j → Function.update m dst b j = m j := fun j hj =>
        Function.update_of_ne (by omega) _ _
      rw [ece391Strcpy, hb, if_neg hne, List.cons_append, storeAt_cons]
      refine ih (fun hmem => ht (List.mem_cons_of_mem _ hmem)) (by omega) (by omega) _ ?_ ?_
      · refine (readAt_congr fun j hj _ => ?_).trans hrest
        exact hkeep j (by omega)
      · rw [hkeep _ (by omega), ← hnul]
        congr 1
        omega

/-- With a NUL in the array `ece391_strcpy` stays inside it. -/
theorem ece391Strcpy_stays {n dst src k : Nat} (hdst : dst ≤ src) (hk : k < n)
    {m : Nat → Byte} (hnul : m (src + k) = 0) :
    ∃ m', ece391Strcpy n dst src m = some m' := by
  induction n generalizing dst src k m with
  | zero => omega
  | succ n ih =>
      rw [ece391Strcpy]
      split
      · exact ⟨_, rfl⟩
      · rename_i hne
        cases k with
        | zero => exact absurd hnul hne
        | succ k =>
            refine ih (by omega) (k := k) (by omega) ?_
            rw [Function.update_of_ne (by omega), ← hnul]
            congr 1
            omega

/-- A line in the buffer in front of its NUL. -/
theorem dataFrom_line {data : Nat → Byte} {i lineEnd : Nat} (hlo : i ≤ lineEnd)
    (hhi : lineEnd ≤ BUFSIZE) (hnul : data lineEnd = 0)
    (hline : 0 ∉ readAt data i (lineEnd - i)) :
    cstr (dataFrom data i) = readAt data i (lineEnd - i) := by
  have hcount : BUFSIZE + 1 - i = (lineEnd - i) + (BUFSIZE - lineEnd + 1) := by omega
  have hend : i + (lineEnd - i) = lineEnd := by omega
  unfold dataFrom
  rw [arrayBytes_eq, readAt_shift, Nat.add_zero, hcount, readAt_append, hend,
    readAt_succ, hnul, cstr_append_zero hline]

theorem charValue_eq_iff (a b : Byte) :
    charValue a = (b.toNat : Int) ↔ a.toNat < 128 ∧ a = b := by
  unfold charValue
  have ha := a.toNat_lt
  have hb := b.toNat_lt
  rw [← UInt8.toNat_inj]
  split <;> omega

theorem searchLine_eq (s : List Byte) (sLen : Nat) (data : Nat → Byte) (n check : Nat) :
    searchLine s sLen data n check = true ↔
      ∃ i, check ≤ i ∧ i < check + n ∧ charValue (s.headD 0) = (data i).toNat ∧
        ece391Strncmp (dataFrom data i) s sLen = 0 := by
  induction n generalizing check with
  | zero =>
      refine iff_of_false Bool.false_ne_true ?_
      rintro ⟨i, hlo, hhi, -⟩
      omega
  | succ n ih =>
      rw [searchLine]
      split
      · rename_i hfound
        exact iff_of_true rfl ⟨check, Nat.le_refl _, by omega, hfound⟩
      · rename_i hno
        rw [ih]
        constructor
        · rintro ⟨i, hlo, hhi, hi⟩
          exact ⟨i, by omega, by omega, hi⟩
        · rintro ⟨i, hlo, hhi, hi⟩
          rcases Nat.eq_or_lt_of_le hlo with rfl | hlt
          · exact absurd hi hno
          · exact ⟨i, hlt, by omega, hi⟩

/-- The search finds a string that begins with a byte below 128 exactly in the lines
that contain it, and no other string. -/
theorem searchLine_iff {s p : List Byte} (hs : cstr s = p) (hp : p ≠ [])
    {data : Nat → Byte} {lineStart lineEnd : Nat} (hlo : lineStart ≤ lineEnd)
    (hhi : lineEnd ≤ BUFSIZE) (hnul : data lineEnd = 0)
    (hline : 0 ∉ readAt data lineStart (lineEnd - lineStart)) :
    searchLine s p.length data (lineEnd - lineStart) lineStart = true ↔
      PlainHead p ∧ p <:+: readAt data lineStart (lineEnd - lineStart) := by
  have hdrop : ∀ i, lineStart ≤ i → i ≤ lineEnd →
      (readAt data lineStart (lineEnd - lineStart)).drop (i - lineStart) =
        readAt data i (lineEnd - i) := by
    intro i hi hend
    rw [drop_readAt]
    congr 1 <;> omega
  -- at a place of the line the comparison asks for a prefix of the rest of the line
  have hplace : ∀ i, lineStart ≤ i → i ≤ lineEnd →
      (ece391Strncmp (dataFrom data i) s p.length = 0 ↔
        p <+: (readAt data lineStart (lineEnd - lineStart)).drop (i - lineStart)) := by
    intro i hi hend
    have hrest : 0 ∉ readAt data i (lineEnd - i) := by
      rw [← hdrop i hi hend]
      exact fun hmem => hline (List.mem_of_mem_drop hmem)
    rw [ece391Strncmp_eq_zero, dataFrom_line hend hhi hnul hrest, hs, hdrop i hi hend,
      List.take_length, List.prefix_iff_eq_take, eq_comm]
  obtain ⟨b, q, rfl⟩ := List.exists_cons_of_ne_nil hp
  have hhead : s.headD 0 = b := by
    rw [cstr_eq_of_headD] at hs
    split at hs
    · cases hs
    · exact (List.cons.inj hs).1
  rw [searchLine_eq]
  constructor
  · rintro ⟨i, hi, hend, hbyte, hcmp⟩
    have hprefix := (hplace i hi (by omega)).1 hcmp
    rw [hhead, charValue_eq_iff] at hbyte
    exact ⟨hbyte.1, hprefix.isInfix.trans (List.drop_suffix _ _).isInfix⟩
  · rintro ⟨hplain, front, back, hsplit⟩
    have hlength := congrArg List.length hsplit
    rw [length_readAt, List.length_append, List.length_append, List.length_cons]
      at hlength
    have hget := congrArg (·[front.length]?) hsplit
    simp only [List.append_assoc, List.getElem?_append_right (Nat.le_refl _),
      Nat.sub_self, List.cons_append, List.getElem?_cons_zero] at hget
    rw [getElem?_readAt (by omega)] at hget
    refine ⟨lineStart + front.length, by omega, by omega,
      (charValue_eq_iff _ _).2 ⟨hhead ▸ hplain, hhead.trans (Option.some.inj hget)⟩,
      (hplace _ (by omega) (by omega)).2 ?_⟩
    rw [← hsplit, List.append_assoc, Nat.add_sub_cancel_left, List.drop_left]
    exact List.prefix_append _ _

/-! ## One buffer -/

section Buffer

variable {fs : FileSys} {s fname p : List Byte} {v : View}

theorem runs_printMatch (hterm : Terminal v) (line : List Byte) :
    runs fs (printMatch fname line) v =
      some ((), v.print (cstr fname ++ str ":" ++ cstr line ++ str "\n")) := by
  have hcolon : cstr (literal ":") = str ":" := by decide
  have hnewline : cstr (literal "\n") = str "\n" := by decide
  unfold runs printMatch
  rw [Prog.exec_bind (runs_fdputs hterm _),
    Prog.exec_bind (runs_fdputs (hterm.print _) _),
    Prog.exec_bind (runs_fdputs ((hterm.print _).print _) _)]
  refine (runs_fdputs (((hterm.print _).print _).print _) _).trans ?_
  rw [hcolon, hnewline, print_print, print_print, print_print, List.append_assoc,
    List.append_assoc]

/-- The search of a line. -/
theorem runs_searchAndPrint (hs : cstr s = p) (hp : p ≠ []) (hterm : Terminal v)
    {data : Nat → Byte} {lineStart lineEnd : Nat} (hlo : lineStart ≤ lineEnd)
    (hhi : lineEnd ≤ BUFSIZE) (hline : 0 ∉ readAt data lineStart (lineEnd - lineStart)) :
    runs fs (searchAndPrint s fname p.length (Function.update data lineEnd 0) lineStart
        lineEnd) v =
      some ((), v.print (matchLine p (cstr fname)
        (readAt data lineStart (lineEnd - lineStart)))) := by
  have hkeep : readAt (Function.update data lineEnd 0) lineStart (lineEnd - lineStart) =
      readAt data lineStart (lineEnd - lineStart) :=
    readAt_congr fun j _ hj => Function.update_of_ne (by omega) _ _
  have hnul : Function.update data lineEnd 0 lineEnd = 0 := Function.update_self ..
  have hfind := searchLine_iff hs hp hlo hhi hnul (hkeep.symm ▸ hline)
  have htext := dataFrom_line hlo hhi hnul (hkeep.symm ▸ hline)
  rw [hkeep] at hfind htext
  unfold searchAndPrint matchLine
  by_cases hfound : PlainHead p ∧ p <:+: readAt data lineStart (lineEnd - lineStart)
  · rw [if_pos (hfind.2 hfound), if_pos hfound, runs_printMatch hterm, htext]
  · rw [if_neg (fun h => hfound (hfind.1 h)), if_neg hfound, print_nil]
    rfl

/-- A line that ends in the buffer, or that is searched all the same. -/
theorem lineLoop_search (hs : cstr s = p) (hp : p ≠ []) (hterm : Terminal v)
    {cnt last n lineStart lineEnd : Nat} {data : Nat → Byte}
    (hend : findLineEnd data last (last - lineStart) lineStart = lineEnd)
    (hsearch : ¬ (data lineEnd ≠ 10 ∧ cnt ≠ 0 ∧ lineStart ≠ 0))
    (hlo : lineStart ≤ lineEnd) (hhi : lineEnd ≤ BUFSIZE)
    (hline : 0 ∉ readAt data lineStart (lineEnd - lineStart)) :
    runs fs (lineLoop s fname p.length cnt last (n + 1) data lineStart) v =
      runs fs
        (if lineEnd + 1 ≥ last then pure (some (Function.update data lineEnd 0, 0))
        else lineLoop s fname p.length cnt last n (Function.update data lineEnd 0)
          (lineEnd + 1))
        (v.print (matchLine p (cstr fname)
          (readAt data lineStart (lineEnd - lineStart)))) := by
  unfold runs
  rw [lineLoop]
  dsimp only
  rw [hend, if_neg hsearch,
    Prog.exec_bind (runs_searchAndPrint hs hp hterm hlo hhi hline)]

/-- The bytes `text` in the buffer are searched up to `done`, and `tail` stays at the
front of the buffer for the next read. -/
structure Searched (cnt last : Nat) (text done tail : List Byte) (data : Nat → Byte) :
    Prop where
  split : text = done ++ tail
  front : readAt data 0 tail.length = tail
  unfinished : 10 ∉ tail
  guard : data BUFSIZE ≠ 10
  closed : Closed done ∨ tail = [] ∧ (last < BUFSIZE ∨ cnt = 0)
  atEnd : cnt = 0 → tail = []

/-- A text with a newline in an array. -/
theorem split_line {data : Nat → Byte} {i n : Nat} {text : List Byte}
    (htext : readAt data i n = text) (hnl : 10 ∈ text) :
    ∃ line rest, text = line ++ 10 :: rest ∧ 10 ∉ line ∧
      n = line.length + (rest.length + 1) ∧
      readAt data i line.length = line ∧ data (i + line.length) = 10 ∧
      readAt data (i + line.length + 1) rest.length = rest := by
  obtain ⟨line, rest, rfl, hline⟩ := List.eq_append_cons_of_mem hnl
  have hn := congrArg List.length htext
  rw [length_readAt, List.length_append, List.length_cons] at hn
  rw [hn, readAt_append] at htext
  obtain ⟨hfirst, hsecond⟩ := List.append_inj htext (length_readAt ..)
  rw [readAt_succ] at hsecond
  obtain ⟨hhead, htail⟩ := List.cons.inj hsecond
  exact ⟨line, rest, rfl, hline, hn, hfirst, hhead, htail⟩

/-- The line at the end of the bytes is moved to the front of the buffer. -/
theorem lineLoop_carry {cnt last n lineStart sLen : Nat} {data : Nat → Byte}
    {text : List Byte} (hlast : last ≤ BUFSIZE)
    (hend : findLineEnd data last (last - lineStart) lineStart = last)
    (htext : readAt data lineStart (last - lineStart) = text) (hnul : 0 ∉ text)
    (hcarry : data last ≠ 10 ∧ cnt ≠ 0 ∧ lineStart ≠ 0) (hlt : lineStart < last) :
    runs fs (lineLoop s fname sLen cnt last (n + 1) data lineStart) v =
      some (some (storeAt (Function.update data last 0) 0 (text ++ [0]), text.length), v)
      := by
  have hlength : text.length = last - lineStart := by rw [← htext, length_readAt]
  have hcopy := ece391Strcpy_eq hnul (n := BUFSIZE + 1 - lineStart) (by omega)
    (Nat.zero_le lineStart) (Function.update data last 0)
    (by
      rw [hlength]
      refine (readAt_congr fun j _ hj => ?_).trans htext
      exact Function.update_of_ne (by omega) _ _)
    (by
      have hnext : lineStart + text.length = last := by omega
      rw [hnext]
      exact Function.update_self ..)
  unfold runs
  rw [lineLoop]
  dsimp only
  rw [hend, if_pos hcarry, hcopy, hlength]
  rfl

theorem runs_lineLoop (fs : FileSys) (fname : List Byte) (cnt : Nat) (hs : cstr s = p)
    (hp : p ≠ []) (hterm : Terminal v) {last n : Nat} (data : Nat → Byte)
    (lineStart : Nat) {text : List Byte}
    (hlast : last ≤ BUFSIZE) (hn : last - lineStart < n)
    (htext : readAt data lineStart (last - lineStart) = text)
    (hstart : lineStart < last ∨ lineStart = 0) (hnul : 0 ∉ text)
    (hguard : data BUFSIZE ≠ 10)
    (hfull : cnt ≠ 0 → lineStart = 0 → last = BUFSIZE → 10 ∈ text) :
    ∃ data' done tail, Searched cnt last text done tail data' ∧
      runs fs (lineLoop s fname p.length cnt last n data lineStart) v =
        some (some (data', tail.length), v.print (grepText p (cstr fname) done)) := by
  induction n generalizing v data lineStart text with
  | zero => omega
  | succ n ih =>
      have hend := findLineEnd_eq data last (last - lineStart) lineStart (by omega)
      rw [htext] at hend
      by_cases hnl : 10 ∈ text
      · -- the line ends at a newline, and the loop goes on behind it
        obtain ⟨line, rest, rfl, hline, hcount, hread, hhead, htail⟩ :=
          split_line htext hnl
        have hstop : (line ++ 10 :: rest).takeWhile (· != 10) = line :=
          takeWhile_append_stop (fun b hb => bne_iff_ne.2 fun h => hline (h ▸ hb))
            fun b hb => by cases hb; rfl
        have hzero : 0 ∉ line := fun h => hnul (List.mem_append_left _ h)
        rw [hstop] at hend
        generalize hlineEnd : lineStart + line.length = lineEnd at hend hhead htail
        have hsub : lineEnd - lineStart = line.length := by omega
        have hne : BUFSIZE ≠ lineEnd := by omega
        have hguard' : Function.update data lineEnd 0 BUFSIZE ≠ 10 := by
          rw [Function.update_of_ne hne]
          exact hguard
        rw [lineLoop_search hs hp hterm hend (fun h => h.1 hhead) (by omega) (by omega)
          (by rw [hsub, hread]; exact hzero), hsub, hread, ← grepText_line hline]
        by_cases hlastLine : lineEnd + 1 ≥ last
        · have hrest : rest = [] := List.length_eq_zero_iff.1 (by omega)
          subst hrest
          refine ⟨Function.update data lineEnd 0, line ++ [10], [],
            { split := (List.append_nil _).symm, front := rfl
              unfinished := List.not_mem_nil, guard := hguard'
              closed := .inl (.inr ⟨line, rfl⟩), atEnd := fun _ => rfl }, ?_⟩
          rw [if_pos hlastLine, grepText_append_line, grepText_nil hp, List.append_nil]
          rfl
        · have hkeep : readAt (Function.update data lineEnd 0) (lineEnd + 1)
              (last - (lineEnd + 1)) = rest := by
            have hlen : last - (lineEnd + 1) = rest.length := by omega
            rw [hlen]
            refine (readAt_congr fun j hj _ => ?_).trans htail
            exact Function.update_of_ne (by omega) _ _
          obtain ⟨data', done, tail, hsearched, hrun⟩ := ih
            (hterm.print (grepText p (cstr fname) line)) (Function.update data lineEnd 0)
            (lineEnd + 1) (by omega) hkeep (.inl (by omega)) (fun h => hnul (by simp [h]))
            hguard' (by omega)
          refine ⟨data', line ++ 10 :: done, tail,
            { hsearched with
              split := by rw [hsearched.split]; simp
              closed := hsearched.closed.imp_left fun h => h.cons_line line }, ?_⟩
          rw [if_neg hlastLine, hrun, print_print, grepText_append_line]
      · -- the bytes end in a line without newline
        have hall : text.takeWhile (· != 10) = text :=
          List.takeWhile_eq_self_iff.2 fun b hb => bne_iff_ne.2 fun h => hnl (h ▸ hb)
        have hlength : text.length = last - lineStart := by rw [← htext, length_readAt]
        rw [hall, hlength, Nat.add_sub_cancel' (by omega)] at hend
        by_cases hcarry : data last ≠ 10 ∧ cnt ≠ 0 ∧ lineStart ≠ 0
        · have hlt : lineStart < last := hstart.resolve_right hcarry.2.2
          have hstored := readAt_storeAt (Function.update data last 0) 0 (text ++ [0])
          rw [List.length_append, readAt_append] at hstored
          refine ⟨storeAt (Function.update data last 0) 0 (text ++ [0]), [], text,
            { split := rfl, front := (List.append_inj hstored (length_readAt ..)).1
              unfinished := hnl, guard := ?_, closed := .inl (.inl rfl)
              atEnd := fun h => absurd h hcarry.2.1 }, ?_⟩
          · rw [storeAt_of_ge (by rw [List.length_append, List.length_singleton]; omega),
              Function.update_apply]
            split
            · decide
            · exact hguard
          · rw [lineLoop_carry hlast hend htext hnul hcarry hlt, grepText_nil hp, print_nil]
        · rw [lineLoop_search hs hp hterm hend hcarry (by omega) hlast
            (by rw [htext]; exact hnul), htext, ← grepText_line hnl,
            if_pos (Nat.le_succ last)]
          refine ⟨Function.update data last 0, text, [],
            { split := (List.append_nil _).symm, front := rfl
              unfinished := List.not_mem_nil, guard := ?_
              closed := .inr ⟨rfl, ?_⟩, atEnd := fun _ => rfl }, rfl⟩
          · rw [Function.update_apply]
            split
            · decide
            · exact hguard
          · by_contra hboth
            rw [not_or] at hboth
            have hlastFull : last = BUFSIZE := by omega
            refine hcarry ⟨hlastFull ▸ hguard, hboth.2, fun h0 => ?_⟩
            exact hnl (hfull hboth.2 h0 hlastFull)

theorem searchAndPrint_ends (fs : FileSys) (s fname : List Byte) (hterm : Terminal v)
    (sLen : Nat) (data : Nat → Byte) (lineStart lineEnd : Nat) :
    ∃ text, runs fs (searchAndPrint s fname sLen data lineStart lineEnd) v =
      some ((), v.print text) := by
  unfold searchAndPrint
  split
  · exact ⟨_, runs_printMatch hterm _⟩
  · exact ⟨[], by rw [print_nil]; rfl⟩

/-- Whatever the bytes are, the loop over the lines ends inside the buffer. -/
theorem lineLoop_ends (fs : FileSys) (s fname : List Byte) (hterm : Terminal v)
    (sLen cnt : Nat) {last n : Nat} (data : Nat → Byte) (lineStart : Nat)
    (hlast : last ≤ BUFSIZE) (hn : last - lineStart < n) (hstart : lineStart ≤ last) :
    ∃ data' last' text, last' < BUFSIZE ∧
      runs fs (lineLoop s fname sLen cnt last n data lineStart) v =
        some (some (data', last'), v.print text) := by
  have hbuf : BUFSIZE = 1024 := rfl
  induction n generalizing v data lineStart with
  | zero => omega
  | succ n ih =>
      have hend := findLineEnd_eq data last (last - lineStart) lineStart (by omega)
      have hle := (List.takeWhile_prefix (· != 10)
        (l := readAt data lineStart (last - lineStart))).length_le
      rw [length_readAt] at hle
      generalize hlineEnd : findLineEnd data last (last - lineStart) lineStart = lineEnd
        at hend
      unfold runs
      rw [lineLoop]
      dsimp only
      rw [hlineEnd]
      split
      · rename_i hcarry
        have hnul : Function.update data lineEnd 0 (lineStart + (lineEnd - lineStart)) = 0 := by
          rw [Nat.add_sub_cancel' (by omega)]
          exact Function.update_self ..
        obtain ⟨m, hm⟩ := ece391Strcpy_stays (n := BUFSIZE + 1 - lineStart)
          (Nat.zero_le lineStart) (by omega) hnul
        rw [hm]
        refine ⟨m, last - lineStart, [], by omega, ?_⟩
        rw [print_nil]
        rfl
      · obtain ⟨text, htext⟩ := searchAndPrint_ends fs s fname hterm sLen
          (Function.update data lineEnd 0) lineStart lineEnd
        rw [Prog.exec_bind htext]
        split
        · exact ⟨_, 0, text, by omega, rfl⟩
        · obtain ⟨data', last', text', hlt, hrun⟩ := ih (hterm.print text)
            (Function.update data lineEnd 0) (lineEnd + 1) (by omega) (by omega)
          refine ⟨data', last', text ++ text', hlt, ?_⟩
          rw [← print_print]
          exact hrun

end Buffer

/-! ## One file -/

/-- A text file whose lines fit the buffer. -/
structure TextFile (bytes : List Byte) : Prop where
  noNul : 0 ∉ bytes
  lines : ∀ line, line <:+: bytes → 10 ∉ line → line.length < BUFSIZE

section File

variable {fs : FileSys} {s fname p : List Byte} {v : View} {fd : Int} {i : Nat}

/-- The buffer behind the bytes that stayed, after a read to their end. -/
theorem readAt_refilled {pos cnt : Nat} {nbytes : Int} {data : Nat → Byte}
    {tail : List Byte} (hcnt : delivered (fs.inodeSt i) pos nbytes = cnt)
    (hfront : readAt data 0 tail.length = tail) (buf : Nat → Byte) :
    readAt (fun j => if tail.length ≤ j then
        fillBuffer fs (fs.inodeSt i) pos nbytes buf (j - tail.length) else data j)
      0 (tail.length + cnt) =
      tail ++ ((fileBytes fs (fs.inodeSt i)).drop pos).take cnt := by
  have hbytes := delivered_bytes fs (fs.inodeSt i) pos nbytes buf
  rw [hcnt] at hbytes
  rw [readAt_append, Nat.zero_add]
  refine congrArg₂ _ ?_ ?_
  · refine (readAt_congr fun j _ hj => ?_).trans hfront
    exact if_neg (by omega)
  · rw [← hbytes, ← Nat.add_zero tail.length, ← readAt_shift]
    refine readAt_congr fun j _ _ => ?_
    rw [Nat.add_zero, if_pos (Nat.le_add_right ..), Nat.add_sub_cancel_left]

theorem runs_fileLoop (fname : List Byte) (hfs : WellFormed fs) (hs : cstr s = p) (hp : p ≠ [])
    (hterm : Terminal v) (hfd : OwnFd v fd)
    (hsize : (fs.inodeSt i).size ≤ MAX_FILE_SIZE)
    (hfile : TextFile (fileBytes fs (fs.inodeSt i))) {n pos : Nat} (data : Nat → Byte)
    (tail : List Byte) (hpos : pos ≤ (fs.inodeSt i).size)
    (hn : (fs.inodeSt i).size < pos + n) (hfront : readAt data 0 tail.length = tail)
    (hopen : 10 ∉ tail) (hguard : data BUFSIZE ≠ 10)
    (hrest : tail ++ (fileBytes fs (fs.inodeSt i)).drop pos <:+
      fileBytes fs (fs.inodeSt i)) :
    runs fs (fileLoop s fname p.length fd n data tail.length)
        (v.put fd (fileSlot i pos)) =
      some (some true, (v.put fd (fileSlot i (fs.inodeSt i).size)).print
        (grepText p (cstr fname) (tail ++ (fileBytes fs (fs.inodeSt i)).drop pos))) := by
  have hbuf : BUFSIZE = 1024 := rfl
  have hfd1 : fd ≠ 1 := by
    have hlo := hfd.lo
    omega
  induction n generalizing v pos data tail with
  | zero => omega
  | succ n ih =>
      have htail : tail.length < BUFSIZE :=
        hfile.lines tail ((List.prefix_append _ _).isInfix.trans hrest.isInfix) hopen
      have hread := call_readFile hfs hfd hsize hpos (fun j => data (tail.length + j))
        ((BUFSIZE - tail.length : Nat) : Int) (Int.natCast_nonneg _) (by omega)
      have hcount : delivered (fs.inodeSt i) pos ((BUFSIZE - tail.length : Nat) : Int) =
          min (BUFSIZE - tail.length) ((fs.inodeSt i).size - pos) := rfl
      generalize hcnt : delivered (fs.inodeSt i) pos
        ((BUFSIZE - tail.length : Nat) : Int) = cnt at hread hcount
      have htext := readAt_refilled hcnt hfront fun j => data (tail.length + j)
      generalize hdata : (fun j => if tail.length ≤ j then
        fillBuffer fs (fs.inodeSt i) pos ((BUFSIZE - tail.length : Nat) : Int)
          (fun j => data (tail.length + j)) (j - tail.length) else data j) = data₁
        at htext
      have hguard₁ : data₁ BUFSIZE ≠ 10 := by
        rw [← hdata]
        dsimp only
        rw [if_pos (Nat.le_of_lt htail), fillBuffer, if_neg (by omega),
          Nat.add_sub_cancel' (Nat.le_of_lt htail)]
        exact hguard
      have hsplit : ((fileBytes fs (fs.inodeSt i)).drop pos).take cnt ++
          (fileBytes fs (fs.inodeSt i)).drop (pos + cnt) =
          (fileBytes fs (fs.inodeSt i)).drop pos := by
        rw [← List.drop_drop, List.take_append_drop]
      have hend : cnt < BUFSIZE - tail.length →
          (fileBytes fs (fs.inodeSt i)).drop (pos + cnt) = [] := by
        intro hshort
        apply List.drop_of_length_le
        rw [fileBytes_eq, length_readAt]
        omega
      generalize ((fileBytes fs (fs.inodeSt i)).drop pos).take cnt = chunk at htext hsplit
      rw [← hsplit, ← List.append_assoc] at hrest ⊢
      have hpart : tail ++ chunk <:+: fileBytes fs (fs.inodeSt i) :=
        (List.prefix_append _ _).isInfix.trans hrest.isInfix
      have hlength : (tail ++ chunk).length = tail.length + cnt := by
        rw [← htext, length_readAt]
      have hlast₁ : tail.length + cnt ≤ BUFSIZE := by omega
      obtain ⟨data', done, tail', hsearched, hrun⟩ := runs_lineLoop fs fname cnt hs
        hp (hterm.put hfd1 (fileSlot i (pos + cnt))) (n := tail.length + cnt + 1) data₁ 0
        hlast₁ (by omega) htext (.inr rfl) (fun h => hfile.noNul (hpart.subset h)) hguard₁
        fun _ _ hlast => by
          by_contra hnl
          have hfits := hfile.lines _ hpart hnl
          omega
      unfold runs
      rw [fileLoop]
      unfold ece391Read
      rw [Prog.exec_make_bind hread, if_neg (by dsimp only; omega)]
      dsimp only
      rw [Int.toNat_natCast, hdata, Prog.exec_bind hrun]
      dsimp only
      by_cases hzero : cnt = 0
      · have hsize' : pos + cnt = (fs.inodeSt i).size := by omega
        have hdone := hsearched.split
        rw [hsearched.atEnd hzero, List.append_nil] at hdone
        rw [if_pos hzero, hend (by omega), List.append_nil, hdone, hsize']
        rfl
      · rw [hsearched.split, List.append_assoc] at hrest ⊢
        rw [if_neg hzero]
        have hnext := ih (hterm.print (grepText p (cstr fname) done))
          { hfd with target := hfd.target } data' tail' (by omega) (by omega) hsearched.front
          hsearched.unfinished hsearched.guard ((List.suffix_append _ _).trans hrest)
        refine hnext.trans ?_
        show some (some true, ((v.put fd _).print _).print _) = _
        rw [print_print]
        rcases hsearched.closed with hclosed | ⟨htail', hshort⟩
        · rw [grepText_append hp hclosed]
        · have hrest' := hend (by omega)
          rw [htail', hrest', List.append_nil, List.append_nil, grepText_nil hp,
            List.append_nil]

/-- Whatever the file is, it is read to its end. -/
theorem fileLoop_ends (s fname : List Byte) (hfs : WellFormed fs) (hterm : Terminal v)
    (hfd : OwnFd v fd) (hsize : (fs.inodeSt i).size ≤ MAX_FILE_SIZE) (sLen : Nat) {n last : Nat}
    (pos : Nat) (data : Nat → Byte) (hpos : pos ≤ (fs.inodeSt i).size)
    (hn : (fs.inodeSt i).size < pos + n) (hlast : last < BUFSIZE) :
    ∃ text, runs fs (fileLoop s fname sLen fd n data last) (v.put fd (fileSlot i pos)) =
      some (some true, (v.put fd (fileSlot i (fs.inodeSt i).size)).print text) := by
  have hbuf : BUFSIZE = 1024 := rfl
  have hfd1 : fd ≠ 1 := by
    have hlo := hfd.lo
    omega
  induction n generalizing v pos data last with
  | zero => omega
  | succ n ih =>
      have hread := call_readFile hfs hfd hsize hpos (fun j => data (last + j))
        ((BUFSIZE - last : Nat) : Int) (Int.natCast_nonneg _) (by omega)
      have hcount : delivered (fs.inodeSt i) pos ((BUFSIZE - last : Nat) : Int) =
          min (BUFSIZE - last) ((fs.inodeSt i).size - pos) := rfl
      generalize delivered (fs.inodeSt i) pos ((BUFSIZE - last : Nat) : Int) = cnt
        at hread hcount
      have hlast₁ : last + cnt ≤ BUFSIZE := by omega
      obtain ⟨data', last', text, hlt, hrun⟩ := lineLoop_ends fs s fname
        (hterm.put hfd1 (fileSlot i (pos + cnt))) sLen cnt (n := last + cnt + 1)
        (fun j => if last ≤ j then
          fillBuffer fs (fs.inodeSt i) pos ((BUFSIZE - last : Nat) : Int)
            (fun j => data (last + j)) (j - last) else data j)
        0 hlast₁ (by omega) (Nat.zero_le _)
      unfold runs
      rw [fileLoop]
      unfold ece391Read
      rw [Prog.exec_make_bind hread, if_neg (by dsimp only; omega)]
      dsimp only
      rw [Int.toNat_natCast, Prog.exec_bind hrun]
      dsimp only
      by_cases hzero : cnt = 0
      · have hsize' : pos + cnt = (fs.inodeSt i).size := by omega
        rw [if_pos hzero, hsize']
        exact ⟨text, rfl⟩
      · obtain ⟨text', hnext⟩ := ih (hterm.print text) { hfd with target := hfd.target }
          (pos + cnt) data' (by omega) (by omega) hlt
        refine ⟨text ++ text', ?_⟩
        rw [if_neg hzero, ← print_print]
        exact hnext

/-- The loop over the reads of the RTC searches one empty line. -/
theorem runs_fileLoop_rtc (hs : cstr s = p) (hp : p ≠ []) (hterm : Terminal v)
    (hfd : OwnFd v fd) {data : Nat → Byte} (hguard : data BUFSIZE ≠ 10) (n : Nat)
    {slot : FArray}
    (hslot : slot = { fotp := some .rtc, inode := i, filePos := 0, flags := OPEN }) :
    runs fs (fileLoop s fname p.length fd (n + 1) data 0) (v.put fd slot) =
      some (some true, v.put fd slot) := by
  have hfd1 : fd ≠ 1 := by
    have hlo := hfd.lo
    omega
  have hcount : 0 ≤ ((BUFSIZE - 0 : Nat) : Int) := Int.natCast_nonneg _
  have hread := call_readRtc fs hfd (i := i) (fun j => data (0 + j))
    hcount hslot
  obtain ⟨data', done, tail, hsearched, hrun⟩ := runs_lineLoop fs fname 0 hs hp
    (hterm.put hfd1 slot) (n := 1) (fun j => if 0 ≤ j then data (0 + (j - 0)) else data j)
    0 (Nat.zero_le BUFSIZE) Nat.zero_lt_one rfl (.inr rfl) List.not_mem_nil
    (by rw [if_pos (Nat.zero_le _), Nat.zero_add]; exact hguard)
    fun h => absurd rfl h
  have hdone : done = [] := (List.append_eq_nil_iff.1 hsearched.split.symm).1
  unfold runs
  rw [fileLoop]
  unfold ece391Read
  rw [Prog.exec_make_bind hread, if_neg (by dsimp only; omega)]
  dsimp only
  refine (Prog.exec_bind hrun).trans ?_
  rw [hdone, grepText_nil hp, print_nil]
  rfl

end File

theorem call_close {fs : FileSys} {v : View} {fd : Int} (hfd : OwnFd v fd)
    (hmounted : fs.bootB ≠ none) {slot : FArray} (hflags : slot.flags ≠ FREE)
    (hops : slot.fotp ≠ none) :
    (v.put fd slot).call fs (.close fd) = some (v.put fd clearedSlot, ⟨0, fun _ => 0⟩) := by
  have htarget : targetFd (v.put fd slot).name fd = fd := hfd.target
  simp only [View.call, htarget, put_slots]
  rw [if_pos ⟨hfd.lo, hfd.hi, hflags, hops, hmounted⟩, put_put]

/-- What `do_one_file` prints for a directory entry: nothing for the RTC, and the
lines with `p` for a text file. -/
structure FileText (fs : FileSys) (p name : List Byte) (d : Dentry) (text : List Byte) :
    Prop where
  rtc : d.type = 0 → text = []
  file : d.type = 2 → TextFile (fileBytes fs (fs.inodeSt d.indexNode)) →
    text = grepText p name (fileBytes fs (fs.inodeSt d.indexNode))

theorem runs_doOneFile {fs : FileSys} (hfs : WellFormed fs) {s fname p name : List Byte}
    {v : View} {fd : Int} (hs : cstr s = p) (hp : p ≠ []) (hterm : Terminal v)
    (hnul : 0 ∈ fname) (hname : cstr fname = name) (hne : name ≠ []) {d : Dentry}
    (hfound : readDentryByName fs ⟨0, name⟩ = some d) (hfree : v.free = some fd)
    (hfd : OwnFd v fd) (hgood : d.type = 0 ∨ d.type = 2) {rounds : Nat}
    (hrounds : MAX_FILE_SIZE < rounds) {data : Nat → Byte} (hguard : data BUFSIZE ≠ 10) :
    ∃ text, FileText fs p name d text ∧
      runs fs (doOneFile s fname rounds data) v =
        some (some 0, (v.put fd clearedSlot).print text) := by
  have hlo := hfd.lo
  have hopen := call_open_found hnul hname hne hfound hfree
  rw [if_pos (by omega)] at hopen
  have hlen : ece391Strlen s = p.length := by rw [ece391Strlen, strlen_eq, hs]
  have hloop : ∃ slot text, slot.flags ≠ FREE ∧ slot.fotp ≠ none ∧
      FileText fs p name d text ∧
      runs fs (fileLoop s fname p.length fd rounds data 0) (v.put fd (openedSlot d)) =
        some (some true, (v.put fd slot).print text) := by
    rcases hgood with hrtc | hfile
    · obtain ⟨n, rfl⟩ := Nat.exists_eq_succ_of_ne_zero (n := rounds) (by omega)
      refine ⟨openedSlot d, [], Nat.one_ne_zero, Option.some_ne_none _,
        { rtc := fun _ => rfl, file := by omega }, ?_⟩
      rw [print_nil]
      refine runs_fileLoop_rtc hs hp hterm hfd (i := d.indexNode) hguard n ?_
      unfold openedSlot
      rw [hrtc]
      rfl
    · have hsize := hfs.size_le hfound hfile
      have hslot : openedSlot d = fileSlot d.indexNode 0 := by
        unfold openedSlot
        rw [hfile]
        rfl
      have hempty : 0 < BUFSIZE := by decide
      obtain ⟨text, hends⟩ := fileLoop_ends s fname hfs hterm hfd hsize p.length
        (n := rounds) 0 data (Nat.zero_le _) (by omega) hempty
      refine ⟨fileSlot d.indexNode (fs.inodeSt d.indexNode).size, text,
        Nat.one_ne_zero, Option.some_ne_none _,
        { rtc := by omega, file := fun _ htext => ?_ }, hslot ▸ hends⟩
      have hrun := runs_fileLoop fname hfs hs hp hterm hfd hsize htext (n := rounds) data []
        (Nat.zero_le _) (by omega) rfl List.not_mem_nil hguard
        (List.suffix_refl _)
      have hsame := congrArg View.wrote
        (Prod.mk.inj (Option.some.inj (hends.symm.trans hrun))).2
      rw [hname] at hsame
      exact List.append_cancel_left hsame
  obtain ⟨slot, text, hflags, hops, htext, hrun⟩ := hloop
  have hclose := call_close (v := v.print text) { hfd with target := hfd.target }
    hfs.mounted hflags hops
  refine ⟨text, htext, ?_⟩
  unfold runs doOneFile ece391Open ece391Close
  dsimp only
  rw [Prog.exec_make_bind hopen, if_neg (by dsimp only; omega), hlen,
    Prog.exec_bind hrun]
  dsimp only
  refine (Prog.exec_make_bind hclose).trans ?_
  rfl

/-! ## The directory -/

/-- The name that `grep` reads from an entry. -/
def listedName (d : Dentry) : List Byte := cstr (entryField d)

/-- What `grep` may print for an entry: nothing if its name begins with a dot, and
otherwise what it prints for the file that the name leads to. -/
structure EntryText (fs : FileSys) (p : List Byte) (d : Dentry) (text : List Byte) :
    Prop where
  hidden : (listedName d).head? = some 46 → text = []
  shown : (listedName d).head? ≠ some 46 → ∀ f,
    readDentryByName fs ⟨0, listedName d⟩ = some f → FileText fs p (listedName d) f text

/-- An entry that `grep` passes over, or whose name leads to a file or to the
RTC. -/
def Searchable (fs : FileSys) (d : Dentry) : Prop :=
  (listedName d).head? = some 46 ∨
    ∃ f, readDentryByName fs ⟨0, listedName d⟩ = some f ∧ (f.type = 0 ∨ f.type = 2)

theorem cstr_append_nul (bytes : List Byte) : cstr (bytes ++ [0]) = cstr bytes := by
  by_cases h : 0 ∈ bytes
  · exact cstr_append_of_mem h [0]
  · rw [cstr_append_zero h, cstr_of_zero_notMem h]

/-- An entry that a listing shows has a name. -/
theorem listedName_head {d : Dentry} (hnamed : Named d) {b : Nat → Byte}
    (hfield : arrayBytes 32 b = entryField d) : (listedName d).head? = some (b 0) := by
  have hfirst : d.raw.getD 0 0 = b 0 := by
    have hhead := congrArg (·.headD 0) hfield
    exact hhead.symm
  have hne : b 0 ≠ 0 := by
    intro hzero
    apply hnamed
    rw [hzero] at hfirst
    cases hraw : d.raw with
    | nil => rfl
    | cons c cs =>
        rw [hraw] at hfirst
        have hc : c = 0 := hfirst
        rw [hc, strlen, if_pos rfl]
  have hcons : entryField d = b 0 :: (entryField d).tail := by
    rw [← hfield]
    rfl
  rw [listedName, hcons, cstr_cons, if_neg hne, List.head?_cons]

/-- Descriptors 2 and 3 are used under their own numbers by every program. -/
theorem ownFd_three (v : View) : OwnFd v 3 :=
  { lo := by decide
    hi := by decide
    target := by
      unfold targetFd
      split <;> rfl }

theorem put_comm (v : View) {i j : Int} (h : i ≠ j) (a b : FArray) :
    (v.put i a).put j b = (v.put j b).put i a := by
  unfold View.put
  rw [Function.update_comm h]

/-- With descriptor 2 in use the next one is 3. -/
theorem free_three {v : View} (h : (v.slots 3).flags = FREE) (slot : FArray)
    (hslot : slot.flags ≠ FREE) : (v.put 2 slot).free = some 3 := by
  have htwo : ((v.put 2 slot).slots 2).flags ≠ FREE := by rwa [put_slots]
  have hthree : ((v.put 2 slot).slots 3).flags = FREE := by
    have hne : (3 : Int) ≠ 2 := by decide
    have hother : (v.put 2 slot).slots 3 = v.slots 3 :=
      Function.update_of_ne hne slot v.slots
    rwa [hother]
  unfold View.free
  rw [List.find?_cons_of_neg (by simpa using htwo),
    List.find?_cons_of_pos (by simpa using hthree)]

theorem runs_grepLoop {fs : FileSys} (hfs : WellFormed fs) {boot : BootBlock}
    (hboot : fs.bootB = some boot) {s p : List Byte} (hs : cstr s = p) (hp : p ≠ [])
    {rounds : Nat} (hrounds : MAX_FILE_SIZE < rounds) {datas : Nat → Nat → Byte}
    (hguard : ∀ n, datas n BUFSIZE ≠ 10) {v : View} (hterm : Terminal v)
    (hfd : OwnFd v 2) (hfree : (v.slots 3).flags = FREE) (i : Nat) {n m : Nat}
    (pos : Nat) (hpos : pos + m = MAX_FILES) (hn : m < n)
    (hgood : ∀ d ∈ listed boot pos m, Searchable fs d) (buf : Nat → Byte) :
    ∃ v' texts, List.Forall₂ (EntryText fs p) (listed boot pos m) texts ∧
      runs fs (grepLoop s 2 rounds datas n buf) (v.put 2 (dirSlot i pos)) =
        some (some (endOf boot pos m (str "directory entry read failed\n")).2, v') ∧
      v'.wrote = v.wrote ++ (texts.flatten ++
        (endOf boot pos m (str "directory entry read failed\n")).1) := by
  have hmax : MAX_FILES = 63 := rfl
  have hlo : (32 : Int) ≤ SBUFSIZE - 1 := by decide
  have hliteral : cstr (literal "directory entry read failed\n") =
      str "directory entry read failed\n" := by decide
  induction n generalizing v m pos buf with
  | zero => omega
  | succ n ih =>
      unfold runs at ih ⊢
      rw [grepLoop]
      unfold ece391Read
      cases m with
      | zero =>
          have hbehind : MAX_FILES ≤ pos := by omega
          have hread := call_readBehind (v := v) hboot hfd hlo hbehind i buf
          rw [Prog.exec_make_bind hread, if_neg (by dsimp only; omega), if_pos rfl,
            Prog.exec_bind (runs_fdputs (hterm.put (by decide) _) _), hliteral]
          exact ⟨_, [], .nil, rfl, rfl⟩
      | succ m =>
          by_cases hnamed : Named (boot.dirEntries pos)
          · obtain ⟨b, hread, hfield⟩ := call_readEntry hboot hfd hlo (by decide)
              (by decide) (by omega) hnamed i buf
            have hhead := listedName_head hnamed hfield
            have hlisted := listed_succ boot pos m
            rw [if_pos hnamed] at hlisted
            rw [hlisted] at hgood
            have hrest := fun d hd => hgood d (List.mem_cons_of_mem _ hd)
            rw [Prog.exec_make_bind hread, if_neg (by dsimp only; omega),
              if_neg (by dsimp only; omega), hlisted, endOf_succ _ _ hnamed]
            dsimp only
            by_cases hdot : b 0 = 46
            · obtain ⟨v', texts, htexts, hrun, hwrote⟩ :=
                ih hterm hfd hfree (pos + 1) (by omega) (by omega) hrest b
              rw [hdot] at hhead
              refine ⟨v', [] :: texts,
                .cons { hidden := fun _ => rfl, shown := fun h => absurd hhead h } htexts,
                ?_, ?_⟩
              · rw [if_pos hdot, hrun]
              · rw [hwrote, List.flatten_cons, List.nil_append]
            · have hother : ¬ (listedName (boot.dirEntries pos)).head? = some 46 := by
                rw [hhead]
                exact fun h => hdot (Option.some.inj h)
              obtain ⟨f, hfound, hfile⟩ :=
                (hgood _ (List.mem_cons_self ..)).resolve_left hother
              have hname : cstr (arrayBytes SBUFSIZE (Function.update b 32 0)) =
                  listedName (boot.dirEntries pos) := by
                rw [arrayBytes_terminated, hfield, cstr_append_nul, listedName]
              have hnul : 0 ∈ arrayBytes SBUFSIZE (Function.update b 32 0) := by
                rw [arrayBytes_terminated]
                exact List.mem_append_right _ (List.mem_cons_self ..)
              have hne : listedName (boot.dirEntries pos) ≠ [] := by
                intro hnil
                rw [hnil] at hhead
                cases hhead
              have hfree3 := free_three hfree (dirSlot i (pos + 1)) Nat.one_ne_zero
              obtain ⟨text, htext, hone⟩ := runs_doOneFile hfs hs hp
                (hterm.put (by decide) (dirSlot i (pos + 1))) hnul hname hne hfound hfree3
                (ownFd_three _) hfile hrounds (hguard n)
              obtain ⟨v', texts, htexts, hrun, hwrote⟩ := ih
                (v := (v.put 3 clearedSlot).print text)
                ((hterm.put (by decide) _).print _) { hfd with target := hfd.target }
                (congrArg FArray.flags (put_slots v 3 clearedSlot)) (pos + 1) (by omega)
                (by omega)
                hrest (Function.update b 32 0)
              have hentry : EntryText fs p (boot.dirEntries pos) text :=
                { hidden := fun h => absurd h hother
                  shown := fun _ g hg => by
                    rw [hfound] at hg
                    exact Option.some.inj hg ▸ htext }
              refine ⟨v', text :: texts, .cons hentry htexts, ?_, ?_⟩
              · rw [if_neg hdot]
                refine (Prog.exec_bind hone).trans ?_
                rw [if_neg (Option.some_ne_none _), if_neg (not_not.2 rfl),
                  put_comm v (by decide)]
                exact hrun
              · rw [hwrote, List.flatten_cons, List.append_assoc text]
                exact List.append_assoc ..
          · have hread := call_readUnnamed hboot hfd hlo (by omega) hnamed i buf
            refine ⟨v.put 2 (dirSlot i pos), [], ?_, ?_, ?_⟩
            · rw [listed_succ, if_neg hnamed]
              exact .nil
            · rw [Prog.exec_make_bind hread, if_pos rfl]
              simp [endOf, listed_succ, hnamed]
            · simp [endOf, listed_succ, hnamed, View.put]

theorem runs_grep {fs : FileSys} (hfs : WellFormed fs) {boot : BootBlock}
    (hboot : fs.bootB = some boot) {d : Dentry}
    (hdot : readDentryByName fs ⟨0, str "."⟩ = some d) (hdir : d.type = 1)
    (hgood : ∀ d ∈ listed boot 0 MAX_FILES, Searchable fs d) {v : View}
    (hterm : Terminal v) (hfree : v.free = some 2) (hfd : OwnFd v 2)
    (hfree3 : (v.slots 3).flags = FREE) (htext : HasText v.args) (hnul : 0 ∉ v.args)
    (hshort : v.args.length ≤ 127) {rounds entries : Nat}
    (hrounds : MAX_FILE_SIZE < rounds) (hentries : MAX_FILES < entries)
    {datas : Nat → Nat → Byte} (hguard : ∀ n, datas n BUFSIZE ≠ 10)
    (search buf : Nat → Byte) :
    ∃ v' texts, List.Forall₂ (EntryText fs v.args) (listed boot 0 MAX_FILES) texts ∧
      runs fs (grep rounds entries datas search buf) v =
        some (some (endOf boot 0 MAX_FILES (str "directory entry read failed\n")).2,
          v') ∧
      v'.wrote = v.wrote ++ (texts.flatten ++
        (endOf boot 0 MAX_FILES (str "directory entry read failed\n")).1) := by
  have hne : v.args ≠ [] := by
    obtain ⟨b, hb, -⟩ := htext
    exact List.ne_nil_of_mem hb
  have hargs : v.call fs (.getargs search BUFSIZE) =
      some (v, ⟨0, fun j => if j < 1024 then v.args.getD j 0 else search j⟩) := by
    simp only [View.call]
    exact if_pos ⟨htext, by unfold BUFSIZE; omega, by decide⟩
  obtain ⟨-, hname⟩ := getargs_string hnul hshort (n := 1024) (by decide) search
  have hopen := call_open_found literal_dot.1 literal_dot.2 (by decide) hdot hfree
  have htype : d.type ≤ 2 := by omega
  have hslot : openedSlot d = dirSlot d.indexNode 0 := by
    unfold openedSlot
    rw [hdir]
    rfl
  rw [if_pos htype, hslot] at hopen
  obtain ⟨v', texts, htexts, hrun, hwrote⟩ := runs_grepLoop hfs hboot
    hname hne hrounds hguard hterm hfd hfree3 d.indexNode (n := entries) (m := MAX_FILES) 0
    (Nat.zero_add _) hentries hgood buf
  refine ⟨v', texts, htexts, ?_, hwrote⟩
  unfold runs grep ece391Getargs ece391Open
  rw [Prog.exec_make_bind hargs, if_neg (not_not.2 rfl), Prog.exec_make_bind hopen,
    if_neg (by dsimp only; omega)]
  exact hrun

/-- The command `grep a` goes through the directory in order and prints, for every
entry whose name does not begin with a dot and leads to a text file, the lines of
the file that contain `a`, each behind the name, if `a` begins with a byte below 128,
and nothing otherwise; it ends whatever the other files hold, and whatever other
processes and interrupts do meanwhile. -/
theorem grep_command_prints {fs : FileSys} (hfs : WellFormed fs) {boot : BootBlock}
    (hboot : fs.bootB = some boot) {d : Dentry}
    (hdot : readDentryByName fs ⟨0, str "."⟩ = some d) (hdir : d.type = 1)
    (hgood : ∀ d ∈ listed boot 0 MAX_FILES, Searchable fs d) {spaces a : List Byte}
    (hparsed : Parsed (str "grep") spaces a) (htext : HasText a) {stk : CStr}
    {k : Kernel σ} {before : Byte} {esp ebp : σ} {pid : Int} {entAdd : Nat}
    (henter : (execute fs stk k (some ⟨before, str "grep" ++ spaces ++ a⟩) esp ebp).2 =
      .enter pid entAdd) (around : Around) {rounds entries : Nat}
    (hrounds : MAX_FILE_SIZE < rounds) (hentries : MAX_FILES < entries)
    {datas : Nat → Nat → Byte} (hguard : ∀ n, datas n BUFSIZE ≠ 10)
    (search buf : Nat → Byte) :
    Prog.Ensures Undisturbed (perform fs around) (grep rounds entries datas search buf)
      { kernel := finishExecute
          (execute fs stk k (some ⟨before, str "grep" ++ spaces ++ a⟩) esp ebp)
        wrote := [] }
      fun status t => ∃ texts,
        List.Forall₂ (EntryText fs a) (listed boot 0 MAX_FILES) texts ∧
        status = some (if (listed boot 0 MAX_FILES).length = MAX_FILES then 3 else 0) ∧
        t.wrote = texts.flatten ++
          if (listed boot 0 MAX_FILES).length = MAX_FILES then
            str "directory entry read failed\n"
          else [] := by
  refine command_ensures (P := fun status out => ∃ texts,
    List.Forall₂ (EntryText fs a) (listed boot 0 MAX_FILES) texts ∧
    status = some (if (listed boot 0 MAX_FILES).length = MAX_FILES then 3 else 0) ∧
    out = texts.flatten ++
      if (listed boot 0 MAX_FILES).length = MAX_FILES then
        str "directory entry read failed\n"
      else []) hparsed (by decide) henter around fun k' h => ?_
  have hstart : Launched (User.mk k' []).kernel (str "grep") a := h
  obtain ⟨v, texts, htexts, hrun, hwrote⟩ := runs_grep hfs hboot hdot hdir hgood
    hstart.stdout hstart.first hstart.ownFd (h.free 3 (by decide) (by decide)) htext
    h.args.noNul h.args.short hrounds hentries hguard search buf
  refine ⟨_, v, hrun, texts, htexts, ?_⟩
  rw [hwrote]
  unfold endOf
  split <;> exact ⟨rfl, rfl⟩

theorem mem_listed {boot : BootBlock} {pos n : Nat} {d : Dentry}
    (h : d ∈ listed boot pos n) :
    ∃ i, pos ≤ i ∧ i < pos + n ∧ boot.dirEntries i = d ∧ Named d := by
  have hmem := (List.takeWhile_prefix _).subset h
  obtain ⟨i, hi, rfl⟩ := List.mem_map.1 hmem
  obtain ⟨hlo, hhi⟩ := List.mem_range'_1.1 hi
  exact ⟨i, hlo, hhi, rfl, by simpa using List.mem_takeWhile_imp h⟩

/-- The command `grep c` on the directory with the note. -/
theorem grep_c_prints :
    Prog.Ensures Undisturbed (perform toolsImage bareAround)
      (grep 4190209 64 (fun _ _ => 0) (fun _ => 0) fun _ => 0)
      { kernel := finishExecute (execute toolsImage ⟨0, []⟩ (SampleImage.idleKernel 0)
          (some ⟨0, str "grep" ++ [32] ++ [99]⟩) 0 0)
        wrote := [] }
      fun status t => ∃ texts,
        List.Forall₂ (EntryText toolsImage [99]) (listed toolsBoot 0 MAX_FILES) texts ∧
        status = some
          (if (listed toolsBoot 0 MAX_FILES).length = MAX_FILES then 3 else 0) ∧
        t.wrote = texts.flatten ++
          if (listed toolsBoot 0 MAX_FILES).length = MAX_FILES then
            str "directory entry read failed\n"
          else [] := by
  have hgrep : str "grep" = [103, 114, 101, 112] := by decide
  have hdot : str "." = [46] := by decide
  have hparsed : Parsed (str "grep") [32] [99] :=
    { noNul := by decide, nonempty := by decide, word := by decide, gap := by simp
      start := by decide, longest := by decide, fits := by decide }
  have henter : (execute toolsImage ⟨0, []⟩ (SampleImage.idleKernel 0)
      (some ⟨0, str "grep" ++ [32] ++ [99]⟩) 0 0).2 = .enter 1 0x8048000 := by
    rw [hgrep]
    rfl
  have hfound : readDentryByName toolsImage ⟨0, str "."⟩ = some (namedEntry [46] 1 0) := by
    rw [hdot]
    rfl
  have hgood : ∀ d ∈ listed toolsBoot 0 MAX_FILES, Searchable toolsImage d := by
    intro d hd
    obtain ⟨i, -, -, rfl, hnamed⟩ := mem_listed hd
    match i with
    | 0 => exact .inl (by decide)
    | 1 => exact .inr ⟨namedEntry [99, 97, 116] 2 0, rfl, .inr rfl⟩
    | 2 => exact .inr ⟨namedEntry [108, 115] 2 0, rfl, .inr rfl⟩
    | 3 => exact .inr ⟨namedEntry [103, 114, 101, 112] 2 0, rfl, .inr rfl⟩
    | 4 => exact .inr ⟨namedEntry [110, 111, 116, 101] 2 1, rfl, .inr rfl⟩
    | n + 5 =>
        have hblank : strlen blankEntry.raw = 0 := by decide
        exact absurd hblank hnamed
  exact grep_command_prints wellFormed_toolsImage rfl hfound rfl hgood hparsed (by decide)
    henter bareAround (by decide) (by decide) (fun _ => by decide) (fun _ => 0)
    fun _ => 0

example : grepText [99] [110, 111, 116, 101] [97, 98, 10, 97, 99, 100, 10] =
    str "note:acd\n" := by decide

end MongOS.Proofs.GrepLines
