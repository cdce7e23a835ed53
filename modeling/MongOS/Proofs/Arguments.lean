import MongOS.Proofs.FnameReads

/-!
# Handing over the arguments

`getargs` copies the argument string of the running process to its caller.  It
compares the length of the string with the size of the buffer without the NUL
and as unsigned numbers, the loop that looks for a character other than a
newline has no lower bound, and `strncpy` fills the whole size.
`getargs_hands_over_iff` says for which strings and sizes it hands over the
complete string or nothing, and reads only the array.
-/

namespace MongOS.Proofs.Arguments

open MongOS.Model
open MongOS.Proofs.CStrings
open MongOS.Proofs.FnameReads
open MongOS.Proofs.SampleImage

variable {σ : Type}

/-! ## The reads of `getargs` -/

/-- The loop over newlines reads downwards from index `i`. -/
def trimReads : List Byte → Int → List Int
  | [], i => [i]
  | b :: bs, i => i :: if b = 10 ∨ b = 0 then trimReads bs (i - 1) else []

/-- `strncpy` reads its source up to the NUL, and up to its bound. -/
def strncpyReads : List Byte → Nat → Int → List Int
  | [], _, i => [i]
  | b :: bs, n, i =>
      i :: if b ≠ 0 ∧ 0 < n then strncpyReads bs (n - 1) (i + 1) else []

/-- The offsets in `tmpargs` that `getargs` reads. -/
def getargsReads (k : Kernel σ) (below above : List Byte) (room : Nat)
    (nbytes : Int) : List Int :=
  let tmpargs := arrayBytes MAX_ARG_LENGTH k.curPcb.args ++ above
  let tmplen := strlen tmpargs
  let n := (nbytes % 2 ^ 32).toNat
  let bytes := (tmpargs.take tmplen).reverse ++ below
  strlenReads tmpargs 0 ++
    if tmplen > n then []
    else
      trimReads bytes (tmplen - 1) ++
        match trimIndex bytes (tmplen - 1) with
        | none => []
        | some i => if i = -1 then [] else strncpyReads tmpargs (min n room) 0

theorem strncpyReads_range {src : List Byte} {n : Nat} {i x : Int}
    (h : x ∈ strncpyReads src n i) : i ≤ x ∧ x ≤ i + strlen src := by
  induction src generalizing n i with
  | nil =>
      rw [strncpyReads, List.mem_singleton] at h
      omega
  | cons b bs ih =>
      rw [strncpyReads, List.mem_cons] at h
      rw [strlen]
      rcases h with rfl | hrest
      · omega
      · split at hrest
        · rename_i hmore
          have hrange := ih hrest
          rw [if_neg hmore.1]
          omega
        · cases hrest

/-- In a list with another character the loop over newlines stops there. -/
theorem trimIndex_text {bytes : List Byte} (below : List Byte) {i : Int}
    (h : ∃ b ∈ bytes, b ≠ 10 ∧ b ≠ 0) :
    (∃ j, trimIndex (bytes ++ below) i = some j ∧ i - bytes.length < j) ∧
      ∀ x ∈ trimReads (bytes ++ below) i, i - bytes.length < x ∧ x ≤ i := by
  induction bytes generalizing i with
  | nil =>
      obtain ⟨b, hb, -⟩ := h
      cases hb
  | cons c cs ih =>
      rw [List.cons_append, trimIndex, trimReads, List.length_cons]
      by_cases hc : c = 10 ∨ c = 0
      · have hrest : ∃ b ∈ cs, b ≠ 10 ∧ b ≠ 0 := by
          obtain ⟨b, hb, hne⟩ := h
          rcases List.mem_cons.1 hb with rfl | hmem
          · exact absurd hc (not_or.2 hne)
          · exact ⟨b, hmem, hne⟩
        obtain ⟨⟨j, hj, hlow⟩, hreads⟩ := ih (i := i - 1) hrest
        rw [if_pos hc, if_pos hc]
        refine ⟨⟨j, hj, by omega⟩, fun x hx => ?_⟩
        rcases List.mem_cons.1 hx with rfl | hmem
        · omega
        · have hrange := hreads x hmem
          omega
      · rw [if_neg hc, if_neg hc]
        refine ⟨⟨i, rfl, by omega⟩, fun x hx => ?_⟩
        rw [List.mem_singleton.1 hx]
        omega

/-- Behind newlines only, the loop reads on below. -/
theorem below_read {bytes : List Byte} (below : List Byte) {i : Int}
    (h : ∀ b ∈ bytes, b = 10) :
    i - bytes.length ∈ trimReads (bytes ++ below) i := by
  induction bytes generalizing i with
  | nil =>
      cases below <;> simp [trimReads]
  | cons c cs ih =>
      have hc : c = 10 := h c (List.mem_cons_self ..)
      have hrest := ih (i := i - 1) fun b hb => h b (List.mem_cons_of_mem _ hb)
      have hindex : i - (c :: cs).length = i - 1 - cs.length := by
        rw [List.length_cons]
        omega
      rw [List.cons_append, trimReads, if_pos (.inl hc), hindex]
      exact List.mem_cons_of_mem _ hrest

/-! ## A stored argument string -/

/-- The arguments of the running process are the string `a` with zeros behind
it, as `handle_command` leaves it. -/
structure Stored (k : Kernel σ) (a : List Byte) : Prop where
  args : ∀ j, k.curPcb.args j = a.getD j 0
  noNul : 0 ∉ a
  short : a.length ≤ 127

/-- The string has a character other than a newline. -/
def HasText (a : List Byte) : Prop := ∃ b ∈ a, b ≠ 10

instance decidable_hasText (a : List Byte) : Decidable (HasText a) :=
  inferInstanceAs (Decidable (∃ b ∈ a, b ≠ 10))

/-- `getargs` hands over the string with its NUL if it has text and fits, and
otherwise nothing; and it reads nothing outside the array. -/
structure HandsOver (k : Kernel σ) (below above : List Byte) (room : Nat)
    (a : List Byte) (nbytes : Int) : Prop where
  succeeds : HasText a → (a.length + 1 : Int) ≤ nbytes → ∀ buf, ∃ buf',
    getargs k below above room (some buf) nbytes = .ret 0 buf' ∧
      (∀ j < a.length, buf' j = a.getD j 0) ∧ buf' a.length = 0 ∧
      ∀ j : Nat, nbytes ≤ j → buf' j = buf j
  refuses : ¬ (HasText a ∧ (a.length + 1 : Int) ≤ nbytes) → ∀ buf,
    getargs k below above room (some buf) nbytes = .ret (-1) buf
  reads : ∀ x ∈ getargsReads k below above room nbytes, 0 ≤ x ∧ x < MAX_ARG_LENGTH

section Stored

variable {k : Kernel σ} {a : List Byte}

/-- The array that `strlen` and `strncpy` see. -/
theorem Stored.array (h : Stored k a) (above : List Byte) :
    cstr (arrayBytes MAX_ARG_LENGTH k.curPcb.args ++ above) = a := by
  have hshort := h.short
  have hargs : k.curPcb.args = fun j => a.getD j 0 := funext h.args
  obtain ⟨m, hm⟩ := Nat.exists_eq_succ_of_ne_zero
    (n := MAX_ARG_LENGTH - a.length) (by unfold MAX_ARG_LENGTH; omega)
  rw [hargs, arrayBytes_getD (by unfold MAX_ARG_LENGTH; omega), hm,
    List.replicate_succ, List.append_assoc, List.cons_append,
    cstr_append_zero h.noNul]

/-- A string that is longer than the buffer is refused. -/
theorem Stored.getargs_long (h : Stored k a) (below above : List Byte) (room : Nat)
    (buf : Nat → Byte) {nbytes : Int}
    (hlong : a.length > (nbytes % 2 ^ 32).toNat) :
    getargs k below above room (some buf) nbytes = .ret (-1) buf := by
  unfold getargs
  dsimp only
  rw [strlen_eq, h.array, if_pos hlong]

/-- Otherwise the loop over newlines decides. -/
theorem Stored.getargs_trimmed (h : Stored k a) (below above : List Byte) (room : Nat)
    (buf : Nat → Byte) {nbytes : Int}
    (hfits : a.length ≤ (nbytes % 2 ^ 32).toNat) {i : Int}
    (htrim : trimIndex (a.reverse ++ below) (a.length - 1) = some i) :
    getargs k below above room (some buf) nbytes =
      if i = -1 then .ret (-1) buf
      else if (nbytes % 2 ^ 32).toNat > room then .faults
      else .ret 0 fun j =>
        if j < (nbytes % 2 ^ 32).toNat then a.getD j 0 else buf j := by
  unfold getargs
  dsimp only
  rw [cstr_eq_take, strlen_eq, h.array, strncpy_eq, h.array,
    if_neg (Nat.not_lt.2 hfits), htrim]

/-- The reads of `getargs` with a stored string. -/
theorem Stored.reads_eq (h : Stored k a) (below above : List Byte) (room : Nat)
    (nbytes : Int) :
    getargsReads k below above room nbytes =
      strlenReads (arrayBytes MAX_ARG_LENGTH k.curPcb.args ++ above) 0 ++
        if a.length > (nbytes % 2 ^ 32).toNat then []
        else
          trimReads (a.reverse ++ below) (a.length - 1) ++
            match trimIndex (a.reverse ++ below) (a.length - 1) with
            | none => []
            | some i =>
                if i = -1 then []
                else strncpyReads
                  (arrayBytes MAX_ARG_LENGTH k.curPcb.args ++ above)
                  (min (nbytes % 2 ^ 32).toNat room) 0 := by
  unfold getargsReads
  dsimp only
  rw [cstr_eq_take, strlen_eq, h.array]

/-- The loop over newlines meets the text from behind. -/
theorem Stored.text_reverse (h : Stored k a) (htext : HasText a) :
    ∃ b ∈ a.reverse, b ≠ 10 ∧ b ≠ 0 := by
  obtain ⟨b, hb, hne⟩ := htext
  refine ⟨b, List.mem_reverse.2 hb, hne, ?_⟩
  rintro rfl
  exact h.noNul hb

/-- A string with text that fits: it is handed over, if the buffer is mapped as
far as its size says. -/
theorem Stored.handed (h : Stored k a) (below above : List Byte) (room : Nat)
    (htext : HasText a) {nbytes : Int}
    (hfits : a.length ≤ (nbytes % 2 ^ 32).toNat) (buf : Nat → Byte) :
    getargs k below above room (some buf) nbytes =
      if (nbytes % 2 ^ 32).toNat > room then .faults
      else .ret 0 fun j =>
        if j < (nbytes % 2 ^ 32).toNat then a.getD j 0 else buf j := by
  obtain ⟨⟨j, hj, hlow⟩, -⟩ :=
    trimIndex_text below (i := a.length - 1) (h.text_reverse htext)
  rw [List.length_reverse] at hlow
  rw [h.getargs_trimmed below above room buf hfits hj, if_neg (by omega)]

/-- Then it never returns `-1`. -/
theorem Stored.not_refused (h : Stored k a) (below above : List Byte) (room : Nat)
    (htext : HasText a) {nbytes : Int}
    (hfits : a.length ≤ (nbytes % 2 ^ 32).toNat) (buf buf' : Nat → Byte) :
    getargs k below above room (some buf) nbytes ≠ .ret (-1) buf' := by
  rw [h.handed below above room htext hfits buf]
  split
  · exact CallResult.noConfusion
  · intro heq
    cases heq

/-- Its reads lie in the array. -/
theorem Stored.reads_within (h : Stored k a) (below above : List Byte) (room : Nat)
    {nbytes : Int}
    (hok : (nbytes % 2 ^ 32).toNat < a.length ∨ HasText a) :
    ∀ x ∈ getargsReads k below above room nbytes, 0 ≤ x ∧ x < MAX_ARG_LENGTH := by
  have hshort := h.short
  have hmax : (MAX_ARG_LENGTH : Int) = 128 := rfl
  have hlength : strlen (arrayBytes MAX_ARG_LENGTH k.curPcb.args ++ above) =
      a.length := by
    rw [strlen_eq, h.array]
  intro x hx
  rw [h.reads_eq, List.mem_append] at hx
  rcases hx with hstrlen | hrest
  · have hrange := mem_strlenReads.1 hstrlen
    omega
  · split at hrest
    · cases hrest
    · rename_i hfits
      have htext := hok.resolve_left (by omega)
      have htrim := (trimIndex_text below (i := a.length - 1)
        (h.text_reverse htext)).2
      rw [List.length_reverse] at htrim
      rcases List.mem_append.1 hrest with hloop | hcopy
      · have hrange := htrim x hloop
        omega
      · split at hcopy
        · cases hcopy
        · split at hcopy
          · cases hcopy
          · have hrange := strncpyReads_range hcopy
            omega

/-- A string of newlines makes the loop leave the array. -/
theorem Stored.leaves (h : Stored k a) (below above : List Byte) (room : Nat)
    (hblank : ¬ HasText a) {nbytes : Int}
    (hfits : a.length ≤ (nbytes % 2 ^ 32).toNat) :
    -1 ∈ getargsReads k below above room nbytes := by
  have hbytes : ∀ b ∈ a.reverse, b = 10 := by
    intro b hb
    by_contra hne
    exact hblank ⟨b, List.mem_reverse.1 hb, hne⟩
  have hread := below_read below (i := a.length - 1) hbytes
  rw [List.length_reverse] at hread
  have hindex : (a.length : Int) - 1 - a.length = -1 := by omega
  rw [hindex] at hread
  rw [h.reads_eq, if_neg (Nat.not_lt.2 hfits)]
  simp [hread]

end Stored

/-- `getargs` hands over the complete string or nothing, and reads only the
array, exactly if the buffer is too small even without the NUL, or the string
has text and fits with it into a buffer that is mapped as far as its size
says. -/
theorem getargs_hands_over_iff (k : Kernel σ) (below above : List Byte)
    (room : Nat) (a : List Byte) (hstored : Stored k a) (nbytes : Int)
    (hlow : -2 ^ 31 ≤ nbytes) (hhigh : nbytes < 2 ^ 31) :
    HandsOver k below above room a nbytes ↔
      0 ≤ nbytes ∧ nbytes < a.length ∨
        HasText a ∧ a.length < nbytes ∧ nbytes ≤ room := by
  have hshort := hstored.short
  constructor
  · intro h
    by_contra hbad
    have hfits : a.length ≤ (nbytes % 2 ^ 32).toNat := by omega
    by_cases htext : HasText a
    · by_cases hterminated : (a.length + 1 : Int) ≤ nbytes
      · -- the size reaches beyond the mapped memory
        obtain ⟨buf', hret, -⟩ := h.succeeds htext hterminated fun _ => 0
        have hbeyond : (nbytes % 2 ^ 32).toNat > room := by
          have hroom : ¬ nbytes ≤ room := fun hroom =>
            hbad (.inr ⟨htext, by omega, hroom⟩)
          omega
        rw [hstored.handed below above room htext hfits, if_pos hbeyond] at hret
        cases hret
      · have hrefused := h.refuses (fun hboth => hterminated hboth.2) fun _ => 0
        exact hstored.not_refused below above room htext hfits _ _ hrefused
    · have hread := h.reads _ (hstored.leaves below above room htext hfits)
      exact absurd hread.1 (by decide)
  · intro hok
    refine ⟨fun htext hterminated buf => ?_, fun hno buf => ?_, ?_⟩
    · have hsize : ((nbytes % 2 ^ 32).toNat : Int) = nbytes := by omega
      have hmapped : ¬ (nbytes % 2 ^ 32).toNat > room := by
        rcases hok with hsmall | ⟨-, -, hroom⟩ <;> omega
      refine ⟨fun j => if j < (nbytes % 2 ^ 32).toNat then a.getD j 0 else buf j,
        ?_, ?_, ?_, ?_⟩
      · rw [hstored.handed below above room htext (by omega), if_neg hmapped]
      · intro j hj
        exact if_pos (by omega)
      · dsimp only
        rw [if_pos (by omega), List.getD_eq_default _ _ (Nat.le_refl _)]
      · intro j hj
        exact if_neg (by omega)
    · have hsmall : a.length > (nbytes % 2 ^ 32).toNat := by
        rcases hok with hsmall | ⟨htext, hterminated, -⟩
        · omega
        · exact absurd ⟨htext, by omega⟩ hno
      exact hstored.getargs_long below above room buf hsmall
    · apply hstored.reads_within below above room
      rcases hok with hsmall | ⟨htext, -⟩
      · exact .inl (by omega)
      · exact .inr htext

/-- A kernel whose processes have the argument string `a`. -/
def argsKernel (a : List Byte) : Kernel Nat :=
  { idleKernel 0 with
    pcb := fun pid =>
      { (idleKernel 0).pcb pid with args := fun j => a.getD j 0 } }

theorem stored_argsKernel {a : List Byte} (hnul : 0 ∉ a)
    (hshort : a.length ≤ 127) : Stored (argsKernel a) a :=
  { args := fun _ => rfl, noNul := hnul, short := hshort }

/-- The arguments `-l` in a buffer of 1024 bytes, 4096 bytes below the end of
the user page. -/
theorem small_args_handed :
    HandsOver (argsKernel [45, 108]) [] [] 4096 [45, 108] 1024 :=
  (getargs_hands_over_iff (argsKernel [45, 108]) [] [] 4096 [45, 108]
    (stored_argsKernel (by decide) (by decide)) 1024
    (by decide) (by decide)).2 (.inr (by decide))

/-- A buffer that the string fills without its NUL makes `getargs` succeed; with
a negative size, and with one beyond the end of the mapped memory, it faults;
without arguments it reads below the array, and with a newline there and another
character behind it, succeeds. -/
theorem getargs_hands_over_too_much :
    ¬ HandsOver (argsKernel [45, 108]) [] [] 4096 [45, 108] 2 ∧
    ¬ HandsOver (argsKernel [45, 108]) [] [] 4096 [45, 108] (-1) ∧
    ¬ HandsOver (argsKernel [45, 108]) [] [] 4096 [45, 108] 0x7fffffff ∧
    (∀ buf, getargs (argsKernel [45, 108]) [] [] 4096 (some buf) (-1) = .faults ∧
      getargs (argsKernel [45, 108]) [] [] 4096 (some buf) 0x7fffffff = .faults) ∧
    ¬ HandsOver (argsKernel []) [10, 65] [] 4096 [] 1024 ∧
    ∃ buf', getargs (argsKernel []) [10, 65] [] 4096 (some fun _ => 1) 1024 =
      .ret 0 buf' := by
  have hstored : Stored (argsKernel [45, 108]) [45, 108] :=
    stored_argsKernel (by decide) (by decide)
  have hfaults : ∀ nbytes : Int, 4096 < (nbytes % 2 ^ 32).toNat → ∀ buf,
      getargs (argsKernel [45, 108]) [] [] 4096 (some buf) nbytes = .faults := by
    intro nbytes hbeyond buf
    rw [hstored.handed [] [] 4096 (by decide) (by dsimp only [List.length]; omega),
      if_pos hbeyond]
  refine ⟨fun h => ?tight, fun h => ?negative, fun h => ?beyond,
    fun buf => ⟨hfaults _ (by decide) buf, hfaults _ (by decide) buf⟩,
    fun h => ?below, _, rfl⟩
  case tight =>
    have hrefused := h.refuses (by decide) fun _ => 0
    exact hstored.not_refused [] [] 4096 (by decide) (by decide) _ _ hrefused
  case negative =>
    have hrefused := h.refuses (by decide) fun _ => 0
    exact hstored.not_refused [] [] 4096 (by decide) (by decide) _ _ hrefused
  case beyond =>
    obtain ⟨buf', hret, -⟩ := h.succeeds (by decide) (by decide) fun _ => 0
    rw [hfaults _ (by decide)] at hret
    cases hret
  case below => exact absurd (h.reads (-1) (by decide)).1 (by decide)

end MongOS.Proofs.Arguments
