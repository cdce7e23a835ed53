import MongOS.Model.FishFrames
import MongOS.Proofs.FilePrograms
import MongOS.Verified.SideBySide

/-!
# The frames that `fish` reads

`add_frames` reads its two files to their ends and puts the places where one of the
two texts has a character other than a space on the list of blinking characters.

* `runs_addFrames` — what it does, on what the program sees of the kernel.
-/

namespace MongOS.Proofs.FishFrames

open MongOS.Model
open MongOS.Verified
open MongOS.Proofs.CStrings
open MongOS.Proofs.DescriptorCalls
open MongOS.Proofs.DescriptorTable
open MongOS.Proofs.FileReads
open MongOS.Proofs.UserCalls
open MongOS.Proofs.FilePrograms

variable {σ : Type}

/-! ## The characters of two texts -/

/-- A place on the screen with its two characters. -/
structure Cell where
  location : Nat
  onChar : Byte
  offChar : Byte
  deriving DecidableEq

/-- The characters in a column of a row, if one of them can be seen. -/
def cellAt (row col : Nat) (a b : Byte) : List Cell :=
  if a = 32 ∧ b = 32 then []
  else [{ location := row * 80 + col + 40, onChar := a, offChar := b }]

/-- The characters of two lines, from a column on. -/
def rowCells (row col : Nat) (l0 l1 : List Byte) : List Cell :=
  sideBySide (cellAt row) 32 col l0 l1

theorem rowCells_step (row col : Nat) {l0 l1 : List Byte} (h : l0 ≠ [] ∨ l1 ≠ []) :
    rowCells row col l0 l1 = cellAt row col (l0.headD 32) (l1.headD 32) ++
      rowCells row (col + 1) l0.tail l1.tail := sideBySide_step h

/-- The characters of two texts, from a row on. -/
def frameCells (row : Nat) (ls0 ls1 : List (List Byte)) : List Cell :=
  sideBySide (fun row => rowCells row 0) [] row ls0 ls1

theorem frameCells_step (row : Nat) {ls0 ls1 : List (List Byte)}
    (h : ls0 ≠ [] ∨ ls1 ≠ []) :
    frameCells row ls0 ls1 = rowCells row 0 (ls0.headD []) (ls1.headD []) ++
      frameCells (row + 1) ls0.tail ls1.tail := sideBySide_step h

/-- Put a character on the list. -/
def putCell (blink : BlinkStruct) (b : Fish) (c : Cell) : Fish :=
  (mp1IoctlAdd b
    { blink with
      onChar := c.onChar
      offChar := c.offChar
      location := UInt16.ofNat c.location }).1

/-- What `add_frames` does in a column, with a newline behind the end of a line. -/
theorem addChar_eq (blink : BlinkStruct) (row col : Nat) {l0 l1 : List Byte}
    (h0 : 10 ∉ l0) (h1 : 10 ∉ l1) (b : Fish) :
    addChar blink row col (l0.headD 10) (l1.headD 10) b =
      (cellAt row col (l0.headD 32) (l1.headD 32)).foldl (putCell blink) b := by
  have hseen : ∀ l : List Byte, 10 ∉ l →
      (if l.headD 10 = 10 then 32 else l.headD 10) = l.headD 32 ∧
      (l.headD 10 ≠ 32 ∧ l.headD 10 ≠ 10 ↔ l.headD 32 ≠ 32) := by
    intro l hl
    cases l with
    | nil => exact ⟨rfl, by decide⟩
    | cons c l =>
        have hc : c ≠ 10 := fun heq => hl (heq ▸ List.mem_cons_self)
        exact ⟨if_neg hc, and_iff_left hc⟩
  obtain ⟨hon, hon'⟩ := hseen l0 h0
  obtain ⟨hoff, hoff'⟩ := hseen l1 h1
  unfold addChar cellAt
  rw [hon, hoff]
  by_cases hblank : l0.headD 32 = 32 ∧ l1.headD 32 = 32
  · rw [if_pos hblank, if_neg (by tauto)]
    rfl
  · rw [if_neg hblank, if_pos (by tauto)]
    rfl

/-! ## One of the files -/

/-- Where the program is in one of the files: its character, whether the file has
ended, and the bytes that it has not read. -/
structure Side where
  c : Byte
  eof : Bool
  rest : List Byte

namespace Side

/-- Read the next character, if the line has not ended. -/
def pull (s : Side) : Side :=
  if s.c = 10 then s
  else
    match s.rest with
    | [] => { s with c := 10, eof := true }
    | b :: rest => { s with c := b, rest := rest }

/-- The characters of the line that are still to come. -/
def ahead (s : Side) : List Byte :=
  if s.c = 10 then [] else s.rest.takeWhile (· != 10)

/-- The end of the line. -/
def finish (s : Side) : Side :=
  if s.c = 10 then s
  else
    match s.rest.dropWhile (· != 10) with
    | [] => { c := 10, eof := true, rest := [] }
    | _ :: rest => { c := 10, eof := s.eof, rest := rest }

/-- The start of the next line. -/
def next (s : Side) : Side := { s with c := if s.eof then 10 else 48 }

/-- The lines that are still to come, at the start of one. -/
def lines (s : Side) : List (List Byte) := if s.eof then [] else s.rest.splitOn 10

variable (s : Side)

theorem notMem_ahead : 10 ∉ s.ahead := by
  unfold ahead
  split
  · exact List.not_mem_nil
  · intro hmem
    have hne := List.mem_takeWhile_imp hmem
    exact absurd rfl (bne_iff_ne.1 hne)

theorem pull_c : s.pull.c = s.ahead.headD 10 := by
  unfold pull ahead
  by_cases hc : s.c = 10
  · rw [if_pos hc, if_pos hc]
    exact hc
  · rw [if_neg hc, if_neg hc]
    cases s.rest with
    | nil => rfl
    | cons b rest =>
        by_cases hb : b = 10
        · simp [hb]
        · simp [hb]

theorem ahead_pull : s.pull.ahead = s.ahead.tail := by
  unfold pull ahead
  by_cases hc : s.c = 10
  · simp [hc]
  · rw [if_neg hc, if_neg hc]
    cases s.rest with
    | nil => rfl
    | cons b rest =>
        by_cases hb : b = 10
        · simp [hb]
        · simp [hb]

theorem finish_pull : s.pull.finish = s.finish := by
  unfold pull
  by_cases hc : s.c = 10
  · rw [if_pos hc]
  · rw [if_neg hc]
    unfold finish
    rw [if_neg hc]
    cases hrest : s.rest with
    | nil => simp
    | cons b rest =>
        by_cases hb : b = 10
        · simp [hb]
        · simp [hb]

theorem finish_of_newline (h : s.c = 10) : s.finish = s := if_pos h

/-- The first of the lines to come, and the others. -/
theorem lines_step (hstart : s.c = if s.eof then 10 else 48) :
    s.ahead = s.lines.headD [] ∧ s.finish.next.lines = s.lines.tail := by
  cases heof : s.eof with
  | true =>
      rw [heof, if_pos rfl] at hstart
      unfold ahead finish next lines
      simp [hstart, heof]
  | false =>
      rw [heof, if_neg Bool.false_ne_true] at hstart
      have hc : ¬ s.c = 10 := by
        rw [hstart]
        decide
      have hsplit := List.takeWhile_append_dropWhile (p := (· != (10 : Byte)))
        (l := s.rest)
      have hline : ∀ x ∈ s.rest.takeWhile (· != 10), (x == (10 : Byte)) = false := by
        intro x hx
        have hne := List.mem_takeWhile_imp hx
        simpa using hne
      unfold ahead finish next lines
      rw [if_neg hc, if_neg hc, heof, if_neg Bool.false_ne_true]
      cases hdrop : s.rest.dropWhile (· != 10) with
      | nil =>
          rw [hdrop, List.append_nil] at hsplit
          have hone : s.rest.splitOn 10 = [s.rest] := by
            rw [hsplit] at hline
            exact List.splitOnP_eq_singleton hline
          rw [hsplit, hone]
          exact ⟨rfl, rfl⟩
      | cons b rest =>
          have hb : b = 10 := by
            have hhead := List.head_dropWhile_not (· != (10 : Byte)) (l := s.rest)
              (by rw [hdrop]; exact List.cons_ne_nil _ _)
            simpa [hdrop] using hhead
          subst hb
          rw [hdrop] at hsplit
          have hmore : s.rest.splitOn 10 =
              s.rest.takeWhile (· != 10) :: rest.splitOn 10 := by
            have hnewline : ((10 : Byte) == 10) = true := rfl
            have happ := List.splitOnP_append_cons (p := (· == (10 : Byte)))
              (s.rest.takeWhile (· != 10)) rest hnewline
            rw [List.splitOnP_eq_singleton hline, hsplit] at happ
            exact happ
          rw [hmore]
          exact ⟨rfl, rfl⟩

end Side

/-! ## The loops -/

section Loops

variable {fs : FileSys} {v : View} {fd fd0 fd1 : Int} {i i0 i1 : Nat}

/-- The descriptor of a file on one side: at the first byte that is not read, or
closed after its end. -/
def Holds (fs : FileSys) (i : Nat) (slot : FArray) (s : Side) : Prop :=
  (∃ pos, pos ≤ (fs.inodeSt i).size ∧ slot = fileSlot i pos ∧
    (fileBytes fs (fs.inodeSt i)).drop pos = s.rest) ∨
  (slot = clearedSlot ∧ s.c = 10 ∧ s.eof = true)

theorem runs_nextChar (hfs : WellFormed fs) (hfd : OwnFd v fd)
    (hsize : (fs.inodeSt i).size ≤ MAX_FILE_SIZE) {slot : FArray} {s : Side}
    (h : Holds fs i slot s) :
    ∃ slot', runs fs (nextChar fd s.c s.eof) (v.put fd slot) =
      some ((s.pull.c, s.pull.eof), v.put fd slot') ∧ Holds fs i slot' s.pull := by
  unfold Side.pull nextChar
  by_cases hc : s.c = 10
  · rw [if_pos hc, if_neg (not_not.2 hc)]
    exact ⟨slot, rfl, h⟩
  · rw [if_neg hc, if_pos hc]
    obtain ⟨pos, hpos, rfl, hrest⟩ := h.resolve_right fun hclosed => hc hclosed.2.1
    have hread := call_readFile hfs hfd hsize hpos (fun _ => s.c) 1 (by decide)
      (by decide)
    have hbytes := delivered_bytes fs (fs.inodeSt i) pos 1 (fun _ => s.c)
    have hcount : delivered (fs.inodeSt i) pos 1 =
        min 1 ((fs.inodeSt i).size - pos) := rfl
    have hlength := congrArg List.length hrest
    rw [List.length_drop, fileBytes_eq, length_readAt] at hlength
    unfold ece391Read
    cases hs : s.rest with
    | nil =>
        rw [hs, List.length_nil] at hlength
        have hzero : delivered (fs.inodeSt i) pos 1 = 0 := by omega
        rw [hzero] at hread
        exact ⟨fileSlot i (pos + 0), (Prog.exec_make_bind hread).trans rfl,
          .inl ⟨pos, hpos, rfl, by rw [hrest, hs]⟩⟩
    | cons b rest =>
        rw [hs, List.length_cons] at hlength
        have hone : delivered (fs.inodeSt i) pos 1 = 1 := by omega
        rw [hone, hrest, hs] at hbytes
        have hbyte : fillBuffer fs (fs.inodeSt i) pos 1 (fun _ => s.c) 0 = b :=
          (List.cons.inj hbytes).1
        rw [hone] at hread
        refine ⟨fileSlot i (pos + 1), (Prog.exec_make_bind hread).trans ?_,
          .inl ⟨pos + 1, by omega, rfl, ?_⟩⟩
        · rw [if_neg (show ¬((1 : Nat) : Int) = 0 by decide)]
          dsimp only
          rw [hbyte]
          rfl
        · rw [← List.drop_drop, hrest, hs]
          rfl

theorem put_comm (v : View) (hne : fd0 ≠ fd1) (a b : FArray) :
    (v.put fd0 a).put fd1 b = (v.put fd1 b).put fd0 a := by
  unfold View.put
  rw [Function.update_comm hne]

/-- Descriptors keep their numbers when others are written. -/
theorem ownFd_put (h : OwnFd v fd) (fd' : Int) (slot : FArray) :
    OwnFd (v.put fd' slot) fd := { h with target := h.target }

/-- The local variables for two sides. -/
def framesOf (s0 s1 : Side) (b : Fish) : Frames :=
  { c0 := s0.c, c1 := s1.c, eof0 := s0.eof, eof1 := s1.eof, fish := b }

/-- The descriptors of the two files. -/
structure Files (fs : FileSys) (v : View) (fd0 fd1 : Int) (i0 i1 : Nat) : Prop where
  mounted : WellFormed fs
  own0 : OwnFd v fd0
  own1 : OwnFd v fd1
  ne : fd0 ≠ fd1
  size0 : (fs.inodeSt i0).size ≤ MAX_FILE_SIZE
  size1 : (fs.inodeSt i1).size ≤ MAX_FILE_SIZE

/-- The inner loop puts the characters of the two lines on the list. -/
theorem runs_columnLoop (hf : Files fs v fd0 fd1 i0 i1) (blink : BlinkStruct)
    (row : Nat) {n : Nat} (col : Nat) {s0 s1 : Side} {a0 a1 : FArray}
    (h0 : Holds fs i0 a0 s0) (h1 : Holds fs i1 a1 s1)
    (hn : max s0.ahead.length s1.ahead.length < n) (b : Fish) :
    ∃ a0' a1', runs fs (columnLoop blink fd0 fd1 row n col (framesOf s0 s1 b))
        ((v.put fd0 a0).put fd1 a1) =
      some (some (framesOf s0.finish s1.finish
        ((rowCells row col s0.ahead s1.ahead).foldl (putCell blink) b)),
        (v.put fd0 a0').put fd1 a1') ∧
      Holds fs i0 a0' s0.finish ∧ Holds fs i1 a1' s1.finish := by
  induction n generalizing col s0 s1 a0 a1 b with
  | zero => omega
  | succ n ih =>
      obtain ⟨a0', hrun0, hnext0⟩ := runs_nextChar hf.mounted (ownFd_put hf.own0 fd1 a1)
        hf.size0 h0
      obtain ⟨a1', hrun1, hnext1⟩ := runs_nextChar hf.mounted (ownFd_put hf.own1 fd0 a0')
        hf.size1 h1
      rw [put_comm v hf.ne.symm, put_comm v hf.ne.symm] at hrun0
      have hempty : ∀ s : Side, s.pull.c = 10 ↔ s.ahead = [] := by
        intro s
        rw [Side.pull_c]
        cases hs : s.ahead with
        | nil => simp
        | cons c l =>
            have hnot := s.notMem_ahead
            rw [hs] at hnot
            have hc : c ≠ 10 := fun heq => hnot (heq ▸ List.mem_cons_self)
            simp [hc]
      have hboth : runs fs (columnLoop blink fd0 fd1 row (n + 1) col (framesOf s0 s1 b))
            ((v.put fd0 a0).put fd1 a1) =
          runs fs (if s0.pull.c = 10 ∧ s1.pull.c = 10 then
              return some (framesOf s0.pull s1.pull b)
            else columnLoop blink fd0 fd1 row n (col + 1) (framesOf s0.pull s1.pull
              (addChar blink row col s0.pull.c s1.pull.c b)))
            ((v.put fd0 a0').put fd1 a1') := by
        unfold runs at hrun0 hrun1 ⊢
        rw [columnLoop]
        exact (Prog.exec_bind hrun0).trans (Prog.exec_bind hrun1)
      rw [hboth]
      by_cases hdone : s0.pull.c = 10 ∧ s1.pull.c = 10
      · obtain ⟨hc0, hc1⟩ := hdone
        have hfinish : ∀ s : Side, s.pull.c = 10 → s.finish = s.pull := by
          intro s hc
          rw [← Side.finish_pull, Side.finish_of_newline _ hc]
        rw [if_pos ⟨hc0, hc1⟩, (hempty s0).1 hc0, (hempty s1).1 hc1, hfinish s0 hc0,
          hfinish s1 hc1]
        exact ⟨a0', a1', rfl, hnext0, hnext1⟩
      · have hmore : s0.ahead ≠ [] ∨ s1.ahead ≠ [] := by
          rw [hempty, hempty] at hdone
          tauto
        have hshort : max s0.pull.ahead.length s1.pull.ahead.length < n := by
          rw [Side.ahead_pull, Side.ahead_pull, List.length_tail, List.length_tail]
          have hpos : 0 < s0.ahead.length ∨ 0 < s1.ahead.length :=
            hmore.imp List.length_pos_iff.2 List.length_pos_iff.2
          omega
        obtain ⟨a0'', a1'', hloop, hrest⟩ := ih (col + 1) hnext0 hnext1 hshort
          (addChar blink row col s0.pull.c s1.pull.c b)
        rw [Side.finish_pull, Side.finish_pull] at hloop hrest
        rw [if_neg hdone, hloop, Side.ahead_pull, Side.ahead_pull, Side.pull_c,
          Side.pull_c, addChar_eq blink row col s0.notMem_ahead s1.notMem_ahead,
          rowCells_step row col hmore, List.foldl_append]
        exact ⟨a0'', a1'', rfl, hrest⟩

/-- The end of a row, with the file closed at its end, or once more. -/
theorem runs_endRow (hfs : WellFormed fs) (hfd : OwnFd v fd) {slot : FArray} {s : Side}
    (h : Holds fs i slot s) :
    ∃ slot', runs fs (endRow fd s.eof) (v.put fd slot) =
      some (s.next.c, v.put fd slot') ∧ Holds fs i slot' s.next := by
  unfold endRow Side.next
  cases heof : s.eof with
  | false =>
      obtain ⟨pos, hpos, hslot, hrest⟩ := h.resolve_right fun hclosed => by
        rw [heof] at hclosed
        exact absurd hclosed.2.2 Bool.false_ne_true
      exact ⟨slot, rfl, .inl ⟨pos, hpos, hslot, hrest⟩⟩
  | true =>
      have hlo := hfd.lo
      have hhi := hfd.hi
      have htarget : targetFd (v.put fd slot).name fd = fd := hfd.target
      have hclosed : Holds fs i clearedSlot { s with c := 10 } := .inr ⟨rfl, rfl, heof⟩
      rw [heof] at hclosed
      rw [if_pos rfl]
      unfold ece391Close
      rcases h with ⟨pos, _, rfl, _⟩ | ⟨rfl, _, _⟩
      · have hclose : (v.put fd (fileSlot i pos)).call fs (.close fd) =
            some (v.put fd clearedSlot, ⟨0, fun _ => 0⟩) := by
          simp only [View.call, htarget, put_slots]
          rw [if_pos ⟨hlo, hhi, Nat.one_ne_zero, Option.some_ne_none _, hfs.mounted⟩,
            put_put]
        exact ⟨clearedSlot, (Prog.exec_make_bind hclose).trans rfl, hclosed⟩
      · have hclose : (v.put fd clearedSlot).call fs (.close fd) =
            some (v.put fd clearedSlot, ⟨-1, fun _ => 0⟩) := by
          simp only [View.call, htarget, put_slots]
          rw [if_neg fun hopen => hopen.2.2.1 rfl, if_pos ⟨hlo, hhi, rfl⟩]
        exact ⟨clearedSlot, (Prog.exec_make_bind hclose).trans rfl, hclosed⟩

/-- A side at the start of a row. -/
def Side.Starts (s : Side) : Prop := s.c = if s.eof then 10 else 48

/-- The outer loop puts the characters of all the lines on the list. -/
theorem runs_rowLoop (hf : Files fs v fd0 fd1 i0 i1) (blink : BlinkStruct)
    {columns n : Nat} (row : Nat) {s0 s1 : Side} {a0 a1 : FArray}
    (h0 : Holds fs i0 a0 s0) (h1 : Holds fs i1 a1 s1) (hs0 : s0.Starts) (hs1 : s1.Starts)
    (hcolumns : ∀ l, l ∈ s0.lines ∨ l ∈ s1.lines → l.length < columns)
    (hn : max s0.lines.length s1.lines.length < n) (b : Fish) :
    ∃ t0 t1 : Side, ∃ a0' a1',
      runs fs (rowLoop blink fd0 fd1 columns n row (framesOf s0 s1 b))
        ((v.put fd0 a0).put fd1 a1) =
      some (some (framesOf t0 t1
        ((frameCells row s0.lines s1.lines).foldl (putCell blink) b)),
        (v.put fd0 a0').put fd1 a1') := by
  induction n generalizing row s0 s1 a0 a1 b with
  | zero => omega
  | succ n ih =>
      have hlines : ∀ s : Side, s.eof = true ↔ s.lines = [] := by
        intro s
        unfold Side.lines
        cases s.eof with
        | true => simp
        | false => simp [List.splitOn, List.splitOnP_ne_nil]
      rw [rowLoop]
      by_cases hdone : s0.eof = true ∧ s1.eof = true
      · have hdone' : (framesOf s0 s1 b).eof0 = true ∧ (framesOf s0 s1 b).eof1 = true :=
          hdone
        rw [if_pos hdone', (hlines s0).1 hdone.1, (hlines s1).1 hdone.2]
        exact ⟨s0, s1, a0, a1, rfl⟩
      · have hmore : s0.lines ≠ [] ∨ s1.lines ≠ [] := by
          rw [hlines, hlines] at hdone
          tauto
        obtain ⟨hahead0, htail0⟩ := s0.lines_step hs0
        obtain ⟨hahead1, htail1⟩ := s1.lines_step hs1
        have hcolumn : ∀ ls : List (List Byte), (∀ l ∈ ls, l.length < columns) →
            0 < columns → (ls.headD []).length < columns := by
          intro ls hls hpos
          cases ls with
          | nil => exact hpos
          | cons l ls => exact hls l List.mem_cons_self
        have hpos : 0 < columns := by
          rcases hmore with h | h
          · obtain ⟨l, hl⟩ := List.exists_mem_of_ne_nil _ h
            exact Nat.zero_lt_of_lt (hcolumns l (.inl hl))
          · obtain ⟨l, hl⟩ := List.exists_mem_of_ne_nil _ h
            exact Nat.zero_lt_of_lt (hcolumns l (.inr hl))
        have hwidth : max s0.ahead.length s1.ahead.length < columns := by
          have hw0 := hcolumn s0.lines (fun l hl => hcolumns l (.inl hl)) hpos
          have hw1 := hcolumn s1.lines (fun l hl => hcolumns l (.inr hl)) hpos
          rw [hahead0, hahead1]
          omega
        obtain ⟨a0', a1', hrow, hend0, hend1⟩ := runs_columnLoop hf blink row 0
          h0 h1 hwidth b
        obtain ⟨a0'', hclose0, hnext0⟩ := runs_endRow hf.mounted
          (ownFd_put hf.own0 fd1 a1') hend0
        obtain ⟨a1'', hclose1, hnext1⟩ := runs_endRow hf.mounted
          (ownFd_put hf.own1 fd0 a0'') hend1
        rw [put_comm v hf.ne.symm, put_comm v hf.ne.symm] at hclose0
        have hshort : max s0.finish.next.lines.length s1.finish.next.lines.length < n := by
          rw [htail0, htail1, List.length_tail, List.length_tail]
          have hsome : 0 < s0.lines.length ∨ 0 < s1.lines.length :=
            hmore.imp List.length_pos_iff.2 List.length_pos_iff.2
          omega
        have hcolumns' : ∀ l, l ∈ s0.finish.next.lines ∨ l ∈ s1.finish.next.lines →
            l.length < columns := by
          intro l hl
          rw [htail0, htail1] at hl
          exact hcolumns l (hl.imp List.mem_of_mem_tail List.mem_of_mem_tail)
        obtain ⟨t0, t1, b0, b1, hloop⟩ := ih (row + 1) hnext0 hnext1 rfl rfl hcolumns' hshort
          ((rowCells row 0 s0.ahead s1.ahead).foldl (putCell blink) b)
        have hdone' : ¬((framesOf s0 s1 b).eof0 = true ∧ (framesOf s0 s1 b).eof1 = true) :=
          hdone
        refine ⟨t0, t1, b0, b1, ?_⟩
        rw [if_neg hdone', frameCells_step row hmore, List.foldl_append, ← hahead0,
          ← hahead1, ← htail0, ← htail1, ← hloop]
        unfold runs at hrow hclose0 hclose1 ⊢
        rw [Prog.exec_bind hrow]
        exact (Prog.exec_bind hclose0).trans (Prog.exec_bind hclose1)

end Loops

/-! ## `add_frames` -/

/-- The lines of the file of an entry. -/
def textLines (fs : FileSys) (d : Dentry) : List (List Byte) :=
  (fileBytes fs (fs.inodeSt d.indexNode)).splitOn 10

/-- The list after `add_frames`. -/
def framed (fs : FileSys) (d0 d1 : Dentry) (blink : BlinkStruct) (b : Fish) : Fish :=
  (frameCells 0 (textLines fs d0) (textLines fs d1)).foldl (putCell blink) b

theorem openedSlot_file {d : Dentry} (h : d.type = 2) :
    openedSlot d = fileSlot d.indexNode 0 := by
  unfold openedSlot
  rw [h]
  rfl

section AddFrames

variable {fs : FileSys} {v : View} {d0 d1 : Dentry} {columns rows : Nat}

/-- The rounds are enough for two texts. -/
structure Rounds (columns rows : Nat) (ls0 ls1 : List (List Byte)) : Prop where
  columns : ∀ l, l ∈ ls0 ∨ l ∈ ls1 → l.length < columns
  rows : max ls0.length ls1.length < rows

theorem runs_addFrames (hfs : WellFormed fs) {f0 f1 n0 n1 : List Byte}
    (hzero0 : 0 ∈ f0) (hzero1 : 0 ∈ f1) (hname0 : cstr f0 = n0) (hname1 : cstr f1 = n1)
    (hne0 : n0 ≠ []) (hne1 : n1 ≠ [])
    (hfound0 : readDentryByName fs ⟨0, n0⟩ = some d0)
    (hfound1 : readDentryByName fs ⟨0, n1⟩ = some d1) (htype0 : d0.type = 2)
    (htype1 : d1.type = 2) {fd0 fd1 : Int} (hfree0 : v.free = some fd0)
    (hfree1 : (v.put fd0 (openedSlot d0)).free = some fd1) (hown0 : OwnFd v fd0)
    (hown1 : OwnFd v fd1) (hne : fd0 ≠ fd1)
    (hrounds : Rounds columns rows (textLines fs d0) (textLines fs d1))
    (junk : BlinkStruct) (b : Fish) :
    ∃ a0 a1, runs fs (addFrames columns rows junk f0 f1 b) v =
      some (some (.ok (framed fs d0 d1 { junk with onLength := 15, offLength := 15 } b)),
        (v.put fd0 a0).put fd1 a1) := by
  have hopen0 := call_open_found hzero0 hname0 hne0 hfound0 hfree0
  have hopen1 := call_open_found hzero1 hname1 hne1 hfound1 hfree1
  have hlo0 := hown0.lo
  have hlo1 := hown1.lo
  have hf : Files fs v fd0 fd1 d0.indexNode d1.indexNode :=
    { mounted := hfs, own0 := hown0, own1 := hown1, ne := hne
      size0 := hfs.size_le hfound0 htype0, size1 := hfs.size_le hfound1 htype1 }
  have hstart : ∀ d : Dentry, d.type = 2 → Holds fs d.indexNode (openedSlot d)
      { c := 48, eof := false, rest := fileBytes fs (fs.inodeSt d.indexNode) } :=
    fun d hd => .inl ⟨0, Nat.zero_le _, openedSlot_file hd, rfl⟩
  obtain ⟨t0, t1, a0, a1, hloop⟩ := runs_rowLoop hf
    { junk with onLength := 15, offLength := 15 } 0 (hstart d0 htype0)
    (hstart d1 htype1) rfl rfl hrounds.columns hrounds.rows b
  refine ⟨a0, a1, ?_⟩
  unfold runs addFrames ece391Open
  rw [if_pos (by omega : d0.type ≤ 2)] at hopen0
  rw [if_pos (by omega : d1.type ≤ 2)] at hopen1
  rw [Prog.exec_make_bind hopen0]
  dsimp only
  rw [if_neg (by omega), Prog.exec_make_bind hopen1]
  dsimp only
  rw [if_neg (by omega)]
  exact (Prog.exec_bind hloop).trans rfl

end AddFrames

/-- The free descriptors that `fish` finds. -/
theorem free_next {v : View} {fd : Int} (hfd : fd = 2 ∨ fd = 3)
    (hused : ∀ fd', 2 ≤ fd' → fd' < fd → (v.slots fd').flags ≠ FREE)
    (hfree : (v.slots (fd + 1)).flags = FREE) (d : Dentry) :
    (v.put fd (openedSlot d)).free = some (fd + 1) := by
  have hopen : ((v.put fd (openedSlot d)).slots fd).flags ≠ FREE := by
    rw [put_slots]
    exact Nat.one_ne_zero
  have hother : ∀ fd', fd' ≠ fd → (v.put fd (openedSlot d)).slots fd' = v.slots fd' :=
    fun fd' hne => Function.update_of_ne hne _ _
  unfold View.free
  rcases hfd with rfl | rfl
  · rw [List.find?_cons_of_neg, List.find?_cons_of_pos]
    · rfl
    · rw [hother 3 (by decide)]
      exact beq_iff_eq.2 hfree
    · exact fun h => hopen (beq_iff_eq.1 h)
  · rw [List.find?_cons_of_neg, List.find?_cons_of_neg, List.find?_cons_of_pos]
    · rfl
    · rw [hother 4 (by decide)]
      exact beq_iff_eq.2 hfree
    · exact fun h => hopen (beq_iff_eq.1 h)
    · rw [hother 2 (by decide)]
      exact fun h => hused 2 (by decide) (by decide) (beq_iff_eq.1 h)

/-- The names of the files that `fish` opens. -/
theorem literal_names :
    (0 ∈ literal "rtc" ∧ cstr (literal "rtc") = str "rtc" ∧ str "rtc" ≠ []) ∧
    (0 ∈ literal "frame0.txt" ∧ cstr (literal "frame0.txt") = str "frame0.txt" ∧
      str "frame0.txt" ≠ []) ∧
    (0 ∈ literal "frame1.txt" ∧ cstr (literal "frame1.txt") = str "frame1.txt" ∧
      str "frame1.txt" ≠ []) := by
  decide

/-! ## `main` -/

/-- Interrupts of the RTC: `n` calls of the tasklet. -/
def tasklets (fuel : Nat) : Nat → Fish → Option Fish
  | 0, b => some b
  | n + 1, b => (mp1RtcTasklet fuel b).bind (tasklets fuel n)

section Main

variable {fs : FileSys} {w : View} {fd : Int}

/-- The RTC is open on a descriptor. -/
structure OnRtc (w : View) (fd : Int) : Prop extends OwnFd w fd where
  usable : w.Usable fd .rtc

/-- The loops of `main` make the calls of the tasklet, and nothing else. -/
theorem runs_waitLoop (h : OnRtc w fd) (fuel n : Nat) (garbage : Nat → Byte) (b : Fish) :
    runs fs (waitLoop fuel fd n garbage b) w =
      some ((tasklets fuel n b).map fun b => (garbage, b), w) := by
  obtain ⟨hlo, hhi, hflags, hops⟩ := h.usable
  have htwo := h.lo
  have hread : w.call fs (.read fd garbage 4) = some (w, ⟨0, garbage⟩) := by
    have hsame : w.put fd (w.slots fd) = w := by
      unfold View.put
      rw [Function.update_eq_self]
    simp only [View.call, h.target]
    rw [if_pos ⟨by decide, hlo, hhi, by omega, hflags⟩]
    refine Eq.trans ?_ (congrArg (fun w' => some (w', (⟨0, garbage⟩ : Reply))) hsame)
    generalize w.slots fd = slot at hops
    obtain ⟨fotp, inode, pos, flags⟩ := slot
    subst hops
    rfl
  induction n generalizing b with
  | zero => rfl
  | succ n ih =>
      unfold runs at ih ⊢
      rw [waitLoop, tasklets]
      unfold ece391Read
      rw [Prog.exec_make_bind hread]
      cases mp1RtcTasklet fuel b with
      | none => rfl
      | some b => exact ih b

theorem call_writeRtc (h : OnRtc w fd) (buf : Nat → Byte) :
    w.call fs (.write fd buf 4) = some (w, ⟨4, buf⟩) := by
  have hlo := h.lo
  have hterm : ¬((0 : Int) ≤ 4 ∧ fd ≠ 0 ∧ w.Usable fd .terminal) := by
    rintro ⟨-, -, -, -, -, hops⟩
    cases h.usable.2.2.2.symm.trans hops
  have hrtc : (4 : Int) = 4 ∧ fd ≠ 0 ∧ w.Usable fd .rtc := ⟨rfl, by omega, h.usable⟩
  exact (if_neg hterm).trans (if_pos hrtc)

/-- The rest of `main`. -/
theorem runs_fishRest (hfs : WellFormed fs) (h : OnRtc w fd) {fuel wait : Nat}
    {junk : BlinkStruct} {b b₁ b₂ b₃ b₄ b₅ : Fish} {r r' : Int}
    (h₁ : tasklets fuel wait (mp1IoctlAdd b (imBlink junk)).1 = some b₁)
    (h₂ : mp1IoctlSync fuel b₁ ((40 : UInt32) <<< 16 ||| (6 * 80 + 60)) = some (b₂, r))
    (h₃ : tasklets fuel wait b₂ = some b₃)
    (h₄ : mp1IoctlRemove fuel b₃ (6 * 80 + 60) = some (b₄, r'))
    (h₅ : tasklets fuel wait b₄ = some b₅) (garbage : Nat → Byte) :
    ∃ w', runs fs (fishRest fuel wait junk fd garbage b) w =
      some (some (0, b₅.vmem), w') := by
  have hwait : ∀ {b b' : Fish}, tasklets fuel wait b = some b' →
      Prog.exec (View.call fs) (waitLoop fuel fd wait garbage b) w =
        some (some (garbage, b'), w) := by
    intro b b' hb
    have hrun : runs fs _ w = _ := runs_waitLoop h fuel wait garbage b
    rw [hb] at hrun
    exact hrun
  have hops : (w.slots fd).fotp ≠ none := by
    rw [h.usable.2.2.2]
    exact Option.some_ne_none _
  have hclose : w.call fs (.close fd) = some (w.put fd clearedSlot, ⟨0, fun _ => 0⟩) := by
    simp only [View.call, h.target]
    exact if_pos ⟨h.lo, h.hi, h.usable.2.2.1, hops, hfs.mounted⟩
  refine ⟨w.put fd clearedSlot, ?_⟩
  unfold runs fishRest ece391Close
  rw [Prog.exec_bind (hwait h₁)]
  dsimp only
  rw [h₂]
  dsimp only
  rw [Prog.exec_bind (hwait h₃)]
  dsimp only
  rw [h₄]
  dsimp only
  rw [Prog.exec_bind (hwait h₅)]
  exact (Prog.exec_make_bind hclose).trans rfl

end Main

/-- The files that `fish` opens, in a file system that is mounted. -/
structure FishFiles (fs : FileSys) (d0 d1 : Dentry) : Prop where
  mounted : WellFormed fs
  rtc : ∃ d, readDentryByName fs ⟨0, str "rtc"⟩ = some d ∧ d.type = 0
  found0 : readDentryByName fs ⟨0, str "frame0.txt"⟩ = some d0
  found1 : readDentryByName fs ⟨0, str "frame1.txt"⟩ = some d1
  type0 : d0.type = 2
  type1 : d1.type = 2

/-- `mp1_set_video_mode` finds the video page. -/
theorem runs_mp1SetVideoMode (fs : FileSys) (v : View) {base : Nat}
    (hbase : base / 2 ^ PDE_OFFSET = PDE_INDEX) :
    runs fs (mp1SetVideoMode base) v = some (SCREENST, v) := by
  have hcall : v.call fs (.vidmap base) =
      some (v, ⟨0, fun i => (le32 SCREENST).getD i 0⟩) := by
    rw [View.call, if_pos hbase]
  unfold runs mp1SetVideoMode ece391Vidmap
  rw [Prog.exec_make_bind hcall, if_neg (by decide)]
  rfl

/-- `fish`, started by `execute`, puts the characters of the two frames on its list
and then waits for the RTC. -/
theorem runs_fishStart {fs : FileSys} {d0 d1 : Dentry} (hf : FishFiles fs d0 d1)
    {s : User σ} {a : List Byte} (hlaunched : Launched s.kernel (str "fish") a)
    {columns rows : Nat} (hrounds : Rounds columns rows (textLines fs d0) (textLines fs d1))
    (fuel wait : Nat) {base : Nat} (hbase : base / 2 ^ PDE_OFFSET = PDE_INDEX)
    (junk : BlinkStruct) (garbage vmem : Nat → Byte) :
    ∃ w, OnRtc w 2 ∧
      runs fs (fishStart columns rows fuel wait base junk garbage vmem) (viewOf s a) =
        some ((tasklets fuel wait (framed fs d0 d1
            { junk with onLength := 15, offLength := 15 } (.start vmem))).map
          fun b => .ok (2, garbage, b), w) := by
  obtain ⟨drtc, hrtc, htype⟩ := hf.rtc
  have hown : ∀ v : View, v.name = (viewOf s a).name → ∀ fd, 2 ≤ fd → fd < 8 →
      OwnFd v fd := by
    intro v hv fd hlo hhi
    refine { lo := hlo, hi := hhi, target := if_neg ?_ }
    rintro ⟨hg, -⟩
    have hfirst : s.kernel.curPcb.name 0 = (str "fish").getD 0 0 := hlaunched.name 0
    rw [hv] at hg
    exact absurd (hfirst.symm.trans hg) (by decide)
  have hflags : ∀ fd, 2 ≤ fd → fd < 8 → ((viewOf s a).slots fd).flags = FREE :=
    hlaunched.free
  obtain ⟨hrtcName, hname0, hname1⟩ := literal_names
  have hopen := call_open_found hrtcName.1 hrtcName.2.1 hrtcName.2.2 hrtc
    hlaunched.first
  rw [if_pos (by omega : drtc.type ≤ 2)] at hopen
  have hfree0 := free_next (v := viewOf s a) (.inl rfl)
    (fun fd hlo hhi => absurd hhi (by omega)) (hflags 3 (by decide) (by decide)) drtc
  have hfree1 := free_next (v := (viewOf s a).put 2 (openedSlot drtc)) (.inr rfl)
    (fun fd hlo hhi => by
      obtain rfl : fd = 2 := by omega
      rw [put_slots]
      exact Nat.one_ne_zero)
    (hflags 4 (by decide) (by decide)) d0
  obtain ⟨a0, a1, hadd⟩ := runs_addFrames hf.mounted hname0.1 hname1.1 hname0.2.1
    hname1.2.1 hname0.2.2 hname1.2.2 hf.found0 hf.found1 hf.type0 hf.type1 hfree0 hfree1
    (hown ((viewOf s a).put 2 (openedSlot drtc)) rfl 3 (by decide) (by decide))
    (hown ((viewOf s a).put 2 (openedSlot drtc)) rfl 4 (by decide) (by decide))
    (by decide) hrounds junk (.start vmem)
  have honrtc : OnRtc
      ((((viewOf s a).put 2 (openedSlot drtc)).put (2 + 1) a0).put (3 + 1) a1) 2 := by
    have hslot : ((((viewOf s a).put 2 (openedSlot drtc)).put (2 + 1) a0).put
        (3 + 1) a1).slots 2 = openedSlot drtc := by
      unfold View.put
      dsimp only
      rw [Function.update_of_ne (by decide), Function.update_of_ne (by decide),
        Function.update_self]
    refine { hown _ rfl 2 (by decide) (by decide) with usable := ?_ }
    refine ⟨by decide, by decide, ?_, ?_⟩
    · rw [hslot]
      exact Nat.one_ne_zero
    · rw [hslot]
      unfold openedSlot
      rw [htype]
      rfl
  refine ⟨_, honrtc, ?_⟩
  have hwait : runs fs _ _ = _ := runs_waitLoop honrtc fuel wait garbage (framed fs d0 d1
    { junk with onLength := 15, offLength := 15 } (.start vmem))
  have hmode := runs_mp1SetVideoMode fs (viewOf s a) hbase
  unfold runs at hadd hwait hmode ⊢
  unfold fishStart ece391Open ece391Write
  rw [Prog.exec_bind hmode, if_neg (by decide), Prog.exec_make_bind hopen,
    Prog.exec_bind hadd]
  dsimp only
  rw [Prog.exec_make_bind (call_writeRtc honrtc rateBytes), Prog.exec_bind hwait]
  cases tasklets fuel wait (framed fs d0 d1 _ (.start vmem)) <;> rfl

end MongOS.Proofs.FishFrames
