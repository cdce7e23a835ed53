import MongOS.Verified.Segments
import MongOS.Proofs.UserCalls
import MongOS.Proofs.FileReads
import MongOS.Proofs.DirListing
import MongOS.Proofs.CommandLine
import MongOS.Proofs.Numerals

/-!
# `cat` and `ls`

Both programs copy what a descriptor delivers to the terminal.  On a regular
file the pieces of 1024 bytes that `cat` reads make up the file; on the
directory each read delivers the name field of one entry, up to the first entry
without a name, and behind entry 62 a read fails.

* `copyLoop_file`, `copyLoop_dir` — the loop on a file and on the directory.
* `execute_launches` — `execute` starts a program on the arguments of the command.
* `command_ensures` — what a program computes alone, it computes as a command.
* `cat_command_prints` — `cat` prints what its argument names, or that there is no
  such file, and its exit status says which.
* `ls_command_prints` — `ls` prints the entries of the directory.
-/

namespace MongOS.Proofs.FilePrograms

open MongOS.Model
open MongOS.Verified
open MongOS.Proofs.Arguments
open MongOS.Proofs.CStrings
open MongOS.Proofs.CommandLine
open MongOS.Proofs.ExecuteChecks
open MongOS.Proofs.DescriptorCalls
open MongOS.Proofs.DescriptorTable
open MongOS.Proofs.DirListing
open MongOS.Proofs.FileReads
open MongOS.Proofs.ReadData
open MongOS.Proofs.Numerals
open MongOS.Proofs.UserCalls

variable {σ : Type}

/-! ## Output -/

@[simp] theorem print_nil (v : View) : v.print [] = v := by
  unfold View.print
  rw [List.append_nil]

theorem print_print (v : View) (s t : List Byte) :
    (v.print s).print t = v.print (s ++ t) := by
  unfold View.print
  rw [List.append_assoc]

/-- A program alone, on what it sees. -/
abbrev runs (fs : FileSys) {α : Type} (p : UserProg α) (v : View) :
    Option (α × View) := Prog.exec (View.call fs) p v

/-- The terminal is open on descriptor 1. -/
def Terminal (v : View) : Prop := v.Usable 1 .terminal

theorem Terminal.print {v : View} (h : Terminal v) (s : List Byte) :
    Terminal (v.print s) := h

theorem Terminal.put {v : View} (h : Terminal v) {fd : Int} (hfd : fd ≠ 1)
    (slot : FArray) : Terminal (v.put fd slot) := by
  have hslot : (v.put fd slot).slots 1 = v.slots 1 :=
    Function.update_of_ne (Ne.symm hfd) _ _
  unfold Terminal View.Usable at *
  rw [hslot]
  exact h

theorem call_write {fs : FileSys} {v : View} (h : Terminal v) (buf : Nat → Byte)
    {nbytes : Int} (hn : 0 ≤ nbytes) :
    v.call fs (.write 1 buf nbytes) =
      some (v.print (arrayBytes nbytes.toNat buf), ⟨nbytes, buf⟩) := by
  simp only [View.call]
  exact if_pos ⟨hn, by decide, h⟩

/-- A string in front of its NUL. -/
theorem arrayBytes_string (s : List Byte) :
    arrayBytes (strlen s) (fun i => s.getD i 0) = cstr s := by
  rw [arrayBytes_eq, readAt_getD (strlen_le_length s), cstr_eq_take]

theorem runs_fdputs {fs : FileSys} {v : View} (h : Terminal v) (s : List Byte) :
    runs fs (ece391Fdputs 1 s) v = some ((), v.print (cstr s)) := by
  unfold runs ece391Fdputs ece391Write
  rw [Prog.exec_make_bind (call_write h _ (Int.natCast_nonneg _)), Int.toNat_natCast,
    ece391Strlen, arrayBytes_string]
  rfl

/-! ## The loop -/

section Loop

variable {fs : FileSys} {nbytes : Int} {failed : List Byte}
  {line : Reply → (Nat → Byte) × Int} {fd : Int} {buf : Nat → Byte}
  {v v' : View} {r : Reply}

theorem copyLoop_end (hread : v.call fs (.read fd buf nbytes) = some (v', r))
    (hvalue : r.value = 0) (n : Nat) :
    runs fs (copyLoop nbytes failed line fd (n + 1) buf) v = some (some 0, v') := by
  unfold runs copyLoop ece391Read
  rw [Prog.exec_make_bind hread, if_pos hvalue]
  rfl

theorem copyLoop_fail (hread : v.call fs (.read fd buf nbytes) = some (v', r))
    (hvalue : r.value = -1) (hterm : Terminal v') (n : Nat) :
    runs fs (copyLoop nbytes failed line fd (n + 1) buf) v =
      some (some 3, v'.print (cstr failed)) := by
  unfold runs copyLoop ece391Read
  rw [Prog.exec_make_bind hread, if_neg (by omega), if_pos hvalue,
    Prog.exec_bind (runs_fdputs hterm failed)]
  rfl

theorem copyLoop_next (hread : v.call fs (.read fd buf nbytes) = some (v', r))
    (hvalue : 0 < r.value) (hterm : Terminal v') (hline : 0 ≤ (line r).2) (n : Nat) :
    runs fs (copyLoop nbytes failed line fd (n + 1) buf) v =
      runs fs (copyLoop nbytes failed line fd n (line r).1)
        (v'.print (arrayBytes (line r).2.toNat (line r).1)) := by
  unfold runs
  rw [copyLoop]
  unfold ece391Read ece391Write
  rw [Prog.exec_make_bind hread, if_neg (by omega), if_neg (by omega)]
  dsimp only
  rw [Prog.exec_make_bind (call_write hterm _ hline), if_neg (by dsimp only; omega)]

end Loop

/-! ## Files -/

theorem fileBytes_eq (fs : FileSys) (inode : Inode) :
    fileBytes fs inode = readAt (fileByte fs inode) 0 inode.size :=
  arrayBytes_eq inode.size (fileByte fs inode)

/-- What a read at a position delivers are the next bytes of the file. -/
theorem delivered_bytes (fs : FileSys) (inode : Inode) (pos : Nat) (nbytes : Int)
    (buf : Nat → Byte) :
    readAt (fillBuffer fs inode pos nbytes buf) 0 (delivered inode pos nbytes) =
      ((fileBytes fs inode).drop pos).take (delivered inode pos nbytes) := by
  have hle : delivered inode pos nbytes ≤ inode.size - pos := Nat.min_le_right ..
  obtain ⟨rest, hrest⟩ := Nat.le.dest hle
  rw [fileBytes_eq, drop_readAt, ← hrest, readAt_append, List.take_left'
    (length_readAt ..), Nat.zero_add, ← Nat.add_zero pos, ← readAt_shift, Nat.add_zero]
  apply readAt_congr
  intro j _ hj
  exact if_pos (by omega)

/-- A descriptor on a regular file. -/
def fileSlot (i pos : Nat) : FArray :=
  { fotp := some .file, inode := i, filePos := pos, flags := OPEN }

theorem put_put (v : View) (fd : Int) (a b : FArray) :
    (v.put fd a).put fd b = v.put fd b := by
  unfold View.put
  rw [Function.update_idem]

@[simp] theorem put_slots (v : View) (fd : Int) (slot : FArray) :
    (v.put fd slot).slots fd = slot := Function.update_self ..

/-- The descriptors that a read may use under their own numbers. -/
structure OwnFd (v : View) (fd : Int) : Prop where
  lo : 2 ≤ fd
  hi : fd < 8
  target : targetFd v.name fd = fd

theorem call_readFile {fs : FileSys} (hfs : WellFormed fs) {v : View} {fd : Int}
    (hfd : OwnFd v fd) {i pos : Nat} (hsize : (fs.inodeSt i).size ≤ MAX_FILE_SIZE)
    (hpos : pos ≤ (fs.inodeSt i).size) (buf : Nat → Byte) (nbytes : Int)
    (hlo : 0 ≤ nbytes) (hhi : nbytes < 2 ^ 31) :
    (v.put fd (fileSlot i pos)).call fs (.read fd buf nbytes) =
      some (v.put fd (fileSlot i (pos + delivered (fs.inodeSt i) pos nbytes)),
        ⟨delivered (fs.inodeSt i) pos nbytes,
          fillBuffer fs (fs.inodeSt i) pos nbytes buf⟩) := by
  have htarget : targetFd (v.put fd (fileSlot i pos)).name fd = fd := hfd.target
  have hfd2 := hfd.lo
  have hread := readF_spec hfs buf hsize hpos hlo hhi
  simp only [View.call, htarget, put_slots]
  rw [if_pos ⟨hlo, by omega, hfd.hi, by omega, Nat.one_ne_zero⟩]
  simp only [fileSlot, Option.bind_some, View.readSlot, hread, Option.map_some, put_put]

/-- The loop of `cat` prints the rest of the file. -/
theorem copyLoop_file {fs : FileSys} (hfs : WellFormed fs) {v : View} {fd : Int}
    (hterm : Terminal v) (hfd : OwnFd v fd) {i : Nat}
    (hsize : (fs.inodeSt i).size ≤ MAX_FILE_SIZE) {n : Nat} (pos : Nat)
    (hpos : pos ≤ (fs.inodeSt i).size) (hn : (fs.inodeSt i).size + 1024 ≤ pos + 1024 * n)
    (buf : Nat → Byte) :
    runs fs (catLoop fd n buf) (v.put fd (fileSlot i pos)) =
      some (some 0, (v.put fd (fileSlot i (fs.inodeSt i).size)).print
        ((fileBytes fs (fs.inodeSt i)).drop pos)) := by
  induction n generalizing v pos buf with
  | zero => omega
  | succ n ih =>
      have hfd1 : fd ≠ 1 := by
        have hlo := hfd.lo
        omega
      have hread := call_readFile hfs hfd hsize hpos buf 1024 (by decide) (by decide)
      have hbytes := delivered_bytes fs (fs.inodeSt i) pos 1024 buf
      have hcount : delivered (fs.inodeSt i) pos 1024 =
          min 1024 ((fs.inodeSt i).size - pos) := rfl
      rcases Nat.eq_zero_or_pos (delivered (fs.inodeSt i) pos 1024) with hzero | hmore
      · have hend : pos = (fs.inodeSt i).size := by omega
        have hlength : (fileBytes fs (fs.inodeSt i)).length = pos := by
          rw [fileBytes_eq, length_readAt, hend]
        rw [hzero] at hread
        unfold catLoop
        rw [copyLoop_end hread rfl, List.drop_of_length_le (Nat.le_of_eq hlength),
          print_nil, Nat.add_zero, hend]
      · have hvalue : (0 : Int) < delivered (fs.inodeSt i) pos 1024 := by omega
        unfold catLoop at ih ⊢
        rw [copyLoop_next hread hvalue (hterm.put hfd1 _) (Int.natCast_nonneg _)]
        have hnext := ih (v := v.print (readAt (fillBuffer fs (fs.inodeSt i) pos 1024
            buf) 0 (delivered (fs.inodeSt i) pos 1024))) (hterm.print _)
          { hfd with target := hfd.target }
          (pos + delivered (fs.inodeSt i) pos 1024) (by omega) (by omega)
          (fillBuffer fs (fs.inodeSt i) pos 1024 buf)
        dsimp only
        rw [Int.toNat_natCast, arrayBytes_eq]
        refine hnext.trans ?_
        show some (some 0, ((v.put fd _).print _).print _) = _
        rw [print_print, hbytes, ← List.drop_drop, List.take_append_drop]

/-! ## The directory -/

theorem mycopy_words (buf src : Nat → Byte) {n i : Nat} (hn : n % 4 = 0)
    (hi : i < n) : mycopy buf src n i = src i := by
  unfold mycopy
  rw [hn, mycopySlice, mycopyWords_spec, if_pos (by omega)]

/-- The bytes of an entry's name field. -/
def entryField (d : Dentry) : List Byte :=
  arrayBytes FILE_NAME fun i => d.raw.getD i 0

/-- The buffer with a byte behind the name field. -/
theorem arrayBytes_terminated (b : Nat → Byte) (c : Byte) :
    arrayBytes SBUFSIZE (Function.update b 32 c) = arrayBytes 32 b ++ [c] := by
  rw [arrayBytes_eq, arrayBytes_eq]
  refine (readAt_append _ 0 32 1).trans (congrArg₂ _ (readAt_congr fun j _ hj => ?_) ?_)
  · exact Function.update_of_ne (by omega) _ _
  · exact congrArg (· :: []) (Function.update_self ..)

/-- A descriptor on the directory. -/
def dirSlot (i pos : Nat) : FArray :=
  { fotp := some .dir, inode := i, filePos := pos, flags := OPEN }

theorem call_readDir {fs : FileSys} {boot : BootBlock} (hboot : fs.bootB = some boot)
    {v : View} {fd : Int} (hfd : OwnFd v fd) (i pos : Nat) (buf : Nat → Byte)
    {nbytes : Int} (hlo : 0 ≤ nbytes) :
    (v.put fd (dirSlot i pos)).call fs (.read fd buf nbytes) =
      some (v.put fd (dirSlot i (readD boot pos buf nbytes).2.1),
        ⟨(readD boot pos buf nbytes).1, (readD boot pos buf nbytes).2.2⟩) := by
  have htarget : targetFd (v.put fd (dirSlot i pos)).name fd = fd := hfd.target
  have hfd2 := hfd.lo
  simp only [View.call, htarget, put_slots]
  rw [if_pos ⟨hlo, by omega, hfd.hi, by omega, Nat.one_ne_zero⟩]
  simp only [dirSlot, Option.bind_some, View.readSlot, hboot, Option.map_some, put_put]

section Entries

variable {fs : FileSys} {boot : BootBlock} {v : View} {fd : Int} {pos : Nat}
  {nbytes : Int}

/-- A read at an entry with a name. -/
theorem call_readEntry (hboot : fs.bootB = some boot) (hfd : OwnFd v fd)
    (hlo : 32 ≤ nbytes) (hhi : nbytes < 2 ^ 32) (hword : nbytes % 4 = 0)
    (hpos : pos < MAX_FILES) (hnamed : Named (boot.dirEntries pos)) (i : Nat)
    (buf : Nat → Byte) :
    ∃ b, (v.put fd (dirSlot i pos)).call fs (.read fd buf nbytes) =
        some (v.put fd (dirSlot i (pos + 1)), ⟨32, b⟩) ∧
      arrayBytes 32 b = entryField (boot.dirEntries pos) := by
  have hmax : MAX_FILES = 63 := rfl
  have hread := call_readDir hboot hfd i pos buf (Int.le_trans (by decide) hlo)
  have hnext : (pos + 1) % 2 ^ 32 = pos + 1 := Nat.mod_eq_of_lt (by omega)
  rw [readD_entry boot buf nbytes hpos hnamed] at hread
  simp only [hnext] at hread
  refine ⟨_, hread, ?_⟩
  rw [entryField, arrayBytes_eq, arrayBytes_eq]
  apply readAt_congr
  intro j _ hj
  exact mycopy_words _ _ (by omega) (by omega)

/-- A read at an entry without a name. -/
theorem call_readUnnamed (hboot : fs.bootB = some boot) (hfd : OwnFd v fd)
    (hlo : 32 ≤ nbytes) (hpos : pos < MAX_FILES)
    (hnamed : ¬ Named (boot.dirEntries pos)) (i : Nat) (buf : Nat → Byte) :
    (v.put fd (dirSlot i pos)).call fs (.read fd buf nbytes) =
      some (v.put fd (dirSlot i pos), ⟨0, buf⟩) := by
  have hread := call_readDir hboot hfd i pos buf (Int.le_trans (by decide) hlo)
  have hstop : readD boot pos buf nbytes = (0, pos, buf) := by
    have hinside : ¬ MAX_FILES ≤ pos := by omega
    unfold Named at hnamed
    simp [readD, realDirRead, hinside, not_not.1 hnamed]
  rw [hstop] at hread
  exact hread

/-- A read behind the last entry of the boot block. -/
theorem call_readBehind (hboot : fs.bootB = some boot) (hfd : OwnFd v fd)
    (hlo : 32 ≤ nbytes) (hpos : MAX_FILES ≤ pos) (i : Nat) (buf : Nat → Byte) :
    (v.put fd (dirSlot i pos)).call fs (.read fd buf nbytes) =
      some (v.put fd (dirSlot i pos), ⟨-1, buf⟩) := by
  have hread := call_readDir hboot hfd i pos buf (Int.le_trans (by decide) hlo)
  have hbehind : readD boot pos buf nbytes = (-1, pos, buf) := by
    simp [readD, realDirRead, hpos]
  rw [hbehind] at hread
  exact hread

end Entries

/-- The entries that a listing shows: up to the first without a name. -/
def listed (boot : BootBlock) (pos n : Nat) : List Dentry :=
  ((List.range' pos n).map boot.dirEntries).takeWhile fun d => decide (Named d)

theorem listed_succ (boot : BootBlock) (pos n : Nat) :
    listed boot pos (n + 1) =
      if Named (boot.dirEntries pos) then
        boot.dirEntries pos :: listed boot (pos + 1) n
      else [] := by
  unfold listed
  rw [List.range'_succ, List.map_cons, List.takeWhile_cons]
  simp only [decide_eq_true_eq]

/-- A listing that reaches the end of the boot block fails there. -/
def endOf (boot : BootBlock) (pos n : Nat) (failed : List Byte) : List Byte × Int :=
  if (listed boot pos n).length = n then (failed, 3) else ([], 0)

theorem endOf_succ {boot : BootBlock} {pos : Nat} (n : Nat) (failed : List Byte)
    (hnamed : Named (boot.dirEntries pos)) :
    endOf boot pos (n + 1) failed = endOf boot (pos + 1) n failed := by
  unfold endOf
  rw [listed_succ, if_pos hnamed]
  simp only [List.length_cons, Nat.add_left_inj]

/-- Copying the directory, when `line` makes the text `text` of a name field. -/
theorem copyLoop_dir {fs : FileSys} {boot : BootBlock} (hboot : fs.bootB = some boot)
    {v : View} {fd : Int} (hterm : Terminal v) (hfd : OwnFd v fd) {nbytes : Int}
    (hlo : 32 ≤ nbytes) (hhi : nbytes < 2 ^ 32) (hword : nbytes % 4 = 0)
    (line : Reply → (Nat → Byte) × Int) (text : List Byte → List Byte)
    (hline : ∀ b, 0 ≤ (line ⟨32, b⟩).2 ∧
      arrayBytes (line ⟨32, b⟩).2.toNat (line ⟨32, b⟩).1 = text (arrayBytes 32 b))
    (failed : List Byte) (i : Nat) {n m : Nat} (pos : Nat) (hpos : pos + m = MAX_FILES)
    (hn : m < n) (buf : Nat → Byte) :
    ∃ slot, runs fs (copyLoop nbytes failed line fd n buf) (v.put fd (dirSlot i pos)) =
      some (some (endOf boot pos m (cstr failed)).2,
        (v.put fd slot).print
          ((listed boot pos m).flatMap (fun d => text (entryField d)) ++
            (endOf boot pos m (cstr failed)).1)) := by
  have hfd1 : fd ≠ 1 := by
    have hlo := hfd.lo
    omega
  have hmax : MAX_FILES = 63 := rfl
  induction n generalizing v m pos buf with
  | zero => omega
  | succ n ih =>
      cases m with
      | zero =>
          have hbehind : MAX_FILES ≤ pos := by omega
          have hread := call_readBehind (v := v) hboot hfd hlo hbehind i buf
          refine ⟨dirSlot i pos, ?_⟩
          rw [copyLoop_fail hread rfl (hterm.put hfd1 _)]
          rfl
      | succ m =>
          by_cases hnamed : Named (boot.dirEntries pos)
          · obtain ⟨b, hread, hfield⟩ :=
              call_readEntry hboot hfd hlo hhi hword (by omega) hnamed i buf
            obtain ⟨hnonneg, htext⟩ := hline b
            obtain ⟨slot, hrest⟩ := ih
              (v := v.print (text (entryField (boot.dirEntries pos)))) (hterm.print _)
              { hfd with target := hfd.target } (m := m) (pos + 1) (by omega)
              (by omega) (line ⟨32, b⟩).1
            refine ⟨slot, ?_⟩
            have hvalue : (0 : Int) < 32 := by decide
            rw [copyLoop_next hread hvalue (hterm.put hfd1 _) hnonneg, htext, hfield]
            refine hrest.trans ?_
            show some (_, ((v.put fd slot).print _).print _) = _
            rw [print_print, listed_succ, if_pos hnamed, endOf_succ _ _ hnamed,
              List.flatMap_cons, List.append_assoc]
          · have hread := call_readUnnamed hboot hfd hlo (by omega) hnamed i buf
            refine ⟨dirSlot i pos, ?_⟩
            rw [copyLoop_end hread rfl]
            simp [endOf, listed_succ, hnamed]

/-! ## Whole programs -/

/-- What the listing of the directory puts on the terminal, and the exit status. -/
def listing (boot : BootBlock) (text : List Byte → List Byte) (failed : List Byte) :
    List Byte × Int :=
  ((listed boot 0 MAX_FILES).flatMap (fun d => text (entryField d)) ++
    (endOf boot 0 MAX_FILES failed).1, (endOf boot 0 MAX_FILES failed).2)

/-- A process that `execute` has just started: its name and its arguments are
stored, the terminal is on the first two descriptors, and the others are free. -/
structure Launched (k : Kernel σ) (w a : List Byte) : Prop where
  name : ∀ j, k.curPcb.name j = w.getD j 0
  args : Stored k a
  terminal : ∀ fd, fd = 0 ∨ fd = 1 →
    (slotOf k fd).flags = OPEN ∧ (slotOf k fd).fotp = some .terminal
  free : ∀ fd, 2 ≤ fd → fd < 8 → (slotOf k fd).flags = FREE

/-- A command that `execute` accepts starts its first word on its arguments. -/
theorem execute_launches {fs : FileSys} {stk : CStr} {k : Kernel σ} {before : Byte}
    {w spaces rest : List Byte} (h : Parsed w spaces rest) (hw : w.length ≤ FILE_NAME)
    {esp ebp : σ} {pid : Int} {entAdd : Nat}
    (henter : (execute fs stk k (some ⟨before, w ++ spaces ++ rest⟩) esp ebp).2 =
      .enter pid entAdd) :
    Launched (finishExecute
      (execute fs stk k (some ⟨before, w ++ spaces ++ rest⟩) esp ebp)) w rest := by
  have hstarted : Started fs (finishExecute
      (execute fs stk k (some ⟨before, w ++ spaces ++ rest⟩) esp ebp)) :=
    ⟨stk, k, _, esp, ebp, pid, entAdd, henter, rfl⟩
  obtain ⟨c, d, hc, hfound⟩ := found_of_enter henter
  cases hc
  obtain ⟨i, -, -, -, -, hload⟩ := execute_enters hfound henter
  have hcommand := handleCommand_fits h hw
  have hcur : (finishExecute
      (execute fs stk k (some ⟨before, w ++ spaces ++ rest⟩) esp ebp)).curPcb =
      (installed k ⟨before, w ++ spaces ++ rest⟩ i esp ebp).curPcb := by
    generalize execute fs stk k (some ⟨before, w ++ spaces ++ rest⟩) esp ebp = r
      at henter hload
    obtain ⟨k', res⟩ := r
    subst henter
    subst hload
    rfl
  have hrunning : (installed k ⟨before, w ++ spaces ++ rest⟩ i esp ebp).running =
      (i : Int) + 1 := by
    unfold installed installProcess
    dsimp only
    split <;> exact running_setRunning _ _
  have hname := installProcess_proj Pcb.name (fun _ _ _ => rfl) (fun _ _ => rfl)
    (getPid k).1 ((i : Int) + 1) (fun j => w.getD j 0) (fun j => rest.getD j 0) esp ebp
    ((i : Int) + 1)
  have hargs := installProcess_proj Pcb.args (fun _ _ _ => rfl) (fun _ _ => rfl)
    (getPid k).1 ((i : Int) + 1) (fun j => w.getD j 0) (fun j => rest.getD j 0) esp ebp
    ((i : Int) + 1)
  have hfits := h.fits
  have hword := List.length_pos_iff.2 h.nonempty
  refine
    { name := fun j => ?_
      args := { args := fun j => ?_, noNul := fun hnul => ?_, short := ?_ }
      terminal := hstarted.table.std, free := fun fd hlo hhi => ?_ }
  · rw [hcur, Kernel.curPcb, hrunning, installed, hcommand, hname, if_pos rfl]
    rfl
  · rw [hcur, Kernel.curPcb, hrunning, installed, hcommand, hargs, if_pos rfl]
    rfl
  · exact h.noNul (List.mem_append_right _ hnul)
  · unfold MAX_ARG_LENGTH at hfits
    rw [List.length_append, List.length_append] at hfits
    omega
  · show ((Kernel.curPcb _).farray fd).flags = FREE
    rw [hcur]
    show (slotOf (installed _ _ _ _ _) fd).flags = FREE
    rw [installed, installProcess_slot]
    exact if_neg (by omega)

/-- What a program sees in the kernel when it starts. -/
def viewOf (s : User σ) (a : List Byte) : View :=
  { name := s.kernel.curPcb.name
    args := a
    slots := slotOf s.kernel
    wrote := s.wrote }

namespace Launched

variable {s : User σ} {w a : List Byte}

theorem sees (h : Launched s.kernel w a) : Sees (viewOf s a) s :=
  { name := rfl, args := h.args, slots := fun _ => rfl, wrote := rfl }

theorem stdout (h : Launched s.kernel w a) : Terminal (viewOf s a) := by
  obtain ⟨hflags, hops⟩ := h.terminal 1 (.inr rfl)
  refine ⟨by decide, by decide, ?_, hops⟩
  show (slotOf s.kernel 1).flags ≠ FREE
  rw [hflags]
  exact Nat.one_ne_zero

theorem first (h : Launched s.kernel w a) : (viewOf s a).free = some 2 := by
  have hfree : (slotOf s.kernel 2).flags = FREE := h.free 2 (by decide) (by decide)
  unfold View.free
  rw [List.find?_cons_of_pos]
  exact beq_iff_eq.2 hfree

/-- Descriptor 2 is used under its own number by every program. -/
theorem ownFd (_ : Launched s.kernel w a) : OwnFd (viewOf s a) 2 :=
  { lo := by decide
    hi := by decide
    target := by
      unfold targetFd
      split <;> rfl }

end Launched

/-- What a program does when it sees the kernel as it is at its start, it does when a
command starts it, whatever others do meanwhile. -/
theorem command_ensures {fs : FileSys} {w spaces a : List Byte}
    (hparsed : Parsed w spaces a) (hw : w.length ≤ FILE_NAME) {stk : CStr}
    {k : Kernel σ} {before : Byte} {esp ebp : σ} {pid : Int} {entAdd : Nat}
    (henter : (execute fs stk k (some ⟨before, w ++ spaces ++ a⟩) esp ebp).2 =
      .enter pid entAdd) (around : Around) {α : Type} {p : UserProg α}
    {P : α → List Byte → Prop}
    (hrun : ∀ k' : Kernel σ, Launched k' w a →
      ∃ r v, runs fs p (viewOf ⟨k', []⟩ a) = some (r, v) ∧ P r v.wrote) :
    Prog.Ensures Undisturbed (perform fs around) p
      { kernel := finishExecute
          (execute fs stk k (some ⟨before, w ++ spaces ++ a⟩) esp ebp)
        wrote := [] }
      fun r t => P r t.wrote := by
  have h := execute_launches hparsed hw henter
  generalize finishExecute _ = k' at h
  have hstart : Launched (User.mk k' []).kernel w a := h
  obtain ⟨r, v, hexec, hP⟩ := hrun k' h
  refine ((perform_simulates fs around).ensures hstart.sees hexec).mono fun r' t ht => ?_
  rw [ht.1, ht.2.wrote]
  exact hP

section Open

variable {fs : FileSys} {v : View} {filename a : List Byte}

theorem find_string (hnul : cstr filename = a) (ha : a ≠ []) :
    readDentryByName fs ⟨0, filename⟩ = readDentryByName fs ⟨0, a⟩ := by
  have hself : cstr a = a := cstr_of_zero_notMem (hnul ▸ zero_notMem_cstr filename)
  refine find_congr fs (hnul.symm ▸ ha) ?_
  rw [hnul, hself]

theorem call_open_found (hnul : 0 ∈ filename) (hname : cstr filename = a)
    (ha : a ≠ []) {d : Dentry} (hfound : readDentryByName fs ⟨0, a⟩ = some d) {fd : Int}
    (hfree : v.free = some fd) :
    v.call fs (.open filename) =
      some (v.put fd (openedSlot d), ⟨if d.type ≤ 2 then fd else -1, fun _ => 0⟩) := by
  simp only [View.call, find_string hname ha, hfound, hfree]
  exact if_pos ⟨hnul, hname.symm ▸ ha⟩

theorem call_open_missing (hnul : 0 ∈ filename) (hname : cstr filename = a)
    (ha : a ≠ []) (hnone : readDentryByName fs ⟨0, a⟩ = none) :
    v.call fs (.open filename) = some (v, ⟨-1, fun _ => 0⟩) := by
  simp only [View.call, find_string hname ha, hnone]
  exact if_pos ⟨hnul, hname.symm ▸ ha⟩

end Open

/-- What `cat` prints for an argument, and its exit status. -/
def catOutcome (fs : FileSys) (boot : BootBlock) (a : List Byte) : List Byte × Int :=
  match readDentryByName fs ⟨0, a⟩ with
  | none => (str "file not found\n", 2)
  | some d =>
      if d.type = 0 then ([], 0)
      else if d.type = 1 then listing boot id (str "file read failed\n")
      else if d.type = 2 then (fileBytes fs (fs.inodeSt d.indexNode), 0)
      else (str "file not found\n", 2)

/-- A read of the RTC delivers nothing. -/
theorem call_readRtc (fs : FileSys) {v : View} {fd : Int} (hfd : OwnFd v fd) {i : Nat}
    (buf : Nat → Byte) {nbytes : Int} (hlo : 0 ≤ nbytes) {slot : FArray}
    (hslot : slot = { fotp := some .rtc, inode := i, filePos := 0, flags := OPEN }) :
    (v.put fd slot).call fs (.read fd buf nbytes) = some (v.put fd slot, ⟨0, buf⟩) := by
  have htarget : targetFd (v.put fd slot).name fd = fd := hfd.target
  have hfd2 := hfd.lo
  subst hslot
  simp only [View.call, htarget, put_slots]
  rw [if_pos ⟨hlo, by omega, hfd.hi, by omega, Nat.one_ne_zero⟩]
  simp only [Option.bind_some, View.readSlot, Option.map_some, put_put]

/-- The loop of `cat` on what its argument names. -/
theorem runs_catLoop {fs : FileSys} (hfs : WellFormed fs) {boot : BootBlock}
    (hboot : fs.bootB = some boot) {v : View} (hterm : Terminal v) {fd : Int}
    (hfd : OwnFd v fd) {a : List Byte} {d : Dentry}
    (hfound : readDentryByName fs ⟨0, a⟩ = some d) (htype : d.type ≤ 2) {rounds : Nat}
    (hrounds : 4093 ≤ rounds) (buf : Nat → Byte) :
    ∃ v', runs fs (catLoop fd rounds buf) (v.put fd (openedSlot d)) =
        some (some (catOutcome fs boot a).2, v') ∧
      v'.wrote = v.wrote ++ (catOutcome fs boot a).1 := by
  have hmax : MAX_FILE_SIZE = 4190208 := rfl
  have htypes : d.type = 0 ∨ d.type = 1 ∨ d.type = 2 := by omega
  unfold catOutcome
  rw [hfound]
  dsimp only
  rcases htypes with hrtc | hdir | hfile
  · rw [if_pos hrtc]
    obtain ⟨n, rfl⟩ := Nat.exists_eq_succ_of_ne_zero (n := rounds) (by omega)
    refine ⟨_, copyLoop_end
      (call_readRtc fs hfd (i := d.indexNode) buf (by decide) ?_) rfl n,
      (List.append_nil _).symm⟩
    unfold openedSlot
    rw [hrtc]
    rfl
  · rw [if_neg (by omega), if_pos hdir]
    have hslot : openedSlot d = dirSlot d.indexNode 0 := by
      unfold openedSlot
      rw [hdir]
      rfl
    have hlo : (32 : Int) ≤ 1024 := by decide
    obtain ⟨slot, hloop⟩ := copyLoop_dir hboot hterm hfd hlo (by decide)
      (by decide) (fun r => (r.buf, r.value)) id
      (fun _ => ⟨Int.natCast_nonneg 32, rfl⟩) (literal "file read failed\n")
      d.indexNode (n := rounds) (m := MAX_FILES) 0 (Nat.zero_add _)
      (by unfold MAX_FILES; omega) buf
    have hliteral : cstr (literal "file read failed\n") = str "file read failed\n" := by
      decide
    rw [hliteral] at hloop
    rw [hslot]
    exact ⟨_, hloop, rfl⟩
  · rw [if_neg (by omega), if_neg (by omega), if_pos hfile]
    have hslot : openedSlot d = fileSlot d.indexNode 0 := by
      unfold openedSlot
      rw [hfile]
      rfl
    have hsize := hfs.size_le hfound hfile
    have hloop := copyLoop_file hfs hterm hfd hsize (n := rounds) 0 (Nat.zero_le _)
      (by omega) buf
    rw [hslot]
    exact ⟨_, hloop, rfl⟩

/-- The array that `getargs` has filled. -/
theorem getargs_string {a : List Byte} (hnul : 0 ∉ a) (hshort : a.length ≤ 127)
    {n : Nat} (hn : 128 ≤ n) (buf : Nat → Byte) :
    0 ∈ arrayBytes n (fun j => if j < n then a.getD j 0 else buf j) ∧
      cstr (arrayBytes n fun j => if j < n then a.getD j 0 else buf j) = a := by
  have harray : (arrayBytes n fun j => if j < n then a.getD j 0 else buf j) =
      a ++ 0 :: List.replicate (n - a.length - 1) 0 := by
    have hcount : n - a.length = n - a.length - 1 + 1 := by omega
    rw [← List.replicate_succ, ← hcount, ← FnameReads.arrayBytes_getD (by omega)]
    apply List.map_congr_left
    intro j hj
    exact if_pos (List.mem_range.1 hj)
  rw [harray]
  exact ⟨List.mem_append_right _ (List.mem_cons_self ..), cstr_append_zero hnul⟩

theorem runs_cat {fs : FileSys} (hfs : WellFormed fs) {boot : BootBlock}
    (hboot : fs.bootB = some boot) {v : View} (hterm : Terminal v) {fd : Int}
    (hfree : v.free = some fd) (hfd : OwnFd v fd) (htext : HasText v.args)
    (hnul : 0 ∉ v.args) (hshort : v.args.length ≤ 127) {rounds : Nat}
    (hrounds : 4093 ≤ rounds) (buf : Nat → Byte) :
    ∃ v', runs fs (cat rounds buf) v =
        some (some (catOutcome fs boot v.args).2, v') ∧
      v'.wrote = v.wrote ++ (catOutcome fs boot v.args).1 := by
  have hne : v.args ≠ [] := by
    obtain ⟨b, hb, -⟩ := htext
    exact List.ne_nil_of_mem hb
  have hargs : v.call fs (.getargs buf 1024) =
      some (v, ⟨0, fun j => if j < 1024 then v.args.getD j 0 else buf j⟩) := by
    simp only [View.call]
    exact if_pos ⟨htext, by omega, by decide⟩
  obtain ⟨hzero, hname⟩ := getargs_string hnul hshort (n := 1024) (by decide) buf
  have hliteral : cstr (literal "file not found\n") = str "file not found\n" := by
    decide
  unfold runs cat ece391Getargs ece391Open
  rw [Prog.exec_make_bind hargs, if_neg (not_not.2 rfl)]
  cases hfound : readDentryByName fs ⟨0, v.args⟩ with
  | none =>
      have hopen := call_open_missing (v := v) hzero hname hne hfound
      rw [Prog.exec_make_bind hopen, if_pos rfl,
        Prog.exec_bind (runs_fdputs hterm _), hliteral, catOutcome, hfound]
      exact ⟨_, rfl, rfl⟩
  | some d =>
      have hopen := call_open_found hzero hname hne hfound hfree
      rw [Prog.exec_make_bind hopen]
      have hlo := hfd.lo
      by_cases htype : d.type ≤ 2
      · rw [if_pos htype, if_neg (by dsimp only; omega)]
        exact runs_catLoop hfs hboot hterm hfd hfound htype hrounds _
      · rw [if_neg htype, if_pos rfl,
          Prog.exec_bind (runs_fdputs (hterm.put (by omega) _) _), hliteral, catOutcome,
          hfound]
        dsimp only
        rw [if_neg (by omega), if_neg (by omega), if_neg (by omega)]
        exact ⟨_, rfl, rfl⟩

/-! ## An image with programs -/

/-- An entry whose name does not fill the field. -/
def namedEntry (name : List Byte) (type indexNode : Nat) : Dentry :=
  { filename := name ++ List.replicate (32 - name.length) 0
    type := type
    indexNode := indexNode
    reserved := List.replicate 24 0 }

/-- The entries `.`, `cat`, `ls`, `grep` and `note`. -/
def toolsBoot : BootBlock :=
  { numDirEntries := 5
    numInodes := 2
    numDataBlocks := 2
    dirEntries := fun i =>
      [namedEntry [46] 1 0, namedEntry [99, 97, 116] 2 0, namedEntry [108, 115] 2 0,
        namedEntry [103, 114, 101, 112] 2 0,
        namedEntry [110, 111, 116, 101] 2 1].getD i blankEntry }

/-- Three programs and a note of the lines `ab` and `acd`. -/
def toolsImage : FileSys :=
  { bootB := some toolsBoot
    inodeSt := fun i =>
      { size := if i = 0 then 40 else 7, dataBlocks := fun _ => i }
    datab := fun i =>
      if i < BLOCK_SIZE then SampleImage.programBytes.getD i 0
      else [97, 98, 10, 97, 99, 100, 10].getD (i - BLOCK_SIZE) 0 }

theorem wellFormed_toolsImage : WellFormed toolsImage :=
  { mounted := Option.some_ne_none _
    sizes := by
      intro boot hboot i hi htype
      have hmax : MAX_FILE_SIZE = 4190208 := rfl
      show (if _ then 40 else 7) ≤ MAX_FILE_SIZE
      split <;> omega }

/-- The command `cat a` prints the file that `a` names, or the name fields of the
directory, or that there is no such file, and nothing else; this is what ends up
on its terminal whatever other processes and interrupts do meanwhile. -/
theorem cat_command_prints {fs : FileSys} (hfs : WellFormed fs) {boot : BootBlock}
    (hboot : fs.bootB = some boot) {spaces a : List Byte}
    (hparsed : Parsed (str "cat") spaces a) (htext : HasText a) {stk : CStr}
    {k : Kernel σ} {before : Byte} {esp ebp : σ} {pid : Int} {entAdd : Nat}
    (henter : (execute fs stk k (some ⟨before, str "cat" ++ spaces ++ a⟩) esp ebp).2 =
      .enter pid entAdd) (around : Around) {rounds : Nat} (hrounds : 4093 ≤ rounds)
    (buf : Nat → Byte) :
    Prog.Ensures Undisturbed (perform fs around) (cat rounds buf)
      { kernel := finishExecute
          (execute fs stk k (some ⟨before, str "cat" ++ spaces ++ a⟩) esp ebp)
        wrote := [] }
      fun status t => status = some (catOutcome fs boot a).2 ∧
        t.wrote = (catOutcome fs boot a).1 := by
  refine command_ensures (P := fun status out =>
    status = some (catOutcome fs boot a).2 ∧ out = (catOutcome fs boot a).1)
    hparsed (by decide) henter around fun k' h => ?_
  have hstart : Launched (User.mk k' []).kernel (str "cat") a := h
  obtain ⟨v, hrun, hwrote⟩ := runs_cat hfs hboot hstart.stdout hstart.first hstart.ownFd
    htext h.args.noNul h.args.short hrounds buf
  exact ⟨_, v, hrun, rfl, hwrote⟩

/-- The command `cat note`. -/
theorem cat_note_prints :
    Prog.Ensures Undisturbed (perform toolsImage bareAround)
      (cat 4093 fun _ => 0)
      { kernel := finishExecute (execute toolsImage ⟨0, []⟩ (SampleImage.idleKernel 0)
          (some ⟨0, str "cat" ++ [32] ++ [110, 111, 116, 101]⟩) 0 0)
        wrote := [] }
      fun status t =>
        status = some (catOutcome toolsImage toolsBoot [110, 111, 116, 101]).2 ∧
        t.wrote = (catOutcome toolsImage toolsBoot [110, 111, 116, 101]).1 := by
  have hcat : str "cat" = [99, 97, 116] := by decide
  have hparsed : Parsed (str "cat") [32] [110, 111, 116, 101] :=
    { noNul := by decide, nonempty := by decide, word := by decide, gap := by simp
      start := by decide, longest := by decide, fits := by decide }
  have henter : (execute toolsImage ⟨0, []⟩ (SampleImage.idleKernel 0)
      (some ⟨0, str "cat" ++ [32] ++ [110, 111, 116, 101]⟩) 0 0).2 =
      .enter 1 0x8048000 := by
    rw [hcat]
    rfl
  exact cat_command_prints wellFormed_toolsImage rfl hparsed (by decide) henter
    bareAround (Nat.le_refl _) fun _ => 0

example : catOutcome toolsImage toolsBoot [110, 111, 116, 101] =
    (str "ab\nacd\n", 0) := by decide

/-- The literal that names the directory is a string. -/
theorem literal_dot : 0 ∈ literal "." ∧ cstr (literal ".") = str "." := by
  decide

theorem runs_ls {fs : FileSys} {boot : BootBlock} (hboot : fs.bootB = some boot)
    {v : View} (hterm : Terminal v) {fd : Int} (hfree : v.free = some fd)
    (hfd : OwnFd v fd) {d : Dentry} (hdot : readDentryByName fs ⟨0, str "."⟩ = some d)
    (hdir : d.type = 1) {rounds : Nat} (hrounds : 64 ≤ rounds) (buf : Nat → Byte) :
    ∃ v', runs fs (ls rounds buf) v =
        some (some (listing boot (· ++ [10]) (str "directory entry read failed\n")).2,
          v') ∧
      v'.wrote = v.wrote ++
        (listing boot (· ++ [10]) (str "directory entry read failed\n")).1 := by
  have hopen := call_open_found literal_dot.1 literal_dot.2 (by decide) hdot hfree
  have hslot : openedSlot d = dirSlot d.indexNode 0 := by
    unfold openedSlot
    rw [hdir]
    rfl
  have hroom : (32 : Int) ≤ SBUFSIZE - 1 := by decide
  obtain ⟨slot, hloop⟩ := copyLoop_dir hboot hterm hfd hroom (by decide) (by decide)
    (fun r => (Function.update r.buf r.value.toNat 10, r.value + 1)) (· ++ [10])
    (fun b => ⟨Int.natCast_nonneg 33, arrayBytes_terminated b 10⟩)
    (literal "directory entry read failed\n") d.indexNode (n := rounds)
    (m := MAX_FILES) 0 (Nat.zero_add _) (by unfold MAX_FILES; omega) buf
  have hliteral : cstr (literal "directory entry read failed\n") =
      str "directory entry read failed\n" := by decide
  have hlo := hfd.lo
  have htype : d.type ≤ 2 := by omega
  rw [if_pos htype] at hopen
  unfold runs ls ece391Open
  rw [Prog.exec_make_bind hopen, if_neg (by dsimp only; omega), hslot]
  rw [hliteral] at hloop
  exact ⟨_, hloop, rfl⟩

/-- The command `ls` prints the name field of every entry of the directory up to
the first without a name, one a line, and then succeeds; a directory of 63 named
entries it lists in full and then fails. -/
theorem ls_command_prints {fs : FileSys} {boot : BootBlock}
    (hboot : fs.bootB = some boot) {d : Dentry}
    (hdot : readDentryByName fs ⟨0, str "."⟩ = some d) (hdir : d.type = 1)
    {spaces a : List Byte} (hparsed : Parsed (str "ls") spaces a) {stk : CStr}
    {k : Kernel σ} {before : Byte} {esp ebp : σ} {pid : Int} {entAdd : Nat}
    (henter : (execute fs stk k (some ⟨before, str "ls" ++ spaces ++ a⟩) esp ebp).2 =
      .enter pid entAdd) (around : Around) {rounds : Nat} (hrounds : 64 ≤ rounds)
    (buf : Nat → Byte) :
    Prog.Ensures Undisturbed (perform fs around) (ls rounds buf)
      { kernel := finishExecute
          (execute fs stk k (some ⟨before, str "ls" ++ spaces ++ a⟩) esp ebp)
        wrote := [] }
      fun status t =>
        status = some (if (listed boot 0 MAX_FILES).length = MAX_FILES then 3 else 0) ∧
        t.wrote =
          (listed boot 0 MAX_FILES).flatMap (fun d => entryField d ++ str "\n") ++
            if (listed boot 0 MAX_FILES).length = MAX_FILES then
              str "directory entry read failed\n"
            else [] := by
  refine (command_ensures (P := fun status out =>
    status = some (listing boot (· ++ [10]) (str "directory entry read failed\n")).2 ∧
    out = (listing boot (· ++ [10]) (str "directory entry read failed\n")).1)
    hparsed (by decide) henter around fun k' h => ?_).mono fun status t ht => ?_
  · have hstart : Launched (User.mk k' []).kernel (str "ls") a := h
    obtain ⟨v, hrun, hwrote⟩ := runs_ls hboot hstart.stdout hstart.first hstart.ownFd
      hdot hdir hrounds buf
    exact ⟨_, v, hrun, rfl, hwrote⟩
  · rw [ht.1, ht.2]
    unfold listing endOf
    split <;> exact ⟨rfl, rfl⟩

/-- The command `ls`. -/
theorem ls_tools_prints :
    Prog.Ensures Undisturbed (perform toolsImage bareAround)
      (ls 64 fun _ => 0)
      { kernel := finishExecute (execute toolsImage ⟨0, []⟩ (SampleImage.idleKernel 0)
          (some ⟨0, str "ls" ++ [] ++ []⟩) 0 0)
        wrote := [] }
      fun status t =>
        status = some
          (if (listed toolsBoot 0 MAX_FILES).length = MAX_FILES then 3 else 0) ∧
        t.wrote =
          (listed toolsBoot 0 MAX_FILES).flatMap
              (fun d => entryField d ++ str "\n") ++
            if (listed toolsBoot 0 MAX_FILES).length = MAX_FILES then
              str "directory entry read failed\n"
            else [] := by
  have hls : str "ls" = [108, 115] := by decide
  have hdot : str "." = [46] := by decide
  have hparsed : Parsed (str "ls") [] [] :=
    { noNul := by decide, nonempty := by decide, word := by decide, gap := by simp
      start := by decide, longest := by decide, fits := by decide }
  have henter : (execute toolsImage ⟨0, []⟩ (SampleImage.idleKernel 0)
      (some ⟨0, str "ls" ++ [] ++ []⟩) 0 0).2 = .enter 1 0x8048000 := by
    rw [hls]
    rfl
  have hfound : readDentryByName toolsImage ⟨0, str "."⟩ = some (namedEntry [46] 1 0) := by
    rw [hdot]
    rfl
  exact ls_command_prints rfl hfound rfl hparsed henter bareAround (Nat.le_refl _)
    fun _ => 0

end MongOS.Proofs.FilePrograms
