import MongOS.Proofs.ProcTable
import MongOS.Proofs.SampleImage
import MongOS.Proofs.ScreenFrame

/-!
# What `read`, `write` and `close` do to a descriptor

Each call either refuses a descriptor or goes through the operation table of
one slot of the running process.  `ReadsSlot`, `WritesSlot` and `ClosesSlot`
say so for a call and a slot; the slot is the one named by the descriptor,
except that for a program whose name begins with `gr` the functions `read` and
`close` take slot 3 for every descriptor but 2 (`targetFd`).

`halt` calls `close` for every slot that is in use; without the special case
that closes each open slot through its own table, and with it slots 2 and 3
(`halt_closes`, `halt_closes_gr`).
-/

namespace MongOS.Proofs.DescriptorCalls

open MongOS.Model
open MongOS.Proofs.ProcTable
open MongOS.Proofs.ScreenFrame

variable {σ : Type}

/-! ## The descriptors of the running process -/

/-- `cur_pcb->farray[fd]`. -/
def slotOf (k : Kernel σ) (fd : Int) : FArray := k.curPcb.farray fd

@[simp] theorem running_modifyPcb (k : Kernel σ) (p : Int)
    (f : Pcb σ → Pcb σ) : (k.modifyPcb p f).running = k.running := rfl

theorem curPcb_modifyCur (k : Kernel σ) (f : Pcb σ → Pcb σ) :
    (k.modifyCur f).curPcb = f k.curPcb := by
  simp [Kernel.curPcb, Kernel.modifyCur, Kernel.modifyPcb, Kernel.running,
    Kernel.runningPid]

theorem slotOf_modifySlot (k : Kernel σ) (fd i : Int) (f : FArray → FArray) :
    slotOf (k.modifySlot fd f) i =
      if i = fd then f (slotOf k fd) else slotOf k i := by
  simp only [slotOf, Kernel.modifySlot, curPcb_modifyCur, Function.update_apply]

theorem name_modifySlot (k : Kernel σ) (fd : Int) (f : FArray → FArray) :
    (k.modifySlot fd f).curPcb.name = k.curPcb.name := by
  simp only [Kernel.modifySlot, curPcb_modifyCur]

/-- The same process runs, with the same name and the same descriptors. -/
structure SameSlots (k k' : Kernel σ) : Prop where
  running : k'.running = k.running
  name : k'.curPcb.name = k.curPcb.name
  slot : ∀ i, slotOf k' i = slotOf k i

theorem SameSlots.refl (k : Kernel σ) : SameSlots k k :=
  { running := rfl, name := rfl, slot := fun _ => rfl }

/-- The running process is console data that the screen functions keep. -/
theorem SameSlots.setCon (k : Kernel σ) {con : Console}
    (hrun : (input con).running = (input k.con).running)
    (hcur : con.currentTid = k.con.currentTid) :
    SameSlots k { k with con := con } := by
  have hrunning : ({ k with con := con } : Kernel σ).running = k.running := by
    show (con.multiTerminal con.currentTid).runningPid = _
    rw [hcur]
    exact congrFun hrun k.con.currentTid
  have hpcb : ({ k with con := con } : Kernel σ).curPcb = k.curPcb := by
    unfold Kernel.curPcb
    rw [hrunning]
  exact
    { running := hrunning
      name := by rw [hpcb]
      slot := fun i => by rw [slotOf, hpcb, slotOf] }

/-- So do writes to other fields of the control block. -/
theorem SameSlots.modifyCur (k : Kernel σ) (f : Pcb σ → Pcb σ)
    (hname : ∀ p, (f p).name = p.name) (hslots : ∀ p, (f p).farray = p.farray) :
    SameSlots k (k.modifyCur f) :=
  { running := rfl
    name := by rw [curPcb_modifyCur, hname]
    slot := fun i => by rw [slotOf, curPcb_modifyCur, hslots, slotOf] }

theorem readTerminal_keeps {c c' : Console} {buf buf' : Nat → Byte}
    {nbytes value : Int} (h : readTerminal c buf nbytes = some (c', value, buf')) :
    (input c').running = (input c).running ∧ c'.currentTid = c.currentTid := by
  unfold readTerminal at h
  dsimp only at h
  split at h
  · cases h
    exact ⟨field_update_self Terminal.runningPid _ _ _ rfl, rfl⟩
  · cases h

/-- A read operation changes no descriptor of the process. -/
theorem readOp_keeps (fs : FileSys) (k : Kernel σ) (inode pos : Nat)
    (buf : Nat → Byte) (nbytes : Int) (ops : Ops) :
    SameSlots k (readOp fs k inode pos buf nbytes ops).1 := by
  cases ops with
  | terminal =>
      cases hread : readTerminal k.con buf nbytes with
      | none =>
          simp only [readOp, hread]
          exact .refl k
      | some r =>
          obtain ⟨con, value, buf'⟩ := r
          obtain ⟨hrun, hcur⟩ := readTerminal_keeps hread
          simp only [readOp, hread]
          exact .setCon k hrun hcur
  | rtc =>
      simp only [readOp, rtcReadArm]
      exact .modifyCur k _ (fun _ => rfl) fun _ => rfl
  | file => exact .refl k
  | dir =>
      simp only [readOp]
      split <;> exact .refl k

/-- A write operation changes no descriptor of the process. -/
theorem writeOp_keeps (k : Kernel σ) (buf : Nat → Byte) (nbytes : Int)
    (ops : Ops) : SameSlots k (writeOp k buf nbytes ops).1 := by
  cases ops with
  | terminal =>
      have hinput := input_writeTerminal k.con buf nbytes
      exact .setCon k (congrArg Input.running hinput) (congrArg Input.cur hinput)
  | rtc =>
      simp only [writeOp, rtcWrite]
      split
      · exact .refl k
      · dsimp only
        exact .modifyCur k _ (fun _ => rfl) fun _ => rfl
  | file => exact .refl k
  | dir => exact .refl k

/-- A close operation changes no descriptor of the process. -/
theorem closeOp_keeps (fs : FileSys) (k : Kernel σ) (ops : Ops) :
    SameSlots k (closeOp fs k ops).1 := by
  cases ops with
  | rtc =>
      simp only [closeOp, rtcClose]
      exact .modifyCur k _ (fun _ => rfl) fun _ => rfl
  | terminal => exact .refl k
  | file => exact .refl k
  | dir => exact .refl k

/-- An open operation changes no descriptor of the process. -/
theorem openOp_keeps (fs : FileSys) (k : Kernel σ) (name : CStr) (ops : Ops) :
    SameSlots k (openOp fs k name ops).1 := by
  cases ops with
  | rtc =>
      simp only [openOp, rtcOpen]
      exact .modifyCur k _ (fun _ => rfl) fun _ => rfl
  | terminal => exact .refl k
  | file => exact .refl k
  | dir => exact .refl k

/-! ## One call and one slot -/

/-- `read` called with descriptor `called` acts on slot `fd`. -/
structure ReadsSlot (fs : FileSys) (k : Kernel σ) (called fd : Int)
    (buf : Nat → Byte) (nbytes : Int) : Prop where
  refused : fd < 0 ∨ 8 ≤ fd ∨ fd = 1 ∨ (slotOf k fd).flags = FREE →
    read fs k called (some buf) nbytes = (k, .ret (-1) buf)
  uses : 0 ≤ fd → fd < 8 → fd ≠ 1 → (slotOf k fd).flags ≠ FREE →
    ∀ ops, (slotOf k fd).fotp = some ops →
    ∀ r, readOp fs k (slotOf k fd).inode (slotOf k fd).filePos buf nbytes ops = r →
    read fs k called (some buf) nbytes =
      (r.1.modifySlot fd fun s => { s with filePos := r.2.1 }, r.2.2)
  null : 0 ≤ fd → fd < 8 → fd ≠ 1 → (slotOf k fd).flags ≠ FREE →
    (slotOf k fd).fotp = none →
    read fs k called (some buf) nbytes = (k, .faults)
  others : ∀ i, i ≠ fd →
    slotOf (read fs k called (some buf) nbytes).1 i = slotOf k i
  name : (read fs k called (some buf) nbytes).1.curPcb.name = k.curPcb.name

/-- `write` called with descriptor `called` acts on slot `fd`. -/
structure WritesSlot (k : Kernel σ) (called fd : Int) (buf : Nat → Byte)
    (nbytes : Int) : Prop where
  refused : fd < 0 ∨ 8 ≤ fd ∨ fd = 0 ∨ (slotOf k fd).flags = FREE →
    write k called (some buf) nbytes = (k, .ret (-1) buf)
  uses : 0 ≤ fd → fd < 8 → fd ≠ 0 → (slotOf k fd).flags ≠ FREE →
    ∀ ops, (slotOf k fd).fotp = some ops →
    ∀ r, writeOp k buf nbytes ops = r →
    write k called (some buf) nbytes = (r.1, .ret r.2 buf)
  null : 0 ≤ fd → fd < 8 → fd ≠ 0 → (slotOf k fd).flags ≠ FREE →
    (slotOf k fd).fotp = none →
    write k called (some buf) nbytes = (k, .faults)
  others : ∀ i, slotOf (write k called (some buf) nbytes).1 i = slotOf k i

/-- A slot that `close` has cleared. -/
def clearedSlot : FArray := { fotp := none, inode := 0, filePos := 0, flags := FREE }

/-- `close` called with descriptor `called` acts on slot `fd`. -/
structure ClosesSlot (fs : FileSys) (k : Kernel σ) (called fd : Int) :
    Prop where
  refused : fd < 2 ∨ 8 ≤ fd ∨ (slotOf k fd).flags = FREE →
    close fs k called = (k, -1)
  uses : 2 ≤ fd → fd < 8 → (slotOf k fd).flags ≠ FREE →
    ∀ ops, (slotOf k fd).fotp = some ops → ∀ r, closeOp fs k ops = r →
    close fs k called =
      if r.2 = 0 then (r.1.modifySlot fd fun _ => clearedSlot, 0) else (r.1, -1)
  null : (slotOf k fd).fotp = none → close fs k called = (k, -1)
  others : ∀ i, i ≠ fd → slotOf (close fs k called).1 i = slotOf k i
  name : (close fs k called).1.curPcb.name = k.curPcb.name

/-- The slot that `read` and `close` act on: for a program whose name begins
with `gr` it is 3, or 2 when the call says 2. -/
def targetFd (name : Nat → Byte) (fd : Int) : Int :=
  if name 0 = 103 ∧ name 1 = 114 then if fd = 2 then 2 else 3 else fd

/-- The name of the running program begins with `gr`. -/
def NamedGr (k : Kernel σ) : Prop :=
  k.curPcb.name 0 = 103 ∧ k.curPcb.name 1 = 114

theorem targetFd_of_gr {k : Kernel σ} (h : NamedGr k) (fd : Int) :
    targetFd k.curPcb.name fd = if fd = 2 then 2 else 3 := if_pos h

theorem targetFd_of_not_gr {k : Kernel σ} (h : ¬ NamedGr k) (fd : Int) :
    targetFd k.curPcb.name fd = fd := if_neg h

theorem forceFd_eq (name : Nat → Byte) (fd : Int) :
    forceFd name fd = targetFd name fd := by
  unfold forceFd targetFd ROOT_FD FILE_FD
  split
  · by_cases hroot : fd = 2
    · simp [hroot]
    · simp [hroot]
  · rfl

theorem readsSlot (fs : FileSys) (k : Kernel σ) (fd : Int) (buf : Nat → Byte)
    {nbytes : Int} (hn : 0 ≤ nbytes) :
    ReadsSlot fs k fd (targetFd k.curPcb.name fd) buf nbytes := by
  have hn' : ¬ nbytes < 0 := by omega
  rw [← forceFd_eq]
  generalize htarget : forceFd k.curPcb.name fd = target
  refine
    { refused := ?refused, uses := ?uses, null := ?null
      others := ?others, name := ?sameName }
  case refused =>
    intro hbad
    simp only [Model.read, htarget, FD_ARRAY_ST, FD_ARRAY_MAX, if_neg hn']
    by_cases hrange : target < 0 ∨ target ≥ 8
    · simp [hrange]
    · rw [if_neg hrange]
      by_cases hone : target = 1
      · rw [if_pos hone]
      · have hfree : (k.curPcb.farray target).flags = FREE := by
          rcases hbad with h | h | h | h
          · omega
          · omega
          · exact absurd h hone
          · exact h
        rw [if_neg hone, if_pos hfree]
  case uses =>
    intro hlo hhi hone hflags ops hops r hr
    have hrange : ¬ (target < 0 ∨ target ≥ 8) := by omega
    simp only [slotOf] at hflags hops hr
    simp only [Model.read, htarget, FD_ARRAY_ST, FD_ARRAY_MAX, if_neg hrange,
      if_neg hn', if_neg hone, if_neg hflags, hops, hr]
  case null =>
    intro hlo hhi hone hflags hops
    have hrange : ¬ (target < 0 ∨ target ≥ 8) := by omega
    simp only [slotOf] at hflags hops
    simp only [Model.read, htarget, FD_ARRAY_ST, FD_ARRAY_MAX, if_neg hrange,
      if_neg hn', if_neg hone, if_neg hflags, hops]
  case others =>
    intro i hi
    simp only [Model.read, htarget]
    split
    · rfl
    · split
      · rfl
      · split
        · rfl
        · split
          · rfl
          · rw [slotOf_modifySlot, if_neg hi, (readOp_keeps ..).slot]
  case sameName =>
    simp only [Model.read, htarget]
    split
    · rfl
    · split
      · rfl
      · split
        · rfl
        · split
          · rfl
          · rw [name_modifySlot, (readOp_keeps ..).name]

/-- `write` is refused, or it calls the write operation of a slot in use. -/
theorem write_splits (k : Kernel σ) (fd : Int) (buf : Option (Nat → Byte))
    (nbytes : Int) :
    (write k fd buf nbytes).1 = k ∨
      ∃ ops b, 1 ≤ fd ∧ fd < 8 ∧ (slotOf k fd).flags ≠ FREE ∧
        (slotOf k fd).fotp = some ops ∧
        (write k fd buf nbytes).1 = (writeOp k b nbytes ops).1 := by
  unfold write FD_ARRAY_ST FD_ARRAY_MAX
  split
  · exact .inl rfl
  split
  · exact .inl rfl
  split
  · exact .inl rfl
  split
  · exact .inl rfl
  rename_i b _ _
  dsimp only
  split
  · exact .inl rfl
  rename_i hused
  split
  · exact .inl rfl
  rename_i ops hops
  exact .inr ⟨ops, b, by omega, by omega, hused, hops, rfl⟩

theorem writesSlot (k : Kernel σ) (fd : Int) (buf : Nat → Byte) {nbytes : Int}
    (hn : 0 ≤ nbytes) : WritesSlot k fd fd buf nbytes := by
  have hn' : ¬ nbytes < 0 := by omega
  refine { refused := ?refused, uses := ?uses, null := ?null, others := ?others }
  case refused =>
    intro hbad
    simp only [write, FD_ARRAY_ST, FD_ARRAY_MAX, if_neg hn']
    by_cases hrange : fd < 0 ∨ fd ≥ 8
    · simp [hrange]
    · rw [if_neg hrange]
      by_cases hzero : fd = 0
      · rw [if_pos hzero]
      · have hfree : (k.curPcb.farray fd).flags = FREE := by
          rcases hbad with h | h | h | h
          · omega
          · omega
          · exact absurd h hzero
          · exact h
        rw [if_neg hzero, if_pos hfree]
  case uses =>
    intro hlo hhi hzero hflags ops hops r hr
    have hrange : ¬ (fd < 0 ∨ fd ≥ 8) := by omega
    simp only [slotOf] at hflags hops hr
    simp only [write, FD_ARRAY_ST, FD_ARRAY_MAX, if_neg hrange, if_neg hn',
      if_neg hzero, if_neg hflags, hops, hr]
  case null =>
    intro hlo hhi hzero hflags hops
    have hrange : ¬ (fd < 0 ∨ fd ≥ 8) := by omega
    simp only [slotOf] at hflags hops
    simp only [write, FD_ARRAY_ST, FD_ARRAY_MAX, if_neg hrange, if_neg hn',
      if_neg hzero, if_neg hflags, hops]
  case others =>
    intro i
    rcases write_splits k fd (some buf) nbytes with
      hwrite | ⟨ops, b, -, -, -, -, hwrite⟩
    · rw [hwrite]
    · rw [hwrite, (writeOp_keeps ..).slot]

theorem closesSlot (fs : FileSys) (k : Kernel σ) (fd : Int) :
    ClosesSlot fs k fd (targetFd k.curPcb.name fd) := by
  rw [← forceFd_eq]
  generalize htarget : forceFd k.curPcb.name fd = target
  refine
    { refused := ?refused, uses := ?uses, null := ?null
      others := ?others, name := ?sameName }
  case refused =>
    intro hbad
    simp only [close, htarget, FD_ARRAY_MIN, FD_ARRAY_MAX]
    by_cases hrange : target < 2 ∨ target ≥ 8
    · rw [if_pos hrange]
    · have hfree : (k.curPcb.farray target).flags = FREE := by
        rcases hbad with h | h | h
        · omega
        · omega
        · exact h
      rw [if_neg hrange]
      split
      · rfl
      · rw [if_pos hfree]
  case uses =>
    intro hlo hhi hflags ops hops r hr
    have hrange : ¬ (target < 2 ∨ target ≥ 8) := by omega
    simp only [slotOf] at hflags hops
    simp only [close, htarget, FD_ARRAY_MIN, FD_ARRAY_MAX, if_neg hrange, hops,
      if_neg hflags, hr]
    rfl
  case null =>
    intro hops
    simp only [slotOf] at hops
    simp only [close, htarget, hops]
    split <;> rfl
  case others =>
    intro i hi
    rcases close_splits fs k fd with hclose | ⟨ops, hclose⟩
    · rw [hclose]
    · rw [hclose, htarget]
      split
      · rw [slotOf_modifySlot, if_neg hi, (closeOp_keeps ..).slot]
      · exact (closeOp_keeps ..).slot i
  case sameName =>
    rcases close_splits fs k fd with hclose | ⟨ops, hclose⟩
    · rw [hclose]
    · rw [hclose]
      split
      · rw [name_modifySlot, (closeOp_keeps ..).name]
      · exact (closeOp_keeps ..).name

/-- `close` fails without touching a slot, or it clears the slot. -/
theorem ClosesSlot.cases {fs : FileSys} {k : Kernel σ} {called fd : Int}
    (h : ClosesSlot fs k called fd) :
    ((close fs k called).2 = 0 ∧
        slotOf (close fs k called).1 fd = clearedSlot) ∨
      ((close fs k called).2 ≠ 0 ∧
        slotOf (close fs k called).1 fd = slotOf k fd) := by
  by_cases hbad : fd < 2 ∨ 8 ≤ fd ∨ (slotOf k fd).flags = FREE
  · rw [h.refused hbad]
    exact .inr ⟨nofun, rfl⟩
  · cases hops : (slotOf k fd).fotp with
    | none =>
        rw [h.null hops]
        exact .inr ⟨nofun, rfl⟩
    | some ops =>
        have hlo : 2 ≤ fd := by omega
        have hhi : fd < 8 := by omega
        have hflags : (slotOf k fd).flags ≠ FREE := by
          intro hfree
          exact hbad (.inr (.inr hfree))
        rw [h.uses hlo hhi hflags ops hops _ rfl]
        split
        · left
          exact ⟨rfl, by rw [slotOf_modifySlot, if_pos rfl]⟩
        · right
          exact ⟨nofun, (closeOp_keeps fs k ops).slot fd⟩

/-- What a successful `open` makes of the slot it takes. -/
def openedSlot (d : Dentry) : FArray :=
  { filePos := 0, inode := d.indexNode, flags := OPEN
    fotp := some (opsOfType d.type) }

/-! ## Closing what a dying process has open -/

/-- The operation table of a slot that is open. -/
def openOps (k : Kernel σ) (fd : Int) : Option Ops :=
  if (slotOf k fd).flags = FREE then none else (slotOf k fd).fotp

/-- Close a slot through its operation table and clear it. -/
def closeThrough (fs : FileSys) (k : Kernel σ) (fd : Int) (ops : Ops) :
    Kernel σ := (closeOp fs k ops).1.modifySlot fd fun _ => clearedSlot

/-- Close the slots `fds`, each through the table it has in `k0`. -/
def closeEach (fs : FileSys) (k0 : Kernel σ) (fds : List Int) (k : Kernel σ) :
    Kernel σ :=
  fds.foldl (fun k fd => match openOps k0 fd with
    | some ops => closeThrough fs k fd ops
    | none => k) k

/-- In a mounted file system every close operation succeeds. -/
theorem closeOp_succeeds (fs : FileSys) (k : Kernel σ) (ops : Ops)
    (hinit : fs.bootB ≠ none) : (closeOp fs k ops).2 = 0 := by
  have hmounted : fs.bootB.isNone = false := by
    cases hboot : fs.bootB with
    | none => exact absurd hboot hinit
    | some boot => rfl
  cases ops with
  | terminal => rfl
  | rtc => rfl
  | file => simp [closeOp, closeF, hmounted]
  | dir => simp [closeOp, closeD, hmounted]

/-- One round of the clean-up loop of `halt`. -/
theorem close_round {fs : FileSys} {k : Kernel σ} {fd : Int}
    (hinit : fs.bootB ≠ none) (hname : targetFd k.curPcb.name fd = fd)
    (hlo : 2 ≤ fd) (hhi : fd < 8) :
    (if (slotOf k fd).flags = FREE then k else (close fs k fd).1) =
      match openOps k fd with
      | some ops => closeThrough fs k fd ops
      | none => k := by
  have hcall := closesSlot fs k fd
  rw [hname] at hcall
  unfold openOps
  by_cases hfree : (slotOf k fd).flags = FREE
  · simp only [if_pos hfree]
  · simp only [if_neg hfree]
    cases hops : (slotOf k fd).fotp with
    | none => rw [hcall.null hops]
    | some ops =>
        rw [hcall.uses hlo hhi hfree ops hops _ rfl,
          if_pos (closeOp_succeeds fs k ops hinit)]
        rfl

/-- What a round leaves for the next ones: the process, its name and all other
slots. -/
theorem closeThrough_keeps (fs : FileSys) (k : Kernel σ) (fd : Int)
    (ops : Ops) :
    (closeThrough fs k fd ops).running = k.running ∧
      (closeThrough fs k fd ops).curPcb.name = k.curPcb.name ∧
      ∀ i, slotOf (closeThrough fs k fd ops) i =
        if i = fd then clearedSlot else slotOf k i := by
  have hkeep := closeOp_keeps fs k ops
  refine ⟨hkeep.running, ?_, fun i => ?_⟩
  · rw [closeThrough, name_modifySlot, hkeep.name]
  · rw [closeThrough, slotOf_modifySlot, hkeep.slot]

/-- A round of the clean-up loop of `halt`. -/
def closeOne (fs : FileSys) (pid : Int) (k : Kernel σ) (i : Int) : Kernel σ :=
  if ((k.pcb pid).farray i).flags = FREE then k else (close fs k i).1

/-- The clean-up loop closes each slot that `close` does not confuse with
another through the table the slot had when the loop began, because closing one
slot changes no other. -/
theorem closeLoop_eq {fs : FileSys} {k0 : Kernel σ} (hinit : fs.bootB ≠ none)
    (fds : List Int) (hname : ∀ fd ∈ fds, targetFd k0.curPcb.name fd = fd)
    (hrange : ∀ fd ∈ fds, 2 ≤ fd ∧ fd < 8) (hnodup : fds.Nodup) (k : Kernel σ)
    (hrunning : k.running = k0.running)
    (hsame : k.curPcb.name = k0.curPcb.name)
    (hslots : ∀ fd ∈ fds, slotOf k fd = slotOf k0 fd) :
    fds.foldl (closeOne fs k0.running) k = closeEach fs k0 fds k ∧
      ∀ i, slotOf (closeEach fs k0 fds k) i =
        if i ∈ fds ∧ openOps k0 i ≠ none then clearedSlot else slotOf k i := by
  induction fds generalizing k with
  | nil => exact ⟨rfl, fun i => by simp [closeEach]⟩
  | cons fd fds ih =>
      obtain ⟨hlo, hhi⟩ := hrange fd (List.mem_cons_self ..)
      obtain ⟨hnew, hrest⟩ := List.nodup_cons.1 hnodup
      have hslot := hslots fd (List.mem_cons_self ..)
      have hopen : openOps k fd = openOps k0 fd := by rw [openOps, hslot, openOps]
      have hround := close_round hinit (hsame ▸ hname fd (.head _)) hlo hhi
      rw [hopen] at hround
      have hpcb : k.pcb k0.running = k.curPcb := by rw [Kernel.curPcb, hrunning]
      simp only [closeEach, closeOne, List.foldl_cons, hpcb]
      rw [show (k.curPcb.farray fd).flags = (slotOf k fd).flags from rfl, hround]
      cases hops : openOps k0 fd with
      | none =>
          obtain ⟨hloop, hclosed⟩ := ih (fun i hi => hname i (.tail _ hi))
            (fun i hi => hrange i (.tail _ hi)) hrest k hrunning hsame
            fun i hi => hslots i (.tail _ hi)
          refine ⟨hloop, fun i => (hclosed i).trans ?_⟩
          by_cases hi : i = fd
          · subst hi
            simp [hops, hnew]
          · simp [hi]
      | some ops =>
          obtain ⟨hrunning', hname', hslot'⟩ := closeThrough_keeps fs k fd ops
          have hother : ∀ i ∈ fds, slotOf (closeThrough fs k fd ops) i =
              slotOf k0 i := by
            intro i hi
            have hne : i ≠ fd := fun h => hnew (h ▸ hi)
            rw [hslot', if_neg hne, hslots i (.tail _ hi)]
          obtain ⟨hloop, hclosed⟩ := ih (fun i hi => hname i (.tail _ hi))
            (fun i hi => hrange i (.tail _ hi)) hrest (closeThrough fs k fd ops)
            (hrunning'.trans hrunning) (hname'.trans hsame) hother
          refine ⟨hloop, fun i => (hclosed i).trans ?_⟩
          by_cases hi : i = fd
          · subst hi
            simp [hops, hnew, hslot']
          · simp [hi, hslot']

theorem mem_slots {fd : Int} :
    fd ∈ ([2, 3, 4, 5, 6, 7] : List Int) ↔ 2 ≤ fd ∧ fd < 8 := by
  simp only [List.mem_cons, List.not_mem_nil, or_false]
  omega

/-- The descriptors of processes. -/
def processFds : List Int := [2, 3, 4, 5, 6, 7]

/-- The kernel in the clean-up loop of `halt` when each open slot of `fds` has been
closed through the slot's own table. -/
def afterCloseEach (fs : FileSys) (k : Kernel σ) (fds : List Int) : Kernel σ :=
  closeEach fs k fds (freePid k (k.pcb k.running).pid)

/-- The kernel behind the clean-up loop, with the rounds for `rest` as they are in
the loop. -/
def afterRounds (fs : FileSys) (k : Kernel σ) (fds rest : List Int) : Kernel σ :=
  rest.foldl (closeOne fs k.running) (afterCloseEach fs k fds)

/-- `halt` closes every slot of `fds` that is open, through the slot's own table,
before it goes on with `rest`. -/
structure HaltCloses (fs : FileSys) (k : Kernel σ) (fds rest : List Int) :
    Prop where
  through : ∀ stk status esp ebp, halt fs stk k status esp ebp =
    haltTail fs stk (afterRounds fs k fds rest) k.running status esp ebp
  cleared : ∀ fd ∈ fds, openOps k fd ≠ none →
    slotOf (afterRounds fs k fds rest) fd = clearedSlot

theorem curPcb_freePid (k : Kernel σ) (pid : Int) :
    (freePid k pid).curPcb = k.curPcb := rfl

theorem running_freePid (k : Kernel σ) (pid : Int) :
    (freePid k pid).running = k.running := rfl

/-- The rounds for slots that `close` does not confuse. -/
theorem closes_first {fs : FileSys} {k : Kernel σ} (hinit : fs.bootB ≠ none)
    {fds rest : List Int} (hsplit : fds ++ rest = processFds)
    (hname : ∀ fd ∈ fds, targetFd k.curPcb.name fd = fd) :
    (∀ stk status esp ebp, halt fs stk k status esp ebp =
      haltTail fs stk (afterRounds fs k fds rest) k.running status esp ebp) ∧
    ∀ i, slotOf (afterCloseEach fs k fds) i =
      if i ∈ fds ∧ openOps k i ≠ none then clearedSlot else slotOf k i := by
  have hrange : ∀ fd ∈ fds, 2 ≤ fd ∧ fd < 8 := by
    intro fd hfd
    have hmem : fd ∈ processFds := hsplit ▸ List.mem_append_left rest hfd
    exact mem_slots.1 hmem
  have hnodup : fds.Nodup := by
    have hall : (fds ++ rest).Nodup := hsplit ▸ (by decide : processFds.Nodup)
    exact (List.nodup_append.1 hall).1
  obtain ⟨hloop, hclosed⟩ := closeLoop_eq hinit fds hname hrange hnodup
    (freePid k (k.pcb k.running).pid) (running_freePid ..)
    (by rw [curPcb_freePid]) (fun fd _ => by rw [slotOf, curPcb_freePid, slotOf])
  refine ⟨fun stk status esp ebp => ?_, fun i => ?_⟩
  · rw [halt_eq, afterClose, afterRounds, afterCloseEach, ← hloop,
      ← List.foldl_append, hsplit]
    rfl
  · rw [afterCloseEach, hclosed, slotOf, curPcb_freePid, slotOf]

theorem halt_closes {fs : FileSys} {k : Kernel σ} (hinit : fs.bootB ≠ none)
    (hname : ∀ fd, targetFd k.curPcb.name fd = fd) :
    HaltCloses fs k processFds [] := by
  obtain ⟨hthrough, hslots⟩ :=
    closes_first hinit (List.append_nil _) fun fd _ => hname fd
  refine { through := hthrough, cleared := fun fd hfd hopen => ?_ }
  exact (hslots fd).trans (if_pos ⟨hfd, hopen⟩)

/-- What is kept while slots are closed. -/
theorem closeEach_keeps (fs : FileSys) (k0 : Kernel σ) (fds : List Int)
    (k : Kernel σ) :
    (closeEach fs k0 fds k).running = k.running ∧
      (closeEach fs k0 fds k).curPcb.name = k.curPcb.name := by
  induction fds generalizing k with
  | nil => exact ⟨rfl, rfl⟩
  | cons fd fds ih =>
      simp only [closeEach, List.foldl_cons]
      cases openOps k0 fd with
      | none => exact ih k
      | some ops =>
          obtain ⟨hrunning, hname, -⟩ := closeThrough_keeps fs k fd ops
          obtain ⟨hrunning', hname'⟩ := ih (closeThrough fs k fd ops)
          exact ⟨hrunning'.trans hrunning, hname'.trans hname⟩

/-- Once slot 3 is closed, the rounds behind it do nothing for `gr`. -/
theorem rounds_gr {fs : FileSys} {k : Kernel σ} (hgr : NamedGr k)
    (hclosed : openOps k 3 = none) (pid : Int) {fds : List Int}
    (hfds : ∀ fd ∈ fds, fd ≠ 2) : fds.foldl (closeOne fs pid) k = k := by
  induction fds with
  | nil => rfl
  | cons fd fds ih =>
      have hfd : fd ≠ 2 := hfds fd (.head _)
      have hcall := closesSlot fs k fd
      rw [targetFd_of_gr hgr, if_neg hfd] at hcall
      have hclose : close fs k fd = (k, -1) := by
        unfold openOps at hclosed
        split at hclosed
        case isTrue hfree => exact hcall.refused (.inr (.inr hfree))
        case isFalse => exact hcall.null hclosed
      have hround : closeOne fs pid k fd = k := by
        unfold closeOne
        rw [hclose, ite_self]
      rw [List.foldl_cons, hround]
      exact ih fun i hi => hfds i (.tail _ hi)

/-- In a program whose name begins with `gr`, slots 2 and 3 are closed as they
should be. -/
theorem halt_closes_gr {fs : FileSys} {k : Kernel σ} (hinit : fs.bootB ≠ none)
    (hgr : NamedGr k) : HaltCloses fs k [2, 3] [4, 5, 6, 7] := by
  have htarget : ∀ fd ∈ ([2, 3] : List Int), targetFd k.curPcb.name fd = fd := by
    rw [funext (targetFd_of_gr hgr)]
    decide
  have hsplit : [2, 3] ++ [4, 5, 6, 7] = processFds := rfl
  obtain ⟨hthrough, hslots⟩ := closes_first hinit hsplit htarget
  refine { through := hthrough, cleared := fun fd hfd hopen => ?_ }
  have hclosed : openOps (afterCloseEach fs k [2, 3]) 3 = none := by
    by_cases hthree : openOps k 3 = none
    · have hkept := (hslots 3).trans (if_neg fun h => h.2 hthree)
      rw [openOps, hkept]
      exact hthree
    · have hcleared := (hslots 3).trans (if_pos ⟨by decide, hthree⟩)
      rw [openOps, hcleared]
      rfl
  have hname : NamedGr (afterCloseEach fs k [2, 3]) := by
    obtain ⟨-, hname⟩ := closeEach_keeps fs k [2, 3] (freePid k (k.pcb k.running).pid)
    unfold NamedGr afterCloseEach
    rw [hname]
    exact hgr
  rw [afterRounds, rounds_gr hname hclosed k.running (by decide)]
  exact (hslots fd).trans (if_pos ⟨hfd, hopen⟩)

/-! ## The calls of a process -/

/-- `read` and `close` called with descriptor `fd` act on slot `target`, and
`write` acts on slot `fd`. -/
structure CallsAct (fs : FileSys) (k : Kernel σ) (fd target : Int)
    (buf : Nat → Byte) (nbytes : Int) : Prop where
  read : ReadsSlot fs k fd target buf nbytes
  write : WritesSlot k fd fd buf nbytes
  close : ClosesSlot fs k fd target

/-- A descriptor call acts on the slot it names; in a program whose name begins
with `gr`, `read` and `close` act on slot 3 unless they name slot 2.  Without
this special case `halt` closes what is open, and with it slots 2 and 3. -/
theorem calls_act_on_descriptor (fs : FileSys) (k : Kernel σ) (fd : Int)
    (buf : Nat → Byte) {nbytes : Int} (hn : 0 ≤ nbytes) :
    (¬ NamedGr k → CallsAct fs k fd fd buf nbytes) ∧
      (NamedGr k → CallsAct fs k fd (if fd = 2 then 2 else 3) buf nbytes) ∧
      (¬ NamedGr k → fs.bootB ≠ none → HaltCloses fs k processFds []) ∧
      (NamedGr k → fs.bootB ≠ none → HaltCloses fs k [2, 3] [4, 5, 6, 7]) := by
  have hread := readsSlot fs k fd buf hn
  have hwrite := writesSlot k fd buf hn
  have hclose := closesSlot fs k fd
  refine ⟨fun hgr => ?_, fun hgr => ?_, fun hgr hinit => ?_, fun hgr hinit => ?_⟩
  · rw [targetFd_of_not_gr hgr] at hread hclose
    exact { read := hread, write := hwrite, close := hclose }
  · rw [targetFd_of_gr hgr] at hread hclose
    exact { read := hread, write := hwrite, close := hclose }
  · exact halt_closes hinit (targetFd_of_not_gr hgr)
  · exact halt_closes_gr hinit hgr

/-- A process that runs a program with this name, with its first file open. -/
def oneFileKernel (name : List Byte) : Kernel Nat :=
  let k := (SampleImage.idleKernel 0).setRunning 1
  k.modifyPcb 1 fun p =>
    { p with
      name := fun i => name.getD i 0
      farray := Function.update p.farray 3
        { fotp := some .file, inode := 0, filePos := 0, flags := OPEN } }

/-- The bytes of `cat`. -/
def catName : List Byte := [99, 97, 116]

/-- The bytes of `grep`. -/
def grepName : List Byte := [103, 114, 101, 112]

theorem cat_calls_act :
    CallsAct SampleImage.shellImage (oneFileKernel catName) 3 3 (fun _ => 0) 4 ∧
      HaltCloses SampleImage.shellImage (oneFileKernel catName) processFds [] ∧
      CallsAct SampleImage.shellImage (oneFileKernel grepName) 5 3
        (fun _ => 0) 4 ∧
      HaltCloses SampleImage.shellImage (oneFileKernel grepName) [2, 3]
        [4, 5, 6, 7] := by
  have hcat : ¬ NamedGr (oneFileKernel catName) := by
    unfold NamedGr
    decide
  have hgrep : NamedGr (oneFileKernel grepName) := by
    unfold NamedGr
    decide
  have hmounted : SampleImage.shellImage.bootB ≠ none := nofun
  have hcalls := calls_act_on_descriptor SampleImage.shellImage
    (oneFileKernel catName) 3 (fun _ => 0) (by decide : (0 : Int) ≤ 4)
  have hforced := calls_act_on_descriptor SampleImage.shellImage
    (oneFileKernel grepName) 5 (fun _ => 0) (by decide : (0 : Int) ≤ 4)
  exact ⟨hcalls.1 hcat, hcalls.2.2.1 hcat hmounted, hforced.2.1 hgrep,
    hforced.2.2.2 hgrep hmounted⟩

/-- In `grep`, `close(5)` does not fail although slot 5 is free: it closes
slot 3. -/
theorem grep_closes_other_slot :
    ¬ CallsAct SampleImage.shellImage (oneFileKernel grepName) 5 5
      (fun _ => 0) 0 := by
  intro h
  have hfree : (slotOf (oneFileKernel grepName) 5).flags = FREE := by decide
  have hrefused := h.close.refused (.inr (.inr hfree))
  have hresult : (close SampleImage.shellImage (oneFileKernel grepName) 5).2 =
      0 := by decide
  rw [hrefused] at hresult
  exact absurd hresult (by decide)

end MongOS.Proofs.DescriptorCalls
