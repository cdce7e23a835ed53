import MongOS.Model.System
import MongOS.Proofs.ReadData

/-!
# The process table behind `execute`, `halt` and `process_switch`

`Table` is the part of the kernel that the life of processes is about: the
running pid of each terminal, the allocation bitmap with its counter, the links
and saved stack pointers in the control blocks, and the two registers of the
address space.  `table` forgets the rest of the kernel.

The three functions act on it by four operations: `save` the stack pointers of
the running process, `resume` the process of a terminal, `spawn` a child of the
running process on a free pid, and `leave` the running process to its parent.

* `execute_cases` — a call of `execute` changes nothing in the table, or spawns
  a process on the lowest free pid.
* `halt_base`, `halt_child` — the two ends of `halt`.
* `processSwitch_idle`, `processSwitch_resume` — a switch starts a base shell or
  resumes a process.
* `procStep_table` — what one step of the process system can do.
-/

namespace MongOS.Proofs.ProcTable

open MongOS.Model

variable {σ : Type}

/-- The kernel as the process functions see it. -/
@[ext] structure Table (σ : Type) where
  cur : Tid
  running : Tid → Int
  count : Nat
  used : Int → Int
  pid : Int → Int
  parent : Int → Int
  savedEsp : Int → σ
  savedEbp : Int → σ
  esp0 : Int → Int
  pde : Int
  tssEsp0 : Int

/-- The process table of a kernel. -/
def table (k : Kernel σ) : Table σ :=
  { cur := k.con.currentTid
    running := k.runningPid
    count := k.pidCnt
    used := k.pidSt
    pid := fun p => (k.pcb p).pid
    parent := fun p => (k.pcb p).parPid
    savedEsp := fun p => (k.pcb p).savedEsp
    savedEbp := fun p => (k.pcb p).savedEbp
    esp0 := fun p => (k.pcb p).esp0
    pde := k.pde
    tssEsp0 := k.tssEsp0 }

namespace Table

/-- The pid that runs on the current terminal. -/
def head (T : Table σ) : Int := T.running T.cur

/-- Make a pid the running one of the current terminal. -/
def setHead (T : Table σ) (p : Int) : Table σ :=
  { T with running := Function.update T.running T.cur p }

/-- The lowest free pid, less one. -/
def lowestFree (T : Table σ) : Option Nat :=
  (List.range MAX_PID).find? fun (i : Nat) => T.used i == 0

/-- The number of bits that are set in the bitmap. -/
def live (used : Int → Int) : Nat :=
  (List.range MAX_PID).countP fun (i : Nat) => used i == 1

/-- Store stack pointers in a control block. -/
def saveAt (T : Table σ) (p : Int) (esp ebp : σ) : Table σ :=
  { T with
    savedEsp := Function.update T.savedEsp p esp
    savedEbp := Function.update T.savedEbp p ebp }

def setEsp0 (T : Table σ) (p x : Int) : Table σ :=
  { T with esp0 := Function.update T.esp0 p x }

/-- The pid and the parent in a new control block. -/
def adopt (T : Table σ) (p par : Int) : Table σ :=
  { T with
    pid := Function.update T.pid p p
    parent := Function.update T.parent p par }

/-- What `process_switch` stores in the block of the running process. -/
def save (T : Table σ) (esp ebp : σ) : Table σ :=
  if T.head > 0 ∧ T.head ≤ MAX_PROCESS then
    (T.saveAt T.head esp ebp).setEsp0 T.head T.tssEsp0
  else T

/-- Map the user page of a process. -/
def setPage (T : Table σ) (p : Int) : Table σ :=
  { T with pde := PDE_ST + p - 1 }

/-- Turn to another terminal. -/
def visit (T : Table σ) (t : Tid) : Table σ := { T with cur := t }

/-- Turn to a terminal and load the registers of its process. -/
def resume (T : Table σ) (t : Tid) : Table σ :=
  { (T.setPage (T.running t)).visit t with tssEsp0 := T.esp0 (T.running t) }

/-- Set the bit of a free pid. -/
def claim (T : Table σ) (p : Int) : Table σ :=
  { T with
    used := Function.update T.used (p - 1) 1
    count := incU32 T.count }

/-- The pair that `execute` stores for its caller, if there is one. -/
def saveParent (T : Table σ) (p : Int) (esp ebp : σ) : Table σ :=
  if p ≠ -1 then T.saveAt p esp ebp else T

/-- A new process on pid `p`, with the running process as its parent. -/
def spawn (T : Table σ) (p : Int) (esp ebp : σ) : Table σ :=
  (((((T.claim p).adopt p T.head).setHead p).setPage p).saveParent T.head
    esp ebp).setEsp0 p (stackTop p)

/-- The instructions between `sti` and `IRET`. -/
def enter (T : Table σ) (p : Int) : Table σ := { T with tssEsp0 := stackTop p }

/-- Give back the pid of a control block. -/
def release (T : Table σ) (p : Int) : Table σ :=
  { T with
    used := Function.update T.used (p - 1) 0
    count := decU32 T.count }

/-- The running process gives back its pid and its parent runs again; the
parent of a base shell is `-1`. -/
def leave (T : Table σ) : Table σ :=
  (T.release (T.pid T.head)).setHead (T.parent T.head)

/-- The registers of the process that `halt` returns to. -/
def reload (T : Table σ) : Table σ :=
  (T.enter T.head).setPage T.head

end Table

/-! ## The operations field by field -/

section Fields

variable (T : Table σ) (p : Int) (esp ebp : σ)

theorem spawn_running : (T.spawn p esp ebp).running =
    Function.update T.running T.cur p := by
  unfold Table.spawn Table.saveParent
  split <;> rfl

theorem spawn_parent : (T.spawn p esp ebp).parent =
    Function.update T.parent p T.head := by
  unfold Table.spawn Table.saveParent
  split <;> rfl

theorem spawn_pid : (T.spawn p esp ebp).pid = Function.update T.pid p p := by
  unfold Table.spawn Table.saveParent
  split <;> rfl

theorem spawn_used : (T.spawn p esp ebp).used =
    Function.update T.used (p - 1) 1 := by
  unfold Table.spawn Table.saveParent
  split <;> rfl

theorem spawn_count : (T.spawn p esp ebp).count = incU32 T.count := by
  unfold Table.spawn Table.saveParent
  split <;> rfl

theorem spawn_esp0 : (T.spawn p esp ebp).esp0 =
    Function.update T.esp0 p (stackTop p) := by
  unfold Table.spawn Table.saveParent
  split <;> rfl

theorem spawn_pde : (T.spawn p esp ebp).pde = PDE_ST + p - 1 := by
  unfold Table.spawn Table.saveParent
  split <;> rfl

theorem spawn_cur : (T.spawn p esp ebp).cur = T.cur := by
  unfold Table.spawn Table.saveParent
  split <;> rfl

/-- The new process runs. -/
theorem spawn_head : (T.spawn p esp ebp).head = p := by
  rw [Table.head, spawn_running, spawn_cur]
  exact Function.update_self ..

/-- `execute` stores the caller's stack pointers in the caller's block only. -/
theorem spawn_saved_self (hhead : T.head ≠ -1) :
    (T.spawn p esp ebp).savedEsp T.head = esp ∧
      (T.spawn p esp ebp).savedEbp T.head = ebp := by
  unfold Table.spawn Table.saveParent
  rw [if_pos hhead]
  exact ⟨Function.update_self .., Function.update_self ..⟩

theorem spawn_saved_of_ne {q : Int} (hq : q ≠ T.head) :
    (T.spawn p esp ebp).savedEsp q = T.savedEsp q ∧
      (T.spawn p esp ebp).savedEbp q = T.savedEbp q := by
  unfold Table.spawn Table.saveParent
  split
  · exact ⟨Function.update_of_ne hq .., Function.update_of_ne hq ..⟩
  · exact ⟨rfl, rfl⟩

/-- `process_switch` stores only in the block of the running process. -/
theorem save_saved_of_ne {q : Int} (hq : q ≠ T.head) :
    (T.save esp ebp).savedEsp q = T.savedEsp q ∧
      (T.save esp ebp).savedEbp q = T.savedEbp q := by
  unfold Table.save
  split
  · exact ⟨Function.update_of_ne hq .., Function.update_of_ne hq ..⟩
  · exact ⟨rfl, rfl⟩

theorem save_parent : (T.save esp ebp).parent = T.parent := by
  unfold Table.save
  split <;> rfl

theorem save_running : (T.save esp ebp).running = T.running := by
  unfold Table.save
  split <;> rfl

theorem leave_running : T.leave.running =
    Function.update T.running T.cur (T.parent T.head) := rfl

theorem leave_head : T.leave.head = T.parent T.head := Function.update_self ..

theorem leave_parent : T.leave.parent = T.parent := rfl

theorem leave_pid : T.leave.pid = T.pid := rfl

theorem leave_used : T.leave.used =
    Function.update T.used (T.pid T.head - 1) 0 := rfl

theorem leave_count : T.leave.count = decU32 T.count := rfl

end Fields

/-! ## The helpers on the table -/

section Helpers

/-- A field of an updated array of records is an updated array. -/
theorem field_update {α β : Type} [DecidableEq α] {γ : Type} (proj : β → γ)
    (g : α → β) (a : α) (b : β) :
    (fun x => proj (Function.update g a b x)) =
      Function.update (fun x => proj (g x)) a (proj b) := by
  funext x
  by_cases hx : x = a
  · subst hx
    simp
  · simp [Function.update_of_ne hx]

/-- A write that leaves a field of a record alone does not change the array of
this field. -/
theorem field_update_self {α β : Type} [DecidableEq α] {γ : Type}
    (proj : β → γ) (g : α → β) (a : α) (b : β) (h : proj b = proj (g a)) :
    (fun x => proj (Function.update g a b x)) = fun x => proj (g x) := by
  rw [field_update, h]
  exact Function.update_eq_self a _

/-- A write to a control block does not show in data that it keeps. -/
theorem proj_modifyPcb {α : Type} (proj : Pcb σ → α) (k : Kernel σ) (p q : Int)
    (f : Pcb σ → Pcb σ) (hf : ∀ pcb, proj (f pcb) = proj pcb) :
    proj ((k.modifyPcb p f).pcb q) = proj (k.pcb q) :=
  congrFun (field_update_self proj k.pcb p (f (k.pcb p)) (hf _)) q

@[simp] theorem table_head (k : Kernel σ) : (table k).head = k.running := rfl

@[simp] theorem table_setRunning (k : Kernel σ) (p : Int) :
    table (k.setRunning p) = (table k).setHead p := by
  have hrunning : (k.setRunning p).runningPid =
      Function.update k.runningPid k.con.currentTid p := by
    exact field_update Terminal.runningPid _ _ _
  simp only [table, Table.setHead, hrunning]
  rfl

@[simp] theorem table_setVidmap (k : Kernel σ) (v : Nat) :
    table (k.setVidmap v) = table k := by
  have hrunning : (k.setVidmap v).runningPid = k.runningPid := by
    exact field_update_self Terminal.runningPid _ _ _ rfl
  simp only [table, hrunning]
  rfl

@[simp] theorem table_setTss (k : Kernel σ) (p : Int) :
    table { k with tssEsp0 := stackTop p } = (table k).enter p := rfl

/-- A write to the allocation bitmap and its counter. -/
theorem table_setPids (k : Kernel σ) (count : Nat) (used : Int → Int) :
    table { k with pidCnt := count, pidSt := used } =
      { table k with count := count, used := used } := rfl

@[simp] theorem table_freePid (k : Kernel σ) (p : Int) :
    table (freePid k p) = (table k).release p := by
  rw [freePid, table_setPids]
  rfl

@[simp] theorem table_handleExePaging (k : Kernel σ) (p : Int) :
    table (handleExePaging k p) = (table k).setPage p := rfl

@[simp] theorem table_pagingHalt (k : Kernel σ) (p : Int) :
    table (pagingHalt k p) = (table k).setPage p := rfl

/-- A write to one control block, field by field. -/
theorem table_modifyPcb (k : Kernel σ) (p : Int) (f : Pcb σ → Pcb σ) :
    table (k.modifyPcb p f) =
      { table k with
        pid := Function.update (table k).pid p (f (k.pcb p)).pid
        parent := Function.update (table k).parent p (f (k.pcb p)).parPid
        savedEsp := Function.update (table k).savedEsp p (f (k.pcb p)).savedEsp
        savedEbp := Function.update (table k).savedEbp p (f (k.pcb p)).savedEbp
        esp0 := Function.update (table k).esp0 p (f (k.pcb p)).esp0 } := by
  refine Table.ext rfl rfl rfl rfl ?_ ?_ ?_ ?_ ?_ rfl rfl
  · exact field_update Pcb.pid _ _ _
  · exact field_update Pcb.parPid _ _ _
  · exact field_update Pcb.savedEsp _ _ _
  · exact field_update Pcb.savedEbp _ _ _
  · exact field_update Pcb.esp0 _ _ _

/-- A write that leaves the fields of the table alone, such as one to the
descriptors or the RTC state. -/
theorem table_modifyPcb_frame (k : Kernel σ) (p : Int) (f : Pcb σ → Pcb σ)
    (hpid : (f (k.pcb p)).pid = (k.pcb p).pid)
    (hpar : (f (k.pcb p)).parPid = (k.pcb p).parPid)
    (hesp : (f (k.pcb p)).savedEsp = (k.pcb p).savedEsp)
    (hebp : (f (k.pcb p)).savedEbp = (k.pcb p).savedEbp)
    (hesp0 : (f (k.pcb p)).esp0 = (k.pcb p).esp0) :
    table (k.modifyPcb p f) = table k := by
  rw [table_modifyPcb, hpid, hpar, hesp, hebp, hesp0]
  simp [table]

@[simp] theorem table_initPcb (k : Kernel σ) (p par : Int)
    (fname farg : Nat → Byte) :
    table (k.modifyPcb p fun q => initPcb q p par fname farg) =
      (table k).adopt p par := by
  rw [table_modifyPcb]
  simp [table, Table.adopt, initPcb]

@[simp] theorem table_savePcb (k : Kernel σ) (p : Int) (esp ebp : σ) :
    table (k.modifyPcb p fun q => { q with savedEsp := esp, savedEbp := ebp }) =
      (table k).saveAt p esp ebp := by
  rw [table_modifyPcb]
  simp [table, Table.saveAt]

@[simp] theorem table_setEsp0 (k : Kernel σ) (p x : Int) :
    table (k.modifyPcb p fun q => { q with esp0 := x }) =
      (table k).setEsp0 p x := by
  rw [table_modifyPcb]
  simp [table, Table.setEsp0]

@[simp] theorem table_modifySlot (k : Kernel σ) (fd : Int)
    (f : FArray → FArray) : table (k.modifySlot fd f) = table k :=
  table_modifyPcb_frame k _ _ rfl rfl rfl rfl rfl

@[simp] theorem table_closeOp (fs : FileSys) (k : Kernel σ) (ops : Ops) :
    table (closeOp fs k ops).1 = table k := by
  cases ops with
  | rtc => exact table_modifyPcb_frame k _ _ rfl rfl rfl rfl rfl
  | terminal => rfl
  | file => rfl
  | dir => rfl

/-- `close` is refused, or it calls the close operation of a slot and, if that
succeeds, clears the slot. -/
theorem close_splits (fs : FileSys) (k : Kernel σ) (fd : Int) :
    close fs k fd = (k, -1) ∨ ∃ ops,
      close fs k fd =
        if (closeOp fs k ops).2 = 0 then
          ((closeOp fs k ops).1.modifySlot (forceFd k.curPcb.name fd) fun _ =>
            { fotp := none, inode := 0, filePos := 0, flags := FREE }, 0)
        else ((closeOp fs k ops).1, -1) := by
  unfold close
  dsimp only
  split
  · exact .inl rfl
  split
  · exact .inl rfl
  rename_i ops _
  split
  · exact .inl rfl
  · exact .inr ⟨ops, rfl⟩

@[simp] theorem table_close (fs : FileSys) (k : Kernel σ) (fd : Int) :
    table (close fs k fd).1 = table k := by
  rcases close_splits fs k fd with hclose | ⟨ops, hclose⟩
  · rw [hclose]
  · rw [hclose]
    split
    · rw [table_modifySlot, table_closeOp]
    · exact table_closeOp fs k ops

/-- The clean-up of `halt` closes files and changes no process. -/
@[simp] theorem table_closeAll (fs : FileSys) (k : Kernel σ) (pid : Int) :
    table (closeAll fs k pid) = table k := by
  unfold closeAll
  generalize ([2, 3, 4, 5, 6, 7] : List Int) = fds
  induction fds generalizing k with
  | nil => rfl
  | cons fd fds ih =>
      rw [List.foldl_cons, ih]
      split
      · rfl
      · exact table_close fs k fd

@[simp] theorem table_loadProgram (fs : FileSys) (k : Kernel σ)
    (inode : Inode) : table (loadProgram fs k inode).1 = table k := rfl

/-- `vid_mem` moves no process. -/
@[simp] theorem table_vidMem (k : Kernel σ) (t : Tid) :
    table { k with con := vidMem k.con t } = table k := rfl

end Helpers

/-! ## `get_pid` and the new control block -/

/-- `get_pid` fails without a free pid, and otherwise claims the lowest. -/
theorem getPid_none {k : Kernel σ} (h : (table k).lowestFree = none) :
    getPid k = (k, -1) := by
  have hfind : ((List.range MAX_PID).find? fun (i : Nat) => k.pidSt i == 0) =
      none := h
  simp only [getPid, hfind]

theorem getPid_some {k : Kernel σ} {i : Nat}
    (h : (table k).lowestFree = some i) :
    (getPid k).2 = (i : Int) + 1 ∧
      table (getPid k).1 = (table k).claim ((i : Int) + 1) ∧
      (getPid k).1.running = k.running := by
  have hfind : ((List.range MAX_PID).find? fun (i : Nat) => k.pidSt i == 0) =
      some i := h
  have hbit : (i : Int) + 1 - 1 = i := by omega
  refine ⟨by simp only [getPid, hfind], ?_, ?_⟩
  · simp only [getPid, hfind, Table.claim, hbit, table_setPids]
    rfl
  · simp only [Kernel.running, Kernel.runningPid, getPid, hfind]

/-- The pid that `get_pid` finds is free and in range. -/
theorem lowestFree_some {T : Table σ} {i : Nat} (h : T.lowestFree = some i) :
    i < MAX_PID ∧ T.used i = 0 := by
  have hmem := List.mem_of_find?_eq_some h
  have hfree := List.find?_some h
  simp only [List.mem_range, beq_iff_eq] at hmem hfree
  exact ⟨hmem, hfree⟩

/-- `get_pid` fails only when no pid is free. -/
theorem lowestFree_none {T : Table σ} :
    T.lowestFree = none ↔ ∀ i < MAX_PID, T.used (i : Nat) ≠ 0 := by
  simp [Table.lowestFree, List.find?_eq_none]

theorem pidFree_iff (k : Kernel σ) :
    PidFree k ↔ (table k).lowestFree ≠ none := by
  rw [Ne, lowestFree_none]
  simp [PidFree, table]

/-- `get_pid` followed by the new control block spawns a process. -/
theorem table_installProcess (k k' : Kernel σ) (p : Int)
    (fname farg : Nat → Byte) (esp ebp : σ)
    (hk : table k' = (table k).claim p) (hhead : k'.running = k.running) :
    table (installProcess k' p fname farg esp ebp) =
      (table k).spawn p esp ebp := by
  simp only [installProcess, table_setEsp0, hhead, Table.spawn, table_head]
  split
  · rename_i hpar
    simp only [table_savePcb, table_handleExePaging, table_setRunning,
      table_initPcb, hk, Table.saveParent, if_pos hpar]
  · rename_i hpar
    simp only [table_handleExePaging, table_setRunning, table_initPcb, hk,
      Table.saveParent, if_neg hpar]

/-! ## `execute` -/

/-- Reading a program of a mounted file system does not fail. -/
theorem loadProgram_ne_fail (fs : FileSys) (k : Kernel σ) (inode : Inode)
    (hinit : fs.bootB ≠ none) : (loadProgram fs k inode).2 ≠ -1 := by
  unfold loadProgram
  dsimp only
  rcases Nat.eq_zero_or_pos inode.size with hempty | hpos
  · rw [ReadData.readData_eof fs inode 0 _ _ hinit (by omega)]
    exact (by decide : (0 : Int) ≠ -1)
  · rw [ReadData.readData_spec fs inode 0 _ _ hinit hpos (by decide)]
    have hlen : min PROCCESS_STACK_SIZE.toNat (inode.size - 0) < 2 ^ 31 := by
      have hsize : PROCCESS_STACK_SIZE.toNat = 8192 := rfl
      omega
    simp only [toInt32_of_lt hlen]
    omega

/-- A name is only found in a mounted file system. -/
theorem bootB_of_found {fs : FileSys} {name : CStr} {d : Dentry}
    (h : readDentryByName fs name = some d) : fs.bootB ≠ none := by
  intro hnone
  simp [readDentryByName, hnone] at h

/-- The command names an executable, for stack contents `stk`. -/
def Runnable (fs : FileSys) (stk command : CStr) : Prop :=
  ∃ d, readDentryByName fs (fnamePtr stk (handleCommand command.bytes).1) =
      some d ∧
    handleExecuableCheck fs d ≠ FAIL_U32

/-- The lookup of `shell` reads six bytes of `fname`, which the array holds. -/
theorem lookup_shell (fs : FileSys) (stk : CStr) :
    readDentryByName fs (fnamePtr stk (handleCommand shellCmd.bytes).1) =
      readDentryByName fs
        (fnamePtr ⟨0, []⟩ (handleCommand shellCmd.bytes).1) := by
  have harray : arrayBytes FILE_NAME (handleCommand shellCmd.bytes).1 =
      115 :: 104 :: 101 :: 108 :: 108 :: 0 :: List.replicate 26 0 := by decide
  have hbytes : ∀ stk : CStr,
      (fnamePtr stk (handleCommand shellCmd.bytes).1).bytes =
        115 :: 104 :: 101 :: 108 :: 108 :: 0 ::
          (List.replicate 26 0 ++ stk.bytes) := by
    intro stk
    unfold fnamePtr
    rw [harray]
    rfl
  have hlen : ∀ stk : CStr,
      lengthOfName (fnamePtr stk (handleCommand shellCmd.bytes).1) = 5 := by
    intro stk
    simp [lengthOfName, hbytes, strlen, scanNul, enter]
  have hmatch : ∀ stk : CStr,
      dentryMatches (fnamePtr stk (handleCommand shellCmd.bytes).1) 5 =
        fun d => 5 == lengthOfD d &&
          strncmp d.filename [115, 104, 101, 108, 108] 5 == 0 := by
    intro stk
    funext d
    unfold dentryMatches
    rw [hbytes]
    rfl
  unfold readDentryByName
  simp only [hlen, hmatch]

/-- Whether `shell` is executable does not depend on the stack. -/
theorem runnable_shell (fs : FileSys) (stk : CStr) :
    Runnable fs stk shellCmd ↔ ShellRunnable fs := by
  unfold Runnable ShellRunnable
  rw [lookup_shell]

/-- What a successful `execute` leaves behind. -/
def Spawned (k : Kernel σ) (esp ebp : σ) (r : Kernel σ × ExecResult) : Prop :=
  ∃ i entAdd, (table k).lowestFree = some i ∧
    r.2 = .enter ((i : Int) + 1) entAdd ∧
    table r.1 = (table k).spawn ((i : Int) + 1) esp ebp

/-- An executable and a free pid make `execute` succeed. -/
theorem execute_spawned {fs : FileSys} {stk command : CStr} {k : Kernel σ}
    (esp ebp : σ) (hrun : Runnable fs stk command)
    (hfree : (table k).lowestFree ≠ none) :
    Spawned k esp ebp (execute fs stk k (some command) esp ebp) := by
  obtain ⟨d, hfound, hcheck⟩ := hrun
  obtain ⟨i, hi⟩ := Option.ne_none_iff_exists'.1 hfree
  obtain ⟨hpid, htable, hhead⟩ := getPid_some hi
  have hpos : (i : Int) + 1 ≠ -1 := by omega
  have hload := fun k' : Kernel σ =>
    loadProgram_ne_fail fs k' (fs.inodeSt d.indexNode) (bootB_of_found hfound)
  simp only [execute, hfound, if_neg hcheck, hpid, if_neg hpos,
    if_neg (hload _)]
  refine ⟨i, handleExecuableCheck fs d, hi, rfl, ?_⟩
  rw [table_loadProgram]
  exact table_installProcess k _ _ _ _ esp ebp htable hhead

/-- `execute` returns `-1` for every name that is no executable. -/
theorem execute_unrunnable_some {fs : FileSys} {stk c : CStr} {k : Kernel σ}
    (esp ebp : σ) (hno : ¬ Runnable fs stk c) :
    execute fs stk k (some c) esp ebp = (k, .ret (-1)) := by
  cases hfound : readDentryByName fs
      (fnamePtr stk (handleCommand c.bytes).1) with
  | none => simp only [execute, hfound]
  | some d =>
      have hcheck : handleExecuableCheck fs d = FAIL_U32 := by
        by_contra hne
        exact hno ⟨d, hfound, hne⟩
      simp only [execute, hfound, if_pos hcheck]

/-- For an executable it returns 0 when no pid is free. -/
theorem execute_no_pid {fs : FileSys} {stk c : CStr} {k : Kernel σ}
    (esp ebp : σ) (hrun : Runnable fs stk c) (hfull : ¬ PidFree k) :
    execute fs stk k (some c) esp ebp = (k, .ret 0) := by
  obtain ⟨d, hfound, hcheck⟩ := hrun
  have hnone : (table k).lowestFree = none := by
    rw [pidFree_iff] at hfull
    exact not_not.1 hfull
  simp only [execute, hfound, if_neg hcheck, getPid_none hnone, if_true]

/-- Without an executable `execute` changes nothing. -/
theorem execute_unrunnable {fs : FileSys} {stk : CStr} {k : Kernel σ}
    {command : Option CStr} (esp ebp : σ)
    (h : ∀ c, command = some c → ¬ Runnable fs stk c) :
    ∃ value, execute fs stk k command esp ebp = (k, .ret value) := by
  cases command with
  | none => exact ⟨0, rfl⟩
  | some c => exact ⟨-1, execute_unrunnable_some esp ebp (h c rfl)⟩

/-- `execute` returns and has changed nothing, or it has spawned a process on
the lowest free pid. -/
theorem execute_cases (fs : FileSys) (stk : CStr) (k : Kernel σ)
    (command : Option CStr) (esp ebp : σ) :
    (∃ value, execute fs stk k command esp ebp = (k, .ret value)) ∨
      Spawned k esp ebp (execute fs stk k command esp ebp) := by
  by_cases hrun : ∃ c, command = some c ∧ Runnable fs stk c
  · obtain ⟨c, rfl, hc⟩ := hrun
    by_cases hfree : PidFree k
    · exact .inr (execute_spawned esp ebp hc ((pidFree_iff k).1 hfree))
    · exact .inl ⟨0, execute_no_pid esp ebp hc hfree⟩
  · exact .inl (execute_unrunnable esp ebp fun c hc hrunnable =>
      hrun ⟨c, hc, hrunnable⟩)

/-- Without a free pid `execute` changes nothing. -/
theorem execute_full {fs : FileSys} {stk : CStr} {k : Kernel σ}
    (command : Option CStr) (esp ebp : σ)
    (hfull : (table k).lowestFree = none) :
    ∃ value, execute fs stk k command esp ebp = (k, .ret value) := by
  rcases execute_cases fs stk k command esp ebp with hret | hspawn
  · exact hret
  · obtain ⟨i, _, hi, _⟩ := hspawn
    rw [hfull] at hi
    cases hi

/-! ## `halt` and `process_switch` -/

/-- The kernel in which `halt` looks for the parent. -/
def afterClose (fs : FileSys) (k : Kernel σ) : Kernel σ :=
  closeAll fs (freePid k (k.pcb k.running).pid) k.running

theorem table_afterClose (fs : FileSys) (k : Kernel σ) :
    table (afterClose fs k) = (table k).release ((table k).pid k.running) := by
  simp only [afterClose, table_closeAll, table_freePid]
  rfl

theorem afterClose_parPid (fs : FileSys) (k : Kernel σ) (p : Int) :
    ((afterClose fs k).pcb p).parPid = (table k).parent p := by
  have hparent : ∀ m : Kernel σ, (m.pcb p).parPid = (table m).parent p :=
    fun _ => rfl
  rw [hparent, table_afterClose]
  rfl

/-- What `halt` does to the kernel on its way to the parent. -/
def backToParent (k : Kernel σ) (parPid : Int) : Kernel σ :=
  (pagingHalt { k.setRunning parPid with tssEsp0 := stackTop parPid }
    parPid).setVidmap (k.pcb parPid).vidmap

/-- The `return_value` of `halt`. -/
def returnValue (status : Byte) : Nat :=
  if status = EXCEPTION then EXCEPT_RET else status.toNat

/-- `halt` behind its clean-up loop. -/
def haltTail (fs : FileSys) (stk : CStr) (k : Kernel σ) (pid : Int)
    (status : Byte) (esp ebp : σ) : Kernel σ × HaltResult σ :=
  let parPid := (k.pcb pid).parPid
  if parPid = -1 then
    let r := execute fs stk (k.setRunning (-1)) (some shellCmd) esp ebp
    (r.1, .restart r.2)
  else
    (backToParent k parPid,
      .resume (k.pcb parPid).savedEsp (k.pcb parPid).savedEbp
        (returnValue status))

theorem halt_eq (fs : FileSys) (stk : CStr) (k : Kernel σ) (status : Byte)
    (esp ebp : σ) :
    halt fs stk k status esp ebp =
      haltTail fs stk (afterClose fs k) k.running status esp ebp := by
  by_cases hbase : ((afterClose fs k).pcb k.running).parPid = -1
  · rw [haltTail, if_pos hbase]
    simp only [afterClose] at hbase ⊢
    simp only [halt, if_pos hbase]
  · rw [haltTail, if_neg hbase]
    simp only [afterClose] at hbase ⊢
    simp only [halt, backToParent, returnValue, if_neg hbase]

/-- A base shell that halts leaves its terminal idle and runs `execute`. -/
theorem halt_restarts (fs : FileSys) {k : Kernel σ} (stk : CStr)
    (status : Byte) (esp ebp : σ) (hbase : (table k).parent k.running = -1) :
    halt fs stk k status esp ebp =
      ((execute fs stk ((afterClose fs k).setRunning (-1)) (some shellCmd) esp
        ebp).1,
        .restart (execute fs stk ((afterClose fs k).setRunning (-1))
          (some shellCmd) esp ebp).2) := by
  rw [halt_eq, haltTail, afterClose_parPid, if_pos hbase]

/-- Any other process goes back to its parent. -/
theorem halt_returns (fs : FileSys) {k : Kernel σ} (stk : CStr)
    (status : Byte) (esp ebp : σ) (hchild : (table k).parent k.running ≠ -1) :
    halt fs stk k status esp ebp =
      (backToParent (afterClose fs k) ((table k).parent k.running),
        .resume ((afterClose fs k).pcb ((table k).parent k.running)).savedEsp
          ((afterClose fs k).pcb ((table k).parent k.running)).savedEbp
          (returnValue status)) := by
  rw [halt_eq, haltTail, afterClose_parPid, if_neg hchild]

/-- The table of the kernel in which the parent runs. -/
theorem table_left (fs : FileSys) (k : Kernel σ) :
    table ((afterClose fs k).setRunning ((table k).parent k.running)) =
      (table k).leave := by
  rw [table_setRunning, table_afterClose, Table.leave, table_head]

/-- A base shell that halts runs `execute` again, as on an idle terminal. -/
theorem halt_base (fs : FileSys) (k : Kernel σ) (stk : CStr) (status : Byte)
    (esp ebp : σ) (hbase : (table k).parent k.running = -1) :
    ∃ k', table k' = (table k).leave ∧
      halt fs stk k status esp ebp =
        ((execute fs stk k' (some shellCmd) esp ebp).1,
          .restart (execute fs stk k' (some shellCmd) esp ebp).2) := by
  have hleft := table_left fs k
  rw [hbase] at hleft
  exact ⟨_, hleft, halt_restarts fs stk status esp ebp hbase⟩

/-- The parent resumes with the stack pointers in its control block. -/
theorem halt_child (fs : FileSys) (k : Kernel σ) (stk : CStr) (status : Byte)
    (esp ebp : σ) (hchild : (table k).parent k.running ≠ -1) :
    table (halt fs stk k status esp ebp).1 = (table k).leave.reload ∧
      (halt fs stk k status esp ebp).2 =
        .resume ((table k).savedEsp ((table k).parent k.running))
          ((table k).savedEbp ((table k).parent k.running))
          (returnValue status) := by
  have hsavedEsp : ∀ (m : Kernel σ) p, (m.pcb p).savedEsp =
      (table m).savedEsp p := fun _ _ => rfl
  have hsavedEbp : ∀ (m : Kernel σ) p, (m.pcb p).savedEbp =
      (table m).savedEbp p := fun _ _ => rfl
  rw [halt_returns fs stk status esp ebp hchild]
  constructor
  · have hleft := table_left fs k
    have hhead : (table k).leave.head = (table k).parent k.running :=
      leave_head (table k)
    rw [Table.reload, hhead, ← hleft]
    simp only [backToParent, table_setVidmap, table_pagingHalt, table_setTss]
  · rw [hsavedEsp, hsavedEbp, table_afterClose]
    rfl

/-- `process_switch` with the running process's context stored. -/
def saveRunning (k : Kernel σ) (esp ebp : σ) : Kernel σ :=
  if k.running > 0 ∧ k.running ≤ MAX_PROCESS then
    k.modifyPcb k.running fun p =>
      { p with savedEbp := ebp, savedEsp := esp, esp0 := k.tssEsp0 }
  else k

theorem table_saveRunning (k : Kernel σ) (esp ebp : σ) :
    table (saveRunning k esp ebp) = (table k).save esp ebp := by
  unfold saveRunning Table.save
  rw [table_head]
  split
  · rw [table_modifyPcb]
    simp [table, Table.saveAt, Table.setEsp0]
  · rfl

theorem saveRunning_con (k : Kernel σ) (esp ebp : σ) :
    (saveRunning k esp ebp).con = k.con := by
  unfold saveRunning
  split <;> rfl

theorem processSwitch_eq (fs : FileSys) (stk : CStr) (k : Kernel σ) (tid : Tid)
    (esp ebp espExe ebpExe : σ) :
    processSwitch fs stk k tid esp ebp espExe ebpExe =
      let k := saveRunning k esp ebp
      if k.runningPid tid = -1 then
        let r := execute fs stk
          { k with con := { k.con with currentTid := tid } } (some shellCmd)
          espExe ebpExe
        (r.1, .started r.2)
      else
        let p := k.runningPid tid
        ({ handleSwitchPaging k p with
            tssEsp0 := (k.pcb p).esp0
            con := { k.con with currentTid := tid } },
          .resume (k.pcb p).savedEsp (k.pcb p).savedEbp) := rfl

/-- The kernel in which a switch to a terminal without a process calls
`execute`. -/
def visited (k : Kernel σ) (tid : Tid) (esp ebp : σ) : Kernel σ :=
  { saveRunning k esp ebp with
    con := { (saveRunning k esp ebp).con with currentTid := tid } }

/-- The kernel in which a switch resumes the process of a terminal. -/
def resumed (k : Kernel σ) (tid : Tid) (esp ebp : σ) : Kernel σ :=
  { handleSwitchPaging (saveRunning k esp ebp) (k.runningPid tid) with
    tssEsp0 := ((saveRunning k esp ebp).pcb (k.runningPid tid)).esp0
    con := { (saveRunning k esp ebp).con with currentTid := tid } }

theorem saveRunning_runningPid (k : Kernel σ) (tid : Tid) (esp ebp : σ) :
    (saveRunning k esp ebp).runningPid tid = k.runningPid tid := by
  rw [Kernel.runningPid, saveRunning_con]
  rfl

theorem processSwitch_visited {fs : FileSys} {k : Kernel σ} {tid : Tid}
    (stk : CStr) (esp ebp espExe ebpExe : σ) (hidle : k.runningPid tid = -1) :
    processSwitch fs stk k tid esp ebp espExe ebpExe =
      ((execute fs stk (visited k tid esp ebp) (some shellCmd) espExe ebpExe).1,
        .started (execute fs stk (visited k tid esp ebp) (some shellCmd) espExe
          ebpExe).2) := by
  rw [processSwitch_eq]
  simp only [saveRunning_runningPid, hidle, if_true]
  rfl

theorem processSwitch_resumed {fs : FileSys} {k : Kernel σ} {tid : Tid}
    (stk : CStr) (esp ebp espExe ebpExe : σ) (hbusy : k.runningPid tid ≠ -1) :
    processSwitch fs stk k tid esp ebp espExe ebpExe =
      (resumed k tid esp ebp,
        .resume ((saveRunning k esp ebp).pcb (k.runningPid tid)).savedEsp
          ((saveRunning k esp ebp).pcb (k.runningPid tid)).savedEbp) := by
  rw [processSwitch_eq]
  simp only [saveRunning_runningPid, if_neg hbusy]
  rfl

theorem table_visited (k : Kernel σ) (tid : Tid) (esp ebp : σ) :
    table (visited k tid esp ebp) = ((table k).save esp ebp).visit tid := by
  rw [← table_saveRunning]
  rfl

theorem table_resumed (k : Kernel σ) (tid : Tid) (esp ebp : σ) :
    table (resumed k tid esp ebp) = ((table k).save esp ebp).resume tid := by
  rw [← table_saveRunning, resumed, ← saveRunning_runningPid k tid esp ebp]
  rfl

/-- A switch to a terminal without a process runs `execute` there. -/
theorem processSwitch_idle (fs : FileSys) (k : Kernel σ) {tid : Tid}
    (stk : CStr) (esp ebp espExe ebpExe : σ) (hidle : k.runningPid tid = -1) :
    ∃ k', table k' = ((table k).save esp ebp).visit tid ∧
      processSwitch fs stk k tid esp ebp espExe ebpExe =
        ((execute fs stk k' (some shellCmd) espExe ebpExe).1,
          .started (execute fs stk k' (some shellCmd) espExe ebpExe).2) :=
  ⟨_, table_visited k tid esp ebp,
    processSwitch_visited stk esp ebp espExe ebpExe hidle⟩

/-- A switch to a terminal with a process resumes it. -/
theorem processSwitch_resume (fs : FileSys) (k : Kernel σ) {tid : Tid}
    (stk : CStr) (esp ebp espExe ebpExe : σ) (hbusy : k.runningPid tid ≠ -1) :
    table (processSwitch fs stk k tid esp ebp espExe ebpExe).1 =
        ((table k).save esp ebp).resume tid ∧
      (processSwitch fs stk k tid esp ebp espExe ebpExe).2 =
        .resume (((table k).save esp ebp).savedEsp (k.runningPid tid))
          (((table k).save esp ebp).savedEbp (k.runningPid tid)) := by
  rw [processSwitch_resumed stk esp ebp espExe ebpExe hbusy]
  refine ⟨table_resumed k tid esp ebp, ?_⟩
  rw [← table_saveRunning]
  rfl

/-! ## One step of the process system -/

/-- What a step of the process system does to the process table. -/
inductive Step (T : Table σ) : ProcEvent σ → Table σ → Prop
  /-- `execute` returns. -/
  | fail (stk command esp ebp) (hhead : T.head ≠ -1) :
      Step T (.execute stk command esp ebp) T
  /-- `execute` enters a new process. -/
  | exec (stk command esp ebp) (i : Nat) (hhead : T.head ≠ -1)
      (hfree : T.lowestFree = some i) :
      Step T (.execute stk command esp ebp)
        ((T.spawn ((i : Int) + 1) esp ebp).enter ((i : Int) + 1))
  /-- `halt` returns to the parent. -/
  | exit (stk status esp ebp) (hhead : T.head ≠ -1)
      (hchild : T.parent T.head ≠ -1) :
      Step T (.halt stk status esp ebp) T.leave.reload
  /-- `halt` starts a base shell again. -/
  | restart (stk status esp ebp) (i : Nat) (hhead : T.head ≠ -1)
      (hbase : T.parent T.head = -1) (hfree : T.leave.lowestFree = some i) :
      Step T (.halt stk status esp ebp)
        ((T.leave.spawn ((i : Int) + 1) esp ebp).enter ((i : Int) + 1))
  /-- `halt` finds no shell to start again. -/
  | lost (stk status esp ebp) (hhead : T.head ≠ -1)
      (hbase : T.parent T.head = -1) :
      Step T (.halt stk status esp ebp) T.leave
  /-- `process_switch` resumes a process. -/
  | resume (t stk esp ebp espExe ebpExe) (hbusy : T.running t ≠ -1) :
      Step T (.switch t stk esp ebp espExe ebpExe) ((T.save esp ebp).resume t)
  /-- `process_switch` starts a base shell. -/
  | start (t stk esp ebp espExe ebpExe) (i : Nat) (hidle : T.running t = -1)
      (hfree : T.lowestFree = some i) :
      Step T (.switch t stk esp ebp espExe ebpExe)
        ((((T.save esp ebp).visit t).spawn ((i : Int) + 1) espExe ebpExe).enter
          ((i : Int) + 1))
  /-- `process_switch` finds no shell or no pid to start one. -/
  | stuck (t stk esp ebp espExe ebpExe) (hidle : T.running t = -1) :
      Step T (.switch t stk esp ebp espExe ebpExe) ((T.save esp ebp).visit t)

theorem finishExecute_spawned {k : Kernel σ} {esp ebp : σ}
    {r : Kernel σ × ExecResult} (h : Spawned k esp ebp r) :
    ∃ i, (table k).lowestFree = some i ∧
      table (finishExecute r) =
        ((table k).spawn ((i : Int) + 1) esp ebp).enter ((i : Int) + 1) := by
  obtain ⟨k', res⟩ := r
  obtain ⟨i, entAdd, hfree, hres, htable⟩ := h
  simp only at hres htable
  refine ⟨i, hfree, ?_⟩
  rw [hres, finishExecute, ← htable]
  rfl

theorem finishExecute_ret (k : Kernel σ) (value : Int) :
    finishExecute (k, .ret value) = k := rfl

@[simp] theorem lowestFree_save_visit (T : Table σ) (esp ebp : σ) (t : Tid) :
    ((T.save esp ebp).visit t).lowestFree = T.lowestFree := by
  unfold Table.save
  split <;> rfl

/-- The process system refines the steps on process tables. -/
theorem procStep_table {fs : FileSys} {k k' : Kernel σ} {e : ProcEvent σ}
    (h : ProcStep fs k e k') : Step (table k) e (table k') := by
  cases e with
  | execute stk command esp ebp =>
      simp only [ProcStep, procStep] at h
      split at h
      · cases h
      · rename_i hhead
        cases h
        rcases execute_cases fs stk k command esp ebp with ⟨value, hret⟩ | hspawn
        · rw [hret, finishExecute_ret]
          exact .fail stk command esp ebp hhead
        · obtain ⟨i, hfree, htable⟩ := finishExecute_spawned hspawn
          rw [htable]
          exact .exec stk command esp ebp i hhead hfree
  | halt stk status esp ebp =>
      simp only [ProcStep, procStep] at h
      split at h
      · cases h
      · rename_i hhead
        by_cases hbase : (table k).parent k.running = -1
        · obtain ⟨m, hm, hhalt⟩ := halt_base fs k stk status esp ebp hbase
          rw [hhalt] at h
          cases h
          rcases execute_cases fs stk m (some shellCmd) esp ebp with
            ⟨value, hret⟩ | hspawn
          · rw [hret, finishExecute_ret, hm]
            exact .lost stk status esp ebp hhead hbase
          · obtain ⟨i, hfree, htable⟩ := finishExecute_spawned hspawn
            rw [htable, hm]
            exact .restart stk status esp ebp i hhead hbase (hm ▸ hfree)
        · obtain ⟨htable, hres⟩ := halt_child fs k stk status esp ebp hbase
          generalize halt fs stk k status esp ebp = r at h htable hres
          obtain ⟨m, res⟩ := r
          subst hres
          cases h
          rw [htable]
          exact .exit stk status esp ebp hhead hbase
  | switch t stk esp ebp espExe ebpExe =>
      simp only [ProcStep, procStep] at h
      by_cases hidle : k.runningPid t = -1
      · obtain ⟨m, hm, hswitch⟩ :=
          processSwitch_idle fs k stk esp ebp espExe ebpExe hidle
        rw [hswitch] at h
        cases h
        rcases execute_cases fs stk m (some shellCmd) espExe ebpExe with
          ⟨value, hret⟩ | hspawn
        · rw [hret, finishExecute_ret, hm]
          exact .stuck t stk esp ebp espExe ebpExe hidle
        · obtain ⟨i, hfree, htable⟩ := finishExecute_spawned hspawn
          rw [hm, lowestFree_save_visit] at hfree
          rw [htable, hm]
          exact .start t stk esp ebp espExe ebpExe i hidle hfree
      · obtain ⟨htable, hres⟩ :=
          processSwitch_resume fs k stk esp ebp espExe ebpExe hidle
        generalize processSwitch fs stk k t esp ebp espExe ebpExe = r
          at h htable hres
        obtain ⟨m, res⟩ := r
        subst hres
        cases h
        rw [htable]
        exact .resume t stk esp ebp espExe ebpExe hidle

end MongOS.Proofs.ProcTable
