import MongOS.Proofs.ProcForest
import MongOS.Proofs.ProcSteps

/-!
# The user's video page, step by step

A program that has called `vidmap` draws through entry `OUR_VID_MAP` of
`page_table_usermapping`.  `Video` is the part of the kernel that the mapping
is about: the console without its screens, the entries of the page table, and
the permissions and allocation of the processes.

* `entries_terminalSwitch` — a terminal switch recomputes the entry of the
  current terminal.
* `video_execute`, `halt_change`, `vidmap_valid`, `pit_change` — the functions
  on the video data.
* `step_change` — what one step can do.
-/

namespace MongOS.Proofs.VideoSteps

open MongOS.Model
open MongOS.Verified
open MongOS.Proofs.ProcTable
open MongOS.Proofs.ProcForest
open MongOS.Proofs.ScreenFrame
open MongOS.Proofs.ExecuteChecks
open MongOS.Proofs.ProcSteps

variable {σ : Type}

/-! ## The page-table entries -/

/-- The entries of `page_table_usermapping`. -/
def entries (c : Console) : Int → Pte := c.userMapping

/-- What `vid_mem` writes to the entry of the user's video page. -/
def pageOf (i : Input) (t : Tid) : Pte :=
  { present := i.vidmap t
    address := if t ≠ i.display then i.videoCurPos t / PAGE else VIDEO / PAGE }

theorem entries_vidMem (c : Console) (t : Tid) :
    entries (vidMem c t) =
      Function.update (entries c) OUR_VID_MAP (pageOf (input c) t) := rfl

/-- The same with the current terminal read off the other data. -/
theorem entries_vidMem_cur (c : Console) :
    entries (vidMem c c.currentTid) =
      Function.update (entries c) OUR_VID_MAP
        (pageOf (input c) (input c).cur) := rfl

theorem entries_poke (c : Console) (va : Int) (b : Byte) :
    entries (c.poke va b) = entries c := rfl

theorem entries_putCell (c : Console) (i : Int) (ch : Byte) :
    entries (putCell c i ch) = entries c := rfl

theorem entries_setXY (c : Console) (x y : Int) :
    entries (c.setXY x y) = entries c := rfl

theorem entries_updateCursor (c : Console) (x y : Int) :
    entries (updateCursor c x y) = entries c := rfl

theorem entries_setDisplay (c : Console) (t : Tid) :
    entries { c with displayTerminal := t } = entries c := rfl

theorem entries_setScreenT (c : Console) (t : Tid) :
    entries { c with screenT := t } = entries c := rfl

theorem entries_memcpyPage (c : Console) (dest src : Int) :
    entries (memcpyPage c dest src) = entries c :=
  foldl_keeps entries _ (fun c _ => entries_poke c _ _) _ c

/-- `clear` writes the entry twice; the current terminal is the last. -/
theorem entries_clear (c : Console) :
    entries (clear c) =
      Function.update (entries c) OUR_VID_MAP
        (pageOf (input c) (input c).cur) := by
  unfold clear
  rw [entries_vidMem_cur, input_updateCursor, input_setXY,
    foldl_keeps input _ (fun c (i : Nat) => input_putCell c i 32),
    input_vidMem, entries_updateCursor, entries_setXY,
    foldl_keeps entries _ (fun c (i : Nat) => entries_putCell c i 32),
    entries_vidMem, Function.update_idem]

/-- A terminal switch recomputes the entry of the current terminal. -/
theorem entries_terminalSwitch (c : Console) {t : Tid}
    (ht : t ≠ c.displayTerminal) :
    entries (terminalSwitch c t) =
      Function.update (entries c) OUR_VID_MAP
        (pageOf { input c with display := t } (input c).cur) := by
  unfold terminalSwitch
  rw [if_neg ht, entries_vidMem_cur, input_setDisplay, input_memcpyPage,
    input_memcpyPage, input_vidMem, input_updateCursor, input_setScreenT,
    entries_setDisplay, entries_memcpyPage, entries_memcpyPage,
    entries_vidMem, entries_updateCursor, entries_setScreenT,
    Function.update_idem]

/-! ## The video data of a kernel -/

/-- The kernel as the mapping of the video page sees it: `allowed` are the
`vidmap` fields of the control blocks. -/
@[ext] structure Video where
  input : Input
  entries : Int → Pte
  allowed : Int → Nat
  used : Int → Int

/-- The video data of a kernel. -/
def video (k : Kernel σ) : Video :=
  { input := input k.con
    entries := entries k.con
    allowed := fun p => (k.pcb p).vidmap
    used := k.pidSt }

namespace Video

/-- The pid that runs on the current terminal. -/
def head (V : Video) : Int := V.input.running V.input.cur

/-- `current_terminal->running_pid = p`. -/
def setRunning (V : Video) (p : Int) : Video :=
  { V with
    input := { V.input with
      running := Function.update V.input.running V.input.cur p } }

/-- `current_terminal->vidmap = v`. -/
def setVidmap (V : Video) (v : Nat) : Video :=
  { V with
    input := { V.input with
      vidmap := Function.update V.input.vidmap V.input.cur v } }

/-- A new process without permission, on pid `p`. -/
def spawn (V : Video) (p : Int) : Video :=
  { V.setRunning p with
    allowed := Function.update V.allowed p 0
    used := Function.update V.used (p - 1) 1 }

/-- Give back a pid. -/
def release (V : Video) (p : Int) : Video :=
  { V with used := Function.update V.used (p - 1) 0 }

/-- The entry that `vidmap` opens and `paging_halt` closes. -/
def slot (V : Video) : Int :=
  if V.input.display = V.input.cur then OUR_VID_MAP
  else OUR_VID_MAP + 1 + V.input.cur.val

/-- `paging_halt` on the page table. -/
def unmap (V : Video) : Video :=
  { V with
    entries := Function.update V.entries V.slot
      { V.entries V.slot with present := 0 } }

/-- `vidmap`. -/
def map (V : Video) : Video :=
  { V.setVidmap OPEN with
    allowed := Function.update V.allowed V.head OPEN
    entries := Function.update V.entries V.slot
      { present := OPEN, address := VIDEO_OF12 } }

/-- `vid_mem`. -/
def retarget (V : Video) (t : Tid) : Video :=
  { V with
    entries := Function.update V.entries OUR_VID_MAP (pageOf V.input t) }

/-- The interrupt of the PIT, before a process is started or resumed. -/
def visit (V : Video) (t : Tid) : Video :=
  { V.retarget t with input := { V.input with cur := t } }

/-- The end of a process that has a parent. -/
def exit (V : Video) (pid par : Int) : Video :=
  ((((V.release pid).setRunning par).unmap).setVidmap (V.allowed par))

/-- The end of a process that has none. -/
def vacate (V : Video) (pid : Int) : Video :=
  (V.release pid).setRunning (-1)

/-- A terminal switch to a terminal that is not displayed. -/
def display (V : Video) (t : Tid) : Video :=
  { V with input := { V.input with display := t } }.retarget V.input.cur

end Video

/-! ## The process functions on the video data -/

/-- A write to one terminal, field by field. -/
theorem input_modify (c : Console) (t : Tid) (f : Terminal → Terminal) :
    input (c.modify t f) =
      { input c with
        buffer := Function.update (input c).buffer t
          (f (c.multiTerminal t)).keyboardBuffer
        size := Function.update (input c).size t
          (f (c.multiTerminal t)).bufferSize
        ready := Function.update (input c).ready t
          (f (c.multiTerminal t)).terminalEnable
        videoCurPos := Function.update (input c).videoCurPos t
          (f (c.multiTerminal t)).videoCurPos
        vidmap := Function.update (input c).vidmap t
          (f (c.multiTerminal t)).vidmap
        running := Function.update (input c).running t
          (f (c.multiTerminal t)).runningPid } := by
  refine Input.ext ?_ ?_ ?_ ?_ ?_ ?_ rfl rfl rfl
  · exact field_update Terminal.keyboardBuffer _ _ _
  · exact field_update Terminal.bufferSize _ _ _
  · exact field_update Terminal.terminalEnable _ _ _
  · exact field_update Terminal.videoCurPos _ _ _
  · exact field_update Terminal.vidmap _ _ _
  · exact field_update Terminal.runningPid _ _ _

theorem input_setRunning (k : Kernel σ) (p : Int) :
    input (k.setRunning p).con =
      { input k.con with
        running := Function.update (input k.con).running k.con.currentTid p } := by
  rw [Kernel.setRunning, input_modify]
  simp [input]

theorem input_setVidmap (k : Kernel σ) (v : Nat) :
    input (k.setVidmap v).con =
      { input k.con with
        vidmap := Function.update (input k.con).vidmap k.con.currentTid v } := by
  rw [Kernel.setVidmap, input_modify]
  simp [input]

/-- Video data are equal when their parts are. -/
theorem video_eq {k : Kernel σ} {V : Video} (hinput : input k.con = V.input)
    (hentries : entries k.con = V.entries)
    (hallowed : ∀ p, (k.pcb p).vidmap = V.allowed p) (hused : k.pidSt = V.used) :
    video k = V := Video.ext hinput hentries (funext hallowed) hused

theorem video_setRunning (k : Kernel σ) (p : Int) :
    video (k.setRunning p) = (video k).setRunning p :=
  Video.ext (input_setRunning k p) rfl rfl rfl

theorem video_setVidmap (k : Kernel σ) (v : Nat) :
    video (k.setVidmap v) = (video k).setVidmap v :=
  Video.ext (input_setVidmap k v) rfl rfl rfl

/-- A new process changes the running pid of its terminal. -/
theorem installProcess_con (k : Kernel σ) (pid : Int) (fname farg : Nat → Byte)
    (esp ebp : σ) :
    (installProcess k pid fname farg esp ebp).con = (k.setRunning pid).con := by
  unfold installProcess
  dsimp only
  split <;> rfl

theorem installs_con {k k' : Kernel σ} {c : CStr} {i : Nat} {esp ebp : σ}
    (h : Installs k c i esp ebp k') :
    k'.con = (k.setRunning ((i : Int) + 1)).con := by
  rw [h.con, installed, installProcess_con]
  unfold Kernel.setRunning
  rw [(getPid_keeps k).2.2]

/-- `close` leaves the console and the permission of every process alone. -/
theorem closeRound_video (fs : FileSys) (pid : Int) (k : Kernel σ) (i : Int) :
    (closeRound fs pid k i).con = k.con ∧
      ∀ p, ((closeRound fs pid k i).pcb p).vidmap = (k.pcb p).vidmap := by
  have hop : ∀ ops, (closeOp fs k ops).1.con = k.con ∧
      ∀ p, ((closeOp fs k ops).1.pcb p).vidmap = (k.pcb p).vidmap := by
    intro ops
    cases ops with
    | rtc =>
        refine ⟨rfl, fun p => ?_⟩
        simp only [closeOp, rtcClose, Kernel.modifyCur]
        apply proj_modifyPcb Pcb.vidmap
        exact fun _ => rfl
    | terminal => exact ⟨rfl, fun _ => rfl⟩
    | file => exact ⟨rfl, fun _ => rfl⟩
    | dir => exact ⟨rfl, fun _ => rfl⟩
  unfold closeRound
  split
  · exact ⟨rfl, fun _ => rfl⟩
  rcases close_splits fs k i with hclose | ⟨ops, hclose⟩
  · rw [hclose]
    exact ⟨rfl, fun _ => rfl⟩
  obtain ⟨hcon, hvidmap⟩ := hop ops
  rw [hclose]
  split
  · refine ⟨hcon, fun p => ?_⟩
    rw [← hvidmap p]
    dsimp only [Kernel.modifySlot, Kernel.modifyCur]
    apply proj_modifyPcb Pcb.vidmap
    exact fun _ => rfl
  · exact ⟨hcon, hvidmap⟩

theorem afterClose_video (fs : FileSys) (k : Kernel σ) :
    (afterClose fs k).con = k.con ∧
      ∀ p, ((afterClose fs k).pcb p).vidmap = (k.pcb p).vidmap := by
  have hloop : ∀ (pid : Int) (fds : List Int) (m : Kernel σ),
      (fds.foldl (closeRound fs pid) m).con = m.con ∧
        ∀ p, ((fds.foldl (closeRound fs pid) m).pcb p).vidmap =
          (m.pcb p).vidmap := by
    intro pid fds
    induction fds with
    | nil => exact fun m => ⟨rfl, fun _ => rfl⟩
    | cons fd fds ih =>
        intro m
        obtain ⟨hcon, hvidmap⟩ := ih (closeRound fs pid m fd)
        obtain ⟨hcon', hvidmap'⟩ := closeRound_video fs pid m fd
        exact ⟨hcon.trans hcon', fun p => (hvidmap p).trans (hvidmap' p)⟩
  have hfree : ∀ pid, (freePid k pid).con = k.con ∧
      (freePid k pid).pcb = k.pcb := fun _ => ⟨rfl, rfl⟩
  obtain ⟨hcon, hpcb⟩ := hfree (k.pcb k.running).pid
  rw [afterClose, closeAll_eq, ← hcon, ← hpcb]
  exact hloop k.running [2, 3, 4, 5, 6, 7] _

/-- `vid_mem` and the switch behind it make a terminal the current one. -/
theorem visited_con (k : Kernel σ) (t u : Tid) (esp ebp : σ) :
    (visited { k with con := vidMem k.con u } t esp ebp).con =
      { vidMem k.con u with currentTid := t } := by
  unfold visited
  rw [saveRunning_con]

theorem resumed_con (k : Kernel σ) (t u : Tid) (esp ebp : σ) :
    (resumed { k with con := vidMem k.con u } t esp ebp).con =
      { vidMem k.con u with currentTid := t } := by
  unfold resumed
  rw [saveRunning_con]

/-- `execute` starts a process without permission. -/
theorem video_installs {k k' : Kernel σ} {c : CStr} {i : Nat} {esp ebp : σ}
    (h : Installs k c i esp ebp k') :
    video k' = (video k).spawn ((i : Int) + 1) := by
  have hallowed : ∀ p, (k'.pcb p).vidmap =
      Function.update (fun q => (k.pcb q).vidmap) ((i : Int) + 1) 0 p := by
    intro p
    rw [h.pcb, installed, installProcess_proj Pcb.vidmap (fun _ _ _ => rfl)
      (fun _ _ => rfl), Function.update_apply, (getPid_keeps k).2.1]
    rfl
  refine video_eq ?_ ?_ hallowed ?_
  · rw [installs_con h, input_setRunning]
    rfl
  · rw [installs_con h]
    rfl
  · rw [h.pidSt, Video.spawn, Int.add_sub_cancel]
    rfl

theorem video_afterClose (fs : FileSys) (k : Kernel σ) :
    video (afterClose fs k) =
      (video k).release (k.pcb k.running).pid := by
  obtain ⟨hcon, hvidmap⟩ := afterClose_video fs k
  have hused : ∀ m : Kernel σ, m.pidSt = (table m).used := fun _ => rfl
  refine video_eq ?_ ?_ hvidmap ?_
  · rw [hcon]
    rfl
  · rw [hcon]
    rfl
  · rw [hused, table_afterClose]
    rfl

theorem video_pagingHalt (k : Kernel σ) (p : Int) :
    video (pagingHalt k p) = (video k).unmap := rfl

theorem video_backToParent (k : Kernel σ) (par : Int) :
    video (backToParent k par) =
      (((video k).setRunning par).unmap).setVidmap ((video k).allowed par) := by
  have htss : ∀ m : Kernel σ,
      video { m with tssEsp0 := stackTop par } = video m := fun _ => rfl
  rw [backToParent, video_setVidmap, video_pagingHalt, htss, video_setRunning]
  rfl

/-- The PIT turns to a terminal. -/
theorem video_visited (k : Kernel σ) (t : Tid) (esp ebp : σ) :
    video (visited { k with con := vidMem k.con t } t esp ebp) =
      (video k).visit t := by
  have hallowed := saveRunning_proj Pcb.vidmap (fun _ _ _ _ => rfl)
    { k with con := vidMem k.con t } esp ebp
  have hcon := visited_con k t t esp ebp
  refine video_eq ?_ ?_ hallowed (saveRunning_pidSt _ _ _)
  · rw [hcon]
    rfl
  · rw [hcon]
    rfl

theorem video_resumed (k : Kernel σ) (t : Tid) (esp ebp : σ) :
    video (resumed { k with con := vidMem k.con t } t esp ebp) =
      (video k).visit t := by
  have hallowed := saveRunning_proj Pcb.vidmap (fun _ _ _ _ => rfl)
    { k with con := vidMem k.con t } esp ebp
  have hcon := resumed_con k t t esp ebp
  refine video_eq ?_ ?_ hallowed (saveRunning_pidSt _ _ _)
  · rw [hcon]
    rfl
  · rw [hcon]
    rfl

/-- Turning to a terminal frees no pid. -/
theorem lowestFree_visited (k : Kernel σ) (t : Tid) (esp ebp : σ) :
    (table (visited { k with con := vidMem k.con t } t esp ebp)).lowestFree =
      (table k).lowestFree := by
  rw [table_visited, lowestFree_save_visit, table_vidMem]

/-- `vidmap` with an address outside the user page fails, and with one on the
user page it succeeds. -/
theorem vidmap_invalid {k : Kernel σ} {screenStart : Nat}
    (h : screenStart / 2 ^ PDE_OFFSET ≠ PDE_INDEX) :
    vidmap k screenStart = (k, -1) := by
  unfold vidmap
  split
  · rfl
  · rw [if_pos (Ne.symm h)]

theorem vidmap_valid {k : Kernel σ} {screenStart : Nat}
    (h : screenStart / 2 ^ PDE_OFFSET = PDE_INDEX) :
    (vidmap k screenStart).2 = 0 ∧
      video (vidmap k screenStart).1 = (video k).map := by
  have hpos : screenStart ≠ 0 := by
    rintro rfl
    exact absurd h (by decide)
  have hstore : ∀ m : Kernel σ,
      video (storeScreenStart m screenStart) = video m := fun _ => rfl
  have hallowed : (video (k.modifyCur fun p => { p with vidmap := OPEN })) =
      { video k with
        allowed := Function.update (video k).allowed (video k).head OPEN } :=
    Video.ext rfl rfl (field_update Pcb.vidmap _ _ _) rfl
  have hentry : ∀ (m : Kernel σ) e pte,
      video { m with con := { m.con with
        userMapping := Function.update m.con.userMapping e pte } } =
      { video m with entries := Function.update (video m).entries e pte } :=
    fun _ _ _ => rfl
  rw [vidmap, if_neg hpos, if_neg (not_not.2 h.symm)]
  refine ⟨rfl, ?_⟩
  dsimp only
  rw [hstore, hentry, video_setVidmap, hallowed]
  rfl

/-- `vidmap` moves no process. -/
theorem table_vidmap (k : Kernel σ) (screenStart : Nat) :
    table (vidmap k screenStart).1 = table k := by
  have hstore : ∀ m : Kernel σ,
      table (storeScreenStart m screenStart) = table m := fun _ => rfl
  have hentry : ∀ (m : Kernel σ) map,
      table { m with con := { m.con with userMapping := map } } = table m :=
    fun _ _ => rfl
  unfold vidmap
  split
  · rfl
  split
  · rfl
  dsimp only
  rw [hstore, hentry, table_setVidmap, Kernel.modifyCur]
  exact table_modifyPcb_frame k _ _ rfl rfl rfl rfl rfl

theorem video_terminalSwitch (k : Kernel σ) {t : Tid}
    (ht : t ≠ k.con.displayTerminal) :
    video { k with con := terminalSwitch k.con t } = (video k).display t := by
  refine video_eq ?_ ?_ (fun _ => rfl) rfl
  · rw [input_terminalSwitch]
    rfl
  · rw [entries_terminalSwitch k.con ht]
    rfl

/-! ## What one step can do -/

/-- What the calls of a step tell: `mapped` is a process and whether it has
called `vidmap` with success, and `user` the process that the processor is
handed to, `none` if the code that called or was interrupted goes on. -/
structure Outcome where
  mapped : Option (Int × Bool)
  user : Option Int

/-- Nothing is told. -/
def Outcome.quiet : Outcome := { mapped := none, user := none }

/-- A process that begins has not called `vidmap` yet. -/
def Outcome.begins (p : Int) : Outcome :=
  { mapped := some (p, false), user := some p }

/-- `execute` enters a new process, or returns to its caller. -/
def begins : ExecResult → Outcome
  | .ret _ => .quiet
  | .enter pid _ => .begins pid

/-- What a step tells.  The caller of a `vidmap` that returns 0 has called it
with success; `halt` returns to the parent, and `process_switch` to the process
of the next terminal, which are the running ones then. -/
def outcome (fs : FileSys) (k : Kernel σ) : VideoEvent σ → Outcome
  | .execute stk command esp ebp => begins (execute fs stk k command esp ebp).2
  | .halt stk status esp ebp =>
      match halt fs stk k status esp ebp with
      | (_, .restart r) => begins r
      | (k', .resume _ _ _) => { mapped := none, user := some k'.running }
  | .vidmap screenStart =>
      { mapped :=
          if (vidmap k screenStart).2 = 0 then some (k.running, true) else none
        user := none }
  | .pit stk esp ebp espExe ebpExe =>
      match pitIrq fs stk k esp ebp espExe ebpExe with
      | (_, .started r) => begins r
      | (k', .resume _ _) => { mapped := none, user := some k'.running }
  | .terminalSwitch _ => .quiet

/-- What a step does to the video data, and what it tells. -/
inductive Change (fs : FileSys) (k : Kernel σ) :
    VideoEvent σ → Outcome → Video → Prop
  /-- `execute` returns. -/
  | fail (stk command esp ebp) (hhead : k.running ≠ -1)
      (hno : ∀ c, command = some c → Runnable fs stk c →
        (table k).lowestFree = none) :
      Change fs k (.execute stk command esp ebp) .quiet (video k)
  /-- `execute` enters a new process. -/
  | exec (stk c esp ebp) (i : Nat) (hhead : k.running ≠ -1)
      (hrun : Runnable fs stk c) (hfree : (table k).lowestFree = some i) :
      Change fs k (.execute stk (some c) esp ebp)
        (.begins ((i : Int) + 1)) ((video k).spawn ((i : Int) + 1))
  /-- `halt` returns to the parent. -/
  | exit (stk status esp ebp) (hhead : k.running ≠ -1)
      (hchild : (k.pcb k.running).parPid ≠ -1) :
      Change fs k (.halt stk status esp ebp)
        { mapped := none, user := some (k.pcb k.running).parPid }
        ((video k).exit (k.pcb k.running).pid (k.pcb k.running).parPid)
  /-- `halt` starts a base shell again. -/
  | restart (stk status esp ebp) (i : Nat) (hhead : k.running ≠ -1)
      (hbase : (k.pcb k.running).parPid = -1)
      (hrun : Runnable fs stk shellCmd)
      (hfree : (table k).leave.lowestFree = some i) :
      Change fs k (.halt stk status esp ebp) (.begins ((i : Int) + 1))
        (((video k).vacate (k.pcb k.running).pid).spawn ((i : Int) + 1))
  /-- `halt` finds no shell to start again. -/
  | lost (stk status esp ebp) (hhead : k.running ≠ -1)
      (hbase : (k.pcb k.running).parPid = -1)
      (hno : Runnable fs stk shellCmd → (table k).leave.lowestFree = none) :
      Change fs k (.halt stk status esp ebp) .quiet
        ((video k).vacate (k.pcb k.running).pid)
  /-- `vidmap` is called with an address outside the user page. -/
  | invalid (screenStart) (hhead : k.running ≠ -1)
      (hptr : screenStart / 2 ^ PDE_OFFSET ≠ PDE_INDEX) :
      Change fs k (.vidmap screenStart) .quiet (video k)
  /-- `vidmap` opens an entry. -/
  | map (screenStart) (hhead : k.running ≠ -1)
      (hptr : screenStart / 2 ^ PDE_OFFSET = PDE_INDEX) :
      Change fs k (.vidmap screenStart)
        { mapped := some (k.running, true), user := none } (video k).map
  /-- The PIT resumes the next terminal. -/
  | resume (stk esp ebp espExe ebpExe)
      (hbusy : k.runningPid (k.con.currentTid + 1) ≠ -1) :
      Change fs k (.pit stk esp ebp espExe ebpExe)
        { mapped := none
          user := some (k.runningPid (k.con.currentTid + 1)) }
        ((video k).visit (k.con.currentTid + 1))
  /-- The PIT starts a base shell on the next terminal. -/
  | start (stk esp ebp espExe ebpExe) (i : Nat)
      (hidle : k.runningPid (k.con.currentTid + 1) = -1)
      (hrun : Runnable fs stk shellCmd)
      (hfree : (table k).lowestFree = some i) :
      Change fs k (.pit stk esp ebp espExe ebpExe)
        (.begins ((i : Int) + 1))
        (((video k).visit (k.con.currentTid + 1)).spawn ((i : Int) + 1))
  /-- The PIT finds no shell or no pid to start one there. -/
  | stuck (stk esp ebp espExe ebpExe)
      (hidle : k.runningPid (k.con.currentTid + 1) = -1)
      (hno : Runnable fs stk shellCmd → (table k).lowestFree = none) :
      Change fs k (.pit stk esp ebp espExe ebpExe) .quiet
        ((video k).visit (k.con.currentTid + 1))
  /-- The terminal is displayed already. -/
  | same (t) (ht : t = k.con.displayTerminal) :
      Change fs k (.terminalSwitch t) .quiet (video k)
  /-- Another terminal is displayed. -/
  | display (t) (ht : t ≠ k.con.displayTerminal) :
      Change fs k (.terminalSwitch t) .quiet ((video k).display t)

/-- `execute` on the video data. -/
theorem video_execute (fs : FileSys) (stk : CStr) (k : Kernel σ)
    (command : Option CStr) (esp ebp : σ) :
    (begins (execute fs stk k command esp ebp).2 = .quiet ∧
      video (finishExecute (execute fs stk k command esp ebp)) = video k ∧
      ∀ c, command = some c → Runnable fs stk c →
        (table k).lowestFree = none) ∨
    ∃ (c : CStr) (i : Nat), command = some c ∧ Runnable fs stk c ∧
      (table k).lowestFree = some i ∧
      begins (execute fs stk k command esp ebp).2 = .begins ((i : Int) + 1) ∧
      video (finishExecute (execute fs stk k command esp ebp)) =
        (video k).spawn ((i : Int) + 1) := by
  rcases execute_installs fs stk k command esp ebp with
    ⟨⟨value, hret⟩, hno⟩ | ⟨c, i, entAdd, hcommand, hrun, henter, hnew⟩
  · rw [hret]
    exact .inl ⟨rfl, rfl, hno⟩
  · rw [henter]
    exact .inr ⟨c, i, hcommand, hrun, hnew.free, rfl, video_installs hnew⟩

/-- `halt` on the video data. -/
theorem halt_change {fs : FileSys} {k k' : Kernel σ} {stk : CStr}
    {status : Byte} {esp ebp : σ}
    (h : ProcStep fs k (.halt stk status esp ebp) k') :
    Change fs k (.halt stk status esp ebp)
      (outcome fs k (.halt stk status esp ebp)) (video k') := by
  have htable := table_left fs k
  have hclosed := video_afterClose fs k
  obtain ⟨hhead, ⟨hbase, hk'⟩ | ⟨hchild, hk'⟩⟩ := step_halt h
  · have hparent : (table k).parent k.running = -1 := hbase
    rw [hparent] at htable
    have hresult := halt_restarts fs stk status esp ebp hparent
    have hvacant : video ((afterClose fs k).setRunning (-1)) =
        (video k).vacate (k.pcb k.running).pid := by
      rw [video_setRunning, hclosed]
      rfl
    have houtcome : outcome fs k (.halt stk status esp ebp) =
        begins (execute fs stk ((afterClose fs k).setRunning (-1))
          (some shellCmd) esp ebp).2 := by
      rw [outcome, hresult]
    rw [houtcome, hk']
    generalize (afterClose fs k).setRunning (-1) = m at htable hvacant ⊢
    rcases video_execute fs stk m (some shellCmd) esp ebp with
      ⟨hnone, hsame, hno⟩ | ⟨c, i, hcommand, hrun, hfree, hsome, hnew⟩
    · rw [hnone, hsame, hvacant]
      rw [htable] at hno
      exact .lost stk status esp ebp hhead hbase (hno shellCmd rfl)
    · cases hcommand
      rw [hsome, hnew, hvacant]
      rw [htable] at hfree
      exact .restart stk status esp ebp i hhead hbase hrun hfree
  · have hparent : (table k).parent k.running ≠ -1 := hchild
    have hresult := halt_returns fs stk status esp ebp hparent
    have hback : video (backToParent (afterClose fs k)
        (k.pcb k.running).parPid) =
        (video k).exit (k.pcb k.running).pid (k.pcb k.running).parPid := by
      rw [video_backToParent, hclosed]
      rfl
    have hnew : ((video k).exit (k.pcb k.running).pid
        (k.pcb k.running).parPid).head = (k.pcb k.running).parPid :=
      Function.update_self ..
    have houtcome : outcome fs k (.halt stk status esp ebp) =
        { mapped := none
          user := some (backToParent (afterClose fs k)
            (k.pcb k.running).parPid).running } := by
      rw [outcome, hresult]
      rfl
    rw [houtcome, hk']
    generalize backToParent (afterClose fs k) (k.pcb k.running).parPid = m
      at hback ⊢
    have hpar : m.running = (k.pcb k.running).parPid := by
      rw [← hnew, ← hback]
      rfl
    rw [hback, hpar]
    exact .exit stk status esp ebp hhead hchild

/-- The interrupt of the PIT on the video data. -/
theorem pit_change {fs : FileSys} {k k' : Kernel σ} {stk : CStr}
    {esp ebp espExe ebpExe : σ}
    (h : VideoStep fs k (.pit stk esp ebp espExe ebpExe) k') :
    Change fs k (.pit stk esp ebp espExe ebpExe)
      (outcome fs k (.pit stk esp ebp espExe ebpExe)) (video k') := by
  have hvisited := video_visited k (k.con.currentTid + 1) esp ebp
  have hresumed := video_resumed k (k.con.currentTid + 1) esp ebp
  by_cases hidle : k.runningPid (k.con.currentTid + 1) = -1
  · have hpit : pitIrq fs stk k esp ebp espExe ebpExe = _ :=
      processSwitch_visited stk esp ebp espExe ebpExe hidle
    have hfreeTable := lowestFree_visited k (k.con.currentTid + 1) esp ebp
    generalize visited _ (k.con.currentTid + 1) esp ebp = m
      at hpit hvisited hfreeTable
    simp only [VideoStep, videoStep, hpit] at h
    cases h
    simp only [outcome, hpit]
    rcases video_execute fs stk m (some shellCmd) espExe ebpExe with
      ⟨hnone, hsame, hno⟩ | ⟨c, i, hcommand, hrun, hfree, hsome, hnew⟩
    · rw [hnone, hsame, hvisited]
      rw [hfreeTable] at hno
      exact .stuck stk esp ebp espExe ebpExe hidle (hno shellCmd rfl)
    · cases hcommand
      rw [hsome, hnew, hvisited]
      rw [hfreeTable] at hfree
      exact .start stk esp ebp espExe ebpExe i hidle hrun hfree
  · have hpit : pitIrq fs stk k esp ebp espExe ebpExe = _ :=
      processSwitch_resumed stk esp ebp espExe ebpExe hidle
    generalize resumed _ (k.con.currentTid + 1) esp ebp = m at hpit hresumed
    simp only [VideoStep, videoStep, hpit] at h
    cases h
    have hnext : k'.running = k.runningPid (k.con.currentTid + 1) :=
      congrArg Video.head hresumed
    simp only [outcome, hpit, hresumed, hnext]
    exact .resume stk esp ebp espExe ebpExe hidle

/-- Every step is one of the changes. -/
theorem step_change {fs : FileSys} {k k' : Kernel σ} {e : VideoEvent σ}
    (h : VideoStep fs k e k') : Change fs k e (outcome fs k e) (video k') := by
  cases e with
  | execute stk command esp ebp =>
      obtain ⟨hhead, rfl⟩ := step_execute h
      rw [outcome]
      rcases video_execute fs stk k command esp ebp with
        ⟨hnone, hsame, hno⟩ | ⟨c, i, rfl, hrun, hfree, hsome, hnew⟩
      · rw [hnone, hsame]
        exact .fail stk command esp ebp hhead hno
      · rw [hsome, hnew]
        exact .exec stk c esp ebp i hhead hrun hfree
  | halt stk status esp ebp => exact halt_change h
  | vidmap screenStart =>
      simp only [VideoStep, videoStep] at h
      split at h
      · cases h
      rename_i hhead
      cases h
      by_cases hptr : screenStart / 2 ^ PDE_OFFSET = PDE_INDEX
      · obtain ⟨hret, hmap⟩ := vidmap_valid (k := k) hptr
        rw [outcome, if_pos hret, hmap]
        exact .map screenStart hhead hptr
      · have hfail : (-1 : Int) ≠ 0 := by decide
        simp only [outcome, vidmap_invalid hptr, if_neg hfail]
        exact .invalid screenStart hhead hptr
  | pit stk esp ebp espExe ebpExe => exact pit_change h
  | terminalSwitch t =>
      cases h
      by_cases ht : t = k.con.displayTerminal
      · have hsame : terminalSwitch k.con t = k.con := by
          rw [terminalSwitch, if_pos ht]
        rw [hsame]
        exact .same t ht
      · rw [video_terminalSwitch k ht]
        exact .display t ht

end MongOS.Proofs.VideoSteps
