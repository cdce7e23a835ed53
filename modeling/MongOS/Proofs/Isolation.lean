import MongOS.Proofs.KernelSteps
import MongOS.Proofs.FilePrograms
import MongOS.Proofs.VideoMap

/-!
# A process among others

No step of the kernel but a call of the process itself changes what belongs to
a process: its descriptors, name and arguments, its permission to draw, the rate
of its RTC, its pid and parent, and its user page.  It also stays allocated, and
if it runs on a terminal it keeps running there.

* `Stays` — the process table keeps a process that makes no call.
* `Spared` — the kernel keeps what belongs to it.
* `process_isolated` — both along every run.
* `placed_kernelStep` — the code that runs is that of the running process.
* `round_robin` — when it is the turn of a process.
-/

namespace MongOS.Proofs.Isolation

open MongOS.Model
open MongOS.Verified
open MongOS.Proofs.ProcTable
open MongOS.Proofs.ProcForest
open MongOS.Proofs.ScreenFrame
open MongOS.Proofs.ExecuteChecks
open MongOS.Proofs.ProcSteps
open MongOS.Proofs.VirtualRtc
open MongOS.Proofs.KernelSteps
open MongOS.Proofs.FilePrograms
open MongOS.Proofs.VideoSteps (video outcome)
open MongOS.Proofs.VideoMap (Placed placed_step)

variable {σ : Type}

/-! ## The process table -/

/-- A process stays allocated, and stays the running one of its terminal. -/
structure Stays (p : Int) (T T' : Table σ) : Prop where
  used : T'.used (p - 1) = 1
  running : ∀ t, T.running t = p → T'.running t = p

section Stays

variable {T T' : Table σ} {p : Int}

theorem Stays.trans {T'' : Table σ} (h : Stays p T T') (h' : Stays p T' T'') :
    Stays p T T'' :=
  { used := h'.used, running := fun t ht => h'.running t (h.running t ht) }

theorem Stays.congr (hused : T.used (p - 1) = 1) (hsame : T'.used = T.used)
    (hrunning : T'.running = T.running) : Stays p T T' :=
  { used := by rw [hsame, hused], running := fun t ht => by rw [hrunning, ht] }

/-- A free pid is given to another process. -/
theorem stays_spawn {i : Nat} (hused : T.used (p - 1) = 1) (hfree : T.lowestFree = some i)
    (hhead : T.head ≠ p) (esp ebp : σ) :
    Stays p T ((T.spawn ((i : Int) + 1) esp ebp).enter ((i : Int) + 1)) := by
  have hclear := (lowestFree_some hfree).2
  have hother : p - 1 ≠ (i : Int) + 1 - 1 := by
    rw [Int.add_sub_cancel]
    rintro heq
    rw [heq, hclear] at hused
    cases hused
  refine { used := ?_, running := fun t ht => ?_ }
  · show (T.spawn _ esp ebp).used (p - 1) = 1
    rw [spawn_used, Function.update_of_ne hother, hused]
  · show (T.spawn _ esp ebp).running t = p
    have htid : t ≠ T.cur := by
      rintro rfl
      exact hhead ht
    rw [spawn_running, Function.update_of_ne htid, ht]

/-- Another process ends. -/
theorem stays_leave {chain : Tid → List Int} (hF : Forest T chain)
    (hused : T.used (p - 1) = 1) (hlive : T.head ≠ -1) (hhead : T.head ≠ p) :
    Stays p T T.leave := by
  have hpid : T.pid T.head = T.head := hF.pid _ _ (hF.running_mem hlive)
  refine { used := ?_, running := fun t ht => ?_ }
  · rw [leave_used, hpid, Function.update_of_ne (by omega), hused]
  · have htid : t ≠ T.cur := by
      rintro rfl
      exact hhead ht
    rw [leave_running, Function.update_of_ne htid, ht]

theorem stays_visit (hused : T.used (p - 1) = 1) (esp ebp : σ) (t : Tid) :
    Stays p T ((T.save esp ebp).visit t) := by
  refine .congr hused ?_ (save_running T esp ebp)
  unfold Table.save
  split <;> rfl

/-- A step of the process system that is no call of the process. -/
theorem stays_step {chain : Tid → List Int} (hF : Forest T chain) {e : ProcEvent σ}
    (hstep : Step T e T') (hused : T.used (p - 1) = 1)
    (hforeign : T.head = p → ∃ t stk a b c d, e = .switch t stk a b c d) :
    Stays p T T' := by
  have hcall : (∀ t stk a b c d, e ≠ .switch t stk a b c d) → T.head ≠ p := by
    intro hne hhead
    obtain ⟨t, stk, a, b, c, d, he⟩ := hforeign hhead
    exact hne t stk a b c d he
  obtain ⟨u, hmem⟩ := (hF.used p).1 hused
  have hpos := (hF.range u p hmem).1
  cases hstep with
  | fail => exact .congr hused rfl rfl
  | exec stk command esp ebp i hhead hfree =>
      exact stays_spawn hused hfree (hcall (by rintro _ _ _ _ _ _ ⟨⟩)) esp ebp
  | exit stk status esp ebp hhead hchild =>
      have hleave := stays_leave hF hused hhead (hcall (by rintro _ _ _ _ _ _ ⟨⟩))
      exact hleave.trans (.congr hleave.used rfl rfl)
  | restart stk status esp ebp i hhead hbase hfree =>
      have hleave := stays_leave hF hused hhead (hcall (by rintro _ _ _ _ _ _ ⟨⟩))
      refine hleave.trans (stays_spawn hleave.used hfree ?_ esp ebp)
      rw [leave_head, hbase]
      omega
  | lost stk status esp ebp hhead hbase =>
      exact stays_leave hF hused hhead (hcall (by rintro _ _ _ _ _ _ ⟨⟩))
  | resume t stk esp ebp espExe ebpExe hbusy =>
      have hvisit := stays_visit (T := T) hused esp ebp t
      exact hvisit.trans (.congr hvisit.used rfl rfl)
  | start t stk esp ebp espExe ebpExe i hidle hfree =>
      have hvisit := stays_visit (T := T) hused esp ebp t
      rw [← lowestFree_save_visit T esp ebp t] at hfree
      refine hvisit.trans (stays_spawn hvisit.used hfree ?_ espExe ebpExe)
      have hhead : ((T.save esp ebp).visit t).head = -1 := by
        show (T.save esp ebp).running t = -1
        rw [save_running, hidle]
      omega
  | stuck t stk esp ebp espExe ebpExe hidle => exact stays_visit hused esp ebp t

end Stays

/-! ## What belongs to a process -/

/-- The data in a control block that only its process changes: all but the stack
pointers and the state of the RTC's counter. -/
@[ext] structure Own where
  pid : Int
  parPid : Int
  farray : Int → FArray
  args : Nat → Byte
  name : Nat → Byte
  vidmap : Nat
  rtcMaxcount : Int

def own (p : Pcb σ) : Own :=
  { pid := p.pid, parPid := p.parPid, farray := p.farray, args := p.args
    name := p.name, vidmap := p.vidmap, rtcMaxcount := p.rtcMaxcount }

/-- What belongs to process `p` is the same in both kernels. -/
structure Spared (p : Int) (k k' : Kernel σ) : Prop where
  block : own (k'.pcb p) = own (k.pcb p)
  page : k'.userMem (PDE_ST + p - 1) = k.userMem (PDE_ST + p - 1)

namespace Spared

variable {fs : FileSys} {k k' : Kernel σ} {p : Int}

theorem refl (p : Int) (k : Kernel σ) : Spared p k k := { block := rfl, page := rfl }

theorem trans {k'' : Kernel σ} (h : Spared p k k') (h' : Spared p k' k'') :
    Spared p k k'' :=
  { block := h'.block.trans h.block, page := h'.page.trans h.page }

/-- What leaves the control blocks and the user memory alone. -/
theorem of_eq (hpcb : k'.pcb = k.pcb) (hpages : k'.userMem = k.userMem) :
    Spared p k k' :=
  { block := by rw [hpcb], page := by rw [hpages] }

/-- The pages of two processes are two pages. -/
theorem page_ne {p q : Int} (h : p ≠ q) : PDE_ST + p - 1 ≠ PDE_ST + q - 1 := by
  omega

/-- A call stores on the page of its caller. -/
theorem ownCall (h : OwnCall k k') (hp : p ≠ k.running)
    (hpage : k.pde = PDE_ST + k.running - 1) : Spared p k k' :=
  { block := by rw [h.local_.others p hp]
    page := h.pages _ (by rw [hpage]; exact page_ne hp) }

/-- `execute` writes to the block and the page of the new process, and stores
stack pointers in another. -/
theorem execute (hused : k.pidSt (p - 1) = 1) (stk : CStr) (command : Option CStr)
    (esp ebp : σ) :
    Spared p k (finishExecute (Model.execute fs stk k command esp ebp)) := by
  rcases execute_installs fs stk k command esp ebp with
    ⟨⟨value, hret⟩, -⟩ | ⟨c, i, entAdd, rfl, -, henter, hnew⟩
  · rw [hret]
    exact .refl p k
  have hclear : k.pidSt i = 0 := (lowestFree_some hnew.free).2
  have hother : p ≠ (i : Int) + 1 := by
    rintro rfl
    rw [Int.add_sub_cancel, hclear] at hused
    cases hused
  have hblock := installProcess_proj own (fun _ _ _ => rfl) (fun _ _ => rfl)
    (getPid k).1 ((i : Int) + 1) (handleCommand c.bytes).1 (handleCommand c.bytes).2
    esp ebp p
  obtain ⟨hpages, hpde⟩ := installProcess_page (getPid k).1 ((i : Int) + 1)
    (handleCommand c.bytes).1 (handleCommand c.bytes).2 esp ebp
  rw [if_neg hother, (getPid_keeps k).2.1] at hblock
  refine { block := by rw [hnew.pcb]; exact hblock, page := ?_ }
  obtain ⟨c', d, hc, hfound⟩ := found_of_enter henter
  cases hc
  obtain ⟨j, hfree, -, -, -, hload⟩ := execute_enters hfound henter
  rw [hnew.free] at hfree
  cases hfree
  generalize Model.execute fs stk k (some c) esp ebp = r at henter hload ⊢
  obtain ⟨m, res⟩ := r
  subst henter
  subst hload
  have hpage : PDE_ST + p - 1 ≠ (installed k c i esp ebp).pde := by
    rw [installed, hpde]
    exact page_ne hother
  show (loadProgram fs (installed k c i esp ebp) _).1.userMem _ = _
  unfold loadProgram
  dsimp only
  rw [Function.update_of_ne hpage, installed, hpages, (getPid_keeps k).1]

/-- The clean-up of `halt` is a number of `close` calls. -/
theorem afterClose (fs : FileSys) (hp : p ≠ k.running) :
    Spared p k (afterClose fs k) := by
  have hlocal := closeAll_local fs (freePid k (k.pcb k.running).pid) k.running
  have hpages := closeAll_pages fs (freePid k (k.pcb k.running).pid) k.running
  have hfreed : Spared p k (freePid k (k.pcb k.running).pid) := .of_eq rfl rfl
  unfold ProcTable.afterClose
  exact hfreed.trans { block := by rw [hlocal.others p hp], page := by rw [hpages] }

/-- `halt` cleans up behind its caller. -/
theorem halt {chain : Tid → List Int} (hF : Forest (table k) chain)
    (hused : k.pidSt (p - 1) = 1) (hp : p ≠ k.running) {stk : CStr} {status : Byte}
    {esp ebp : σ} (h : ProcStep fs k (.halt stk status esp ebp) k') :
    Spared p k k' := by
  obtain ⟨hlive, hend⟩ := step_halt h
  have hclosed := afterClose fs hp
  have hpid : (k.pcb k.running).pid = k.running :=
    hF.pid _ _ (hF.running_mem (t := (table k).cur) hlive)
  have hbits : ∀ m : Kernel σ, m.pidSt = (table m).used := fun _ => rfl
  have hkeep : (ProcTable.afterClose fs k).pidSt (p - 1) = 1 := by
    rw [hbits, table_afterClose]
    show Function.update k.pidSt ((k.pcb k.running).pid - 1) 0 (p - 1) = 1
    rw [hpid, Function.update_of_ne (by omega), hused]
  generalize ProcTable.afterClose fs k = m at hend hclosed hkeep
  rcases hend with ⟨-, rfl⟩ | ⟨-, rfl⟩
  · have hidle : Spared p m (m.setRunning (-1)) := .of_eq rfl rfl
    have hkeep' : (m.setRunning (-1)).pidSt (p - 1) = 1 := hkeep
    exact (hclosed.trans hidle).trans (execute hkeep' stk (some shellCmd) esp ebp)
  · exact hclosed.trans (.of_eq rfl rfl)

/-- A switch stores stack pointers, and may start a base shell. -/
theorem switch (hused : k.pidSt (p - 1) = 1) {t : Tid} {stk : CStr}
    {esp ebp espExe ebpExe : σ}
    (h : ProcStep fs k (.switch t stk esp ebp espExe ebpExe) k') : Spared p k k' := by
  have hsaved : Spared p k (saveRunning k esp ebp) :=
    { block := saveRunning_proj own (fun _ _ _ _ => rfl) k esp ebp p
      page := by unfold saveRunning; split <;> rfl }
  rcases step_switch h with ⟨-, rfl⟩ | ⟨-, rfl⟩
  · have hvisited : Spared p k (visited k t esp ebp) := hsaved.trans (.of_eq rfl rfl)
    refine hvisited.trans (execute ?_ stk (some shellCmd) espExe ebpExe)
    show (saveRunning k esp ebp).pidSt (p - 1) = 1
    rw [saveRunning_pidSt, hused]
  · exact hsaved.trans (.of_eq rfl rfl)

theorem rtcIrq (p : Int) (k : Kernel σ) : Spared p k (rtcIrq k) := by
  refine { block := ?_, page := congrFun (foldl_keeps Kernel.userMem _ ?_ _ k) _ }
  · refine foldl_keeps (fun k => own (Kernel.pcb k p)) _ (fun k i => ?_) _ k
    refine proj_modifyPcb own k i p rtcTick fun pcb => ?_
    unfold rtcTick
    split
    · rfl
    · split <;> rfl
  · exact fun _ _ => rfl

end Spared

/-! ## Whole runs -/

/-- A kernel that has kept a process. -/
structure Kept (p : Int) (k k' : Kernel σ) : Prop where
  spared : Spared p k k'
  stays : Stays p (table k) (table k')

theorem Kept.trans {p : Int} {k k' k'' : Kernel σ} (h : Kept p k k') (h' : Kept p k' k'') :
    Kept p k k'' :=
  { spared := h.spared.trans h'.spared, stays := h.stays.trans h'.stays }

/-- One step that the process does not take. -/
theorem kept_step {fs : FileSys} {k k' : Kernel σ} {e : KernelEvent σ} {p : Int}
    (hk : Sound k) (hused : k.pidSt (p - 1) = 1) (hforeign : Foreign p k e)
    (hstep : KernelStep fs k e k') : Kept p k k' := by
  obtain ⟨chain, hF⟩ := hk.forest
  have hsame : ∀ {m : Kernel σ}, table m = table k → Stays p (table k) (table m) :=
    fun h => .congr hused (congrArg Table.used h) (congrArg Table.running h)
  cases kernelStep_entry hstep with
  | call hcall hlive hown =>
      exact
        { spared := .ownCall hown (Ne.symm (hforeign hcall)) (hk.mapped hlive)
          stays := hsame hown.local_.keeps }
  | execute stk command esp ebp h =>
      have hother := hforeign rfl
      obtain ⟨-, rfl⟩ := step_execute h
      exact
        { spared := .execute hused stk command esp ebp
          stays := stays_step hF (procStep_table h) hused fun hhead =>
            absurd hhead hother }
  | halt stk status esp ebp h =>
      have hother := hforeign rfl
      exact
        { spared := .halt hF hused (Ne.symm hother) h
          stays := stays_step hF (procStep_table h) hused fun hhead =>
            absurd hhead hother }
  | key _ h => exact { spared := .of_eq rfl rfl, stays := hsame h.table }
  | rtc => exact { spared := .rtcIrq p k, stays := hsame (table_rtcIrq k) }
  | pit stk esp ebp espExe ebpExe hswitch =>
      have hretarget := table_vidMem k (k.con.currentTid + 1)
      generalize vidMem k.con (k.con.currentTid + 1) = c at hretarget hswitch
      have hturned : Spared p k { k with con := c } := .of_eq rfl rfl
      have hF' : Forest (table { k with con := c }) chain := hretarget.symm ▸ hF
      have hstays := stays_step hF' (procStep_table hswitch) (p := p) hused fun _ =>
        ⟨_, stk, esp, ebp, espExe, ebpExe, rfl⟩
      exact
        { spared := hturned.trans (.switch (k := { k with con := c }) hused hswitch)
          stays := (hsame hretarget).trans hstays }

/-- And a run of them. -/
theorem kept_run {fs : FileSys} {k k' : Kernel σ} {es : List (KernelEvent σ)} {p : Int}
    (hk : Sound k) (hused : k.pidSt (p - 1) = 1)
    (hrun : Run (Guarded (Aside p) (KernelStep fs)) k es k') :
    Sound k' ∧ Kept p k k' := by
  refine hrun.invariant (fun m => Sound m ∧ Kept p k m) ⟨hk, ?_⟩ ?_
  · exact { spared := .refl p k, stays := .congr hused rfl rfl }
  · rintro m e m' ⟨hm, hkeeps⟩ ⟨haside, hstep⟩
    have hnext := kept_step hm hkeeps.stays.used haside.2 hstep
    exact ⟨(kernelStep_entry hstep).sound hm, hkeeps.trans hnext⟩

/-- The kernel after a tame run from boot. -/
theorem sound_tame {fs : FileSys} {k0 k : Kernel σ} {es : List (KernelEvent σ)}
    (h0 : Initialised k0) (hrun : Run (Guarded Tame (KernelStep fs)) k0 es k) :
    Sound k := sound_reachable h0 (hrun.mono fun _ _ _ h => h.2)

/-- A process that runs on a terminal is allocated. -/
theorem used_of_runs {k : Kernel σ} {p : Int} {t : Tid} (hk : Sound k)
    (hruns : k.runningPid t = p) (hp : p ≠ -1) : k.pidSt (p - 1) = 1 := by
  obtain ⟨chain, hF⟩ := hk.forest
  subst hruns
  exact hF.used_of_mem (hF.running_mem hp)

/-- A process keeps what belongs to it, its pid and its place on its terminal in
every run of tame steps in which it does nothing, whatever the other processes and
the interrupts do. -/
theorem process_isolated {fs : FileSys} {k0 k k' : Kernel σ} {es es' : List (KernelEvent σ)}
    {p : Int} (h0 : Initialised k0) (hboot : Run (Guarded Tame (KernelStep fs)) k0 es k)
    (hused : k.pidSt (p - 1) = 1)
    (hrun : Run (Guarded (Aside p) (KernelStep fs)) k es' k') :
    own (k'.pcb p) = own (k.pcb p) ∧
      k'.userMem (PDE_ST + p - 1) = k.userMem (PDE_ST + p - 1) ∧
      k'.pidSt (p - 1) = 1 ∧ ∀ t, k.runningPid t = p → k'.runningPid t = p := by
  obtain ⟨-, hspared, hstays⟩ := kept_run (sound_tame h0 hboot) hused hrun
  exact ⟨hspared.block, hspared.page, hstays.used, hstays.running⟩

/-- The entries of `toolsBoot` and `shell`. -/
def homeBoot : BootBlock :=
  { toolsBoot with
    numDirEntries := 6
    dirEntries := fun i =>
      if i = 5 then namedEntry [115, 104, 101, 108, 108] 2 0
      else toolsBoot.dirEntries i }

/-- A small system: the tools with a shell. -/
def homeImage : FileSys := { toolsImage with bootB := some homeBoot }

/-- The PIT starts a shell on terminal 1, and it executes `cat note`. -/
def homeEvents : List (KernelEvent Nat) :=
  [.video (.pit ⟨0, []⟩ 10 11 12 13),
    .video (.execute ⟨0, []⟩ (some ⟨0, [99, 97, 116, 32, 110, 111, 116, 101]⟩) 20 21)]

def homeKernel : Kernel Nat :=
  (follow (guardStep Tame (kernelStep homeImage)) (SampleImage.idleKernel 0)
    homeEvents).getD (SampleImage.idleKernel 0)

theorem homeKernel_run :
    Run (Guarded Tame (KernelStep homeImage)) (SampleImage.idleKernel 0) homeEvents
      homeKernel :=
  follow_guarded (kernelStep homeImage) (by decide)

/-- Before `cat` runs again, a shell is started on each of the other terminals; the
first opens a file, reads it to its page and stores a byte there, and a key and an
RTC interrupt come in. -/
def otherEvents : List (KernelEvent Nat) :=
  [.video (.pit ⟨0, []⟩ 30 31 32 33), .open ⟨0, [110, 111, 116, 101, 0]⟩, .keyboard 35,
    .read 2 0x8300000 7, .store 0x8300003 0, .rtc, .video (.pit ⟨0, []⟩ 40 41 42 43),
    .video (.pit ⟨0, []⟩ 50 51 52 53)]

def laterKernel : Kernel Nat :=
  (follow (guardStep (Aside 2) (kernelStep homeImage)) homeKernel otherEvents).getD
    homeKernel

theorem laterKernel_run :
    Run (Guarded (Aside 2) (KernelStep homeImage)) homeKernel otherEvents laterKernel :=
  follow_guarded (kernelStep homeImage) (by decide)

theorem cat_isolated :
    own (laterKernel.pcb 2) = own (homeKernel.pcb 2) ∧
      laterKernel.userMem (PDE_ST + 2 - 1) = homeKernel.userMem (PDE_ST + 2 - 1) ∧
      laterKernel.pidSt (2 - 1) = 1 ∧
      ∀ t, homeKernel.runningPid t = 2 → laterKernel.runningPid t = 2 :=
  process_isolated (SampleImage.initialised_idleKernel 0) homeKernel_run (by decide)
    laterKernel_run

/-! ## Whose code runs -/

/-- A kernel, and the terminal and the process whose code runs. -/
structure Cpu (σ : Type) where
  k : Kernel σ
  user : Option (Tid × Int)

/-- The code of process `p` runs. -/
def Cpu.Runs (s : Cpu σ) (p : Int) : Prop := s.user.map Prod.snd = some p

/-- The process that a step hands the processor to; `none` if the code that called
or was interrupted goes on. -/
def handedTo (fs : FileSys) (k : Kernel σ) : KernelEvent σ → Option Int
  | .video e => (outcome fs k e).user
  | _ => none

/-- The kernel with the record of whose code runs. -/
def cpuStep (fs : FileSys) (s : Cpu σ) (e : KernelEvent σ) : Option (Cpu σ) :=
  (kernelStep fs s.k e).map fun k =>
    { k := k, user := VideoMap.turn s.user k.con.currentTid (handedTo fs s.k e) }

def CpuStep (fs : FileSys) (s : Cpu σ) (e : KernelEvent σ) (s' : Cpu σ) : Prop :=
  cpuStep fs s e = some s'

theorem cpuStep_iff {fs : FileSys} {s s' : Cpu σ} {e : KernelEvent σ} :
    CpuStep fs s e s' ↔
      KernelStep fs s.k e s'.k ∧
        s'.user = VideoMap.turn s.user s'.k.con.currentTid (handedTo fs s.k e) := by
  obtain ⟨k', user'⟩ := s'
  simp only [CpuStep, cpuStep, KernelStep, Option.map_eq_some_iff, Cpu.mk.injEq]
  constructor
  · rintro ⟨m, hstep, rfl, rfl⟩
    exact ⟨hstep, rfl⟩
  · rintro ⟨hstep, huser⟩
    exact ⟨k', hstep, rfl, huser.symm⟩

/-- A run with the record is one of the kernel. -/
theorem run_of_cpu {fs : FileSys} {allowed : Kernel σ → KernelEvent σ → Prop}
    {s s' : Cpu σ} {es : List (KernelEvent σ)}
    (h : Run (Guarded (fun s => allowed s.k) (CpuStep fs)) s es s') :
    Run (Guarded allowed (KernelStep fs)) s.k es s'.k :=
  h.map Cpu.k fun _ _ _ hstep => ⟨hstep.1, (cpuStep_iff.1 hstep.2).1⟩

/-- The steps outside of `VideoEvent` leave the process table alone. -/
theorem table_of_other {fs : FileSys} {k k' : Kernel σ} {e : KernelEvent σ}
    (h : KernelStep fs k e k') (hother : ∀ v, e ≠ .video v) : table k' = table k := by
  cases kernelStep_entry h with
  | call _ _ hown => exact hown.local_.keeps
  | execute => exact absurd rfl (hother _)
  | halt => exact absurd rfl (hother _)
  | key _ hsteady => exact hsteady.table
  | rtc => exact table_rtcIrq k
  | pit => exact absurd rfl (hother _)

theorem served_of_tame {k : Kernel σ} {v : VideoEvent σ} (h : Tame k (.video v)) :
    Served k v := by
  cases v with
  | vidmap => trivial
  | execute | halt | pit | terminalSwitch => exact h

/-- After a tame step the code that runs is that of the running process of the current
terminal. -/
theorem placed_kernelStep {fs : FileSys} {k k' : Kernel σ} {e : KernelEvent σ}
    {user : Option (Tid × Int)} (hk : Sound k) (h : Placed fs (video k) user)
    (htame : Tame k e) (hstep : KernelStep fs k e k') :
    Placed fs (video k')
      (VideoMap.turn user k'.con.currentTid (handedTo fs k e)) := by
  have hsame : table k' = table k → Placed fs (video k') user := fun htable =>
    h.stay (congrArg Table.running htable) (congrArg Table.cur htable)
  cases e with
  | video v =>
      obtain ⟨chain, hF⟩ := hk.forest
      exact placed_step h hF (served_of_tame htame) hstep
  | «open» | read | write | close | getargs | store | rtc | keyboard =>
      exact hsame (table_of_other hstep (by rintro _ ⟨⟩))

/-- In every tame run. -/
theorem placed_run {fs : FileSys} {s s' : Cpu σ} {es : List (KernelEvent σ)}
    {allowed : Kernel σ → KernelEvent σ → Prop} (htame : ∀ k e, allowed k e → Tame k e)
    (hs : Sound s.k ∧ Placed fs (video s.k) s.user)
    (hrun : Run (Guarded (fun s => allowed s.k) (CpuStep fs)) s es s') :
    Sound s'.k ∧ Placed fs (video s'.k) s'.user := by
  refine hrun.invariant (fun s => Sound s.k ∧ Placed fs (video s.k) s.user) hs ?_
  rintro m e m' ⟨hk, hplaced⟩ ⟨hallowed, hstep⟩
  obtain ⟨hkernel, huser⟩ := cpuStep_iff.1 hstep
  rw [huser]
  exact ⟨(kernelStep_entry hkernel).sound hk,
    placed_kernelStep hk hplaced (htame _ _ hallowed) hkernel⟩

/-- Where a process runs, it is its code that runs, and no other. -/
theorem runs_iff {fs : FileSys} {s : Cpu σ} {p : Int}
    (h : Placed fs (video s.k) s.user) (hp : p ≠ -1) : s.Runs p ↔ s.k.running = p := by
  rcases h with ⟨hnone, hidle⟩ | ⟨huser, -, -⟩
  · have hhead : s.k.running = -1 := hidle s.k.con.currentTid
    rw [Cpu.Runs, hnone, hhead]
    exact iff_of_false (Option.some_ne_none p).symm (Ne.symm hp)
  · rw [Cpu.Runs, huser]
    exact Option.some_inj

/-! ## The turns of the terminals -/

/-- The terminal whose turn it is `n` PIT interrupts after that of `t`. -/
def turn (t : Tid) (n : Nat) : Tid := Fin.ofNat 3 (t.val + n)

theorem turn_zero (t : Tid) : turn t 0 = t := by
  apply Fin.ext
  show (t.val + 0) % 3 = t.val
  omega

theorem turn_turn (t : Tid) (m n : Nat) : turn (turn t m) n = turn t (m + n) := by
  apply Fin.ext
  show ((t.val + m) % 3 + n) % 3 = (t.val + (m + n)) % 3
  omega

/-- The process functions leave the current terminal, or turn to another. -/
theorem cur_step {T T' : Table σ} {e : ProcEvent σ} (h : Step T e T') :
    T'.cur = T.cur ∨ ∃ t stk a b c d, e = .switch t stk a b c d := by
  cases h with
  | fail => exact .inl rfl
  | exec => exact .inl (spawn_cur _ _ _ _)
  | exit => exact .inl rfl
  | restart => exact .inl (spawn_cur _ _ _ _)
  | lost => exact .inl rfl
  | resume => exact .inr ⟨_, _, _, _, _, _, rfl⟩
  | start => exact .inr ⟨_, _, _, _, _, _, rfl⟩
  | stuck => exact .inr ⟨_, _, _, _, _, _, rfl⟩

theorem cur_switch {T T' : Table σ} {t : Tid} {stk : CStr} {esp ebp espExe ebpExe : σ}
    (h : Step T (.switch t stk esp ebp espExe ebpExe) T') : T'.cur = t := by
  cases h with
  | resume => rfl
  | start => exact spawn_cur _ _ _ _
  | stuck => rfl

theorem ticks_of_byProcess {e : KernelEvent σ} (h : e.byProcess = true) : e.ticks = 0 := by
  cases e with
  | video e => cases e <;> first | rfl | cases h
  | «open» | read | write | close | getargs | store | rtc | keyboard => rfl

/-- Only the PIT turns to another terminal, the next one. -/
theorem cur_kernelStep {fs : FileSys} {k k' : Kernel σ} {e : KernelEvent σ}
    (h : KernelStep fs k e k') : k'.con.currentTid = turn k.con.currentTid e.ticks := by
  have hsame : e.ticks = 0 → (table k').cur = (table k).cur →
      k'.con.currentTid = turn k.con.currentTid e.ticks := by
    intro htick hcur
    rw [htick, turn_zero]
    exact hcur
  cases kernelStep_entry h with
  | call hcall _ hown =>
      exact hsame (ticks_of_byProcess hcall) (congrArg Table.cur hown.local_.keeps)
  | execute stk command esp ebp hstep =>
      rcases cur_step (procStep_table hstep) with hcur | ⟨_, _, _, _, _, _, ⟨⟩⟩
      exact hsame rfl hcur
  | halt stk status esp ebp hstep =>
      rcases cur_step (procStep_table hstep) with hcur | ⟨_, _, _, _, _, _, ⟨⟩⟩
      exact hsame rfl hcur
  | key htick hsteady => exact hsame htick (congrArg Table.cur hsteady.table)
  | rtc => exact hsame rfl (congrArg Table.cur (table_rtcIrq k))
  | pit stk esp ebp espExe ebpExe hswitch =>
      exact cur_switch (procStep_table hswitch)

/-- The interrupts of the PIT in a run. -/
def ticks (es : List (KernelEvent σ)) : Nat := (es.map KernelEvent.ticks).sum

theorem cur_run {fs : FileSys} {k k' : Kernel σ} {es : List (KernelEvent σ)}
    (h : Run (KernelStep fs) k es k') :
    k'.con.currentTid = turn k.con.currentTid (ticks es) := by
  induction h with
  | nil => exact (turn_zero _).symm
  | @snoc es _ _ e _ hstep ih =>
      have hsum : ticks (es ++ [e]) = ticks es + e.ticks := by simp [ticks]
      rw [cur_kernelStep hstep, ih, turn_turn, hsum]

/-- A process that runs on terminal `t` has its turn where `t` has. -/
theorem running_iff_turn {k : Kernel σ} (hk : Sound k) {p : Int} {t : Tid}
    (hruns : k.runningPid t = p) (hp : p ≠ -1) :
    k.running = p ↔ k.con.currentTid = t := by
  obtain ⟨chain, hF⟩ := hk.forest
  constructor
  · intro hhead
    by_contra hne
    have hlive : (table k).head ≠ -1 := by
      show k.running ≠ -1
      rw [hhead]
      exact hp
    have hother : t ≠ (table k).cur := fun heq => hne heq.symm
    exact hF.running_ne_head hlive hother (hruns.trans hhead.symm)
  · rintro rfl
    exact hruns

/-- Round robin: the code of a process that makes no call runs at just those times at
which the number of PIT interrupts has brought the turn to its terminal, whatever else
happens in tame steps, and then its page is mapped. -/
theorem round_robin {fs : FileSys} {k0 : Kernel σ} {s s' : Cpu σ}
    {es es' : List (KernelEvent σ)} {p : Int} {t : Tid} (h0 : Initialised k0)
    (hboot : Run (Guarded (fun s => Tame s.k) (CpuStep fs)) { k := k0, user := none } es s)
    (hruns : s.k.runningPid t = p) (hp : p ≠ -1)
    (hrun : Run (Guarded (fun s => Aside p s.k) (CpuStep fs)) s es' s') :
    (s'.Runs p ↔ turn s.k.con.currentTid (ticks es') = t) ∧
      (s'.Runs p → s'.k.pde = PDE_ST + p - 1) := by
  have hstart : Placed fs (video k0) none := .inl ⟨rfl, h0.running⟩
  have hs := placed_run (fun _ _ h => h) ⟨sound_initialised h0, hstart⟩ hboot
  obtain ⟨hk', hplaced⟩ := placed_run (fun _ _ h => h.1) hs hrun
  have hkernel := run_of_cpu hrun
  obtain ⟨-, hkept⟩ := kept_run hs.1 (used_of_runs hs.1 hruns hp) hkernel
  have hcur := cur_run (hkernel.mono fun _ _ _ h => h.2)
  rw [runs_iff hplaced hp, ← hcur]
  refine ⟨running_iff_turn hk' (hkept.stays.running t hruns) hp, fun hhead => ?_⟩
  have hmapped : s'.k.running ≠ -1 → s'.k.pde = PDE_ST + s'.k.running - 1 := hk'.mapped
  rw [hhead] at hmapped
  exact hmapped hp

/-- The state in which `cat` begins. -/
def homeCpu : Cpu Nat :=
  (follow (guardStep (fun s => Tame s.k) (cpuStep homeImage))
    { k := SampleImage.idleKernel 0, user := none } homeEvents).getD
    { k := SampleImage.idleKernel 0, user := none }

def laterCpu : Cpu Nat :=
  (follow (guardStep (fun s => Aside 2 s.k) (cpuStep homeImage)) homeCpu
    otherEvents).getD homeCpu

/-- Three PIT interrupts later the code of `cat` runs again. -/
theorem cat_turn :
    laterCpu.user = some (1, 2) ∧
      (laterCpu.Runs 2 ↔ turn homeCpu.k.con.currentTid (ticks otherEvents) = 1) ∧
      (laterCpu.Runs 2 → laterCpu.k.pde = PDE_ST + 2 - 1) :=
  ⟨by decide, round_robin (SampleImage.initialised_idleKernel 0)
    (follow_guarded (cpuStep homeImage) (by decide)) (by decide) (by decide)
    (follow_guarded (cpuStep homeImage) (by decide))⟩

end MongOS.Proofs.Isolation
