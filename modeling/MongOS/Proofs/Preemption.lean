import MongOS.Proofs.MachineInvariant
import MongOS.Proofs.SampleImage

/-!
# Preemption of processes that have not left `execute`

A base shell is started by `pit_irq` or by the `halt` of another base shell, and
runs on the kernel stack of that code until its `IRET`.  A PIT interrupt between
`sti` and `IRET` saves its context there, where it is overwritten later.  This
file proves what holds in every run without such an interrupt, and shows runs
with one that break it.

* `OwnStack`, `CanStart` — the conditions on a PIT interrupt.
* `saved_context_survives` — a saved context stays on the stack of its process
  or of the parent that waits for it.
* `user_code_on_its_page` — user code runs on the page and with the kernel stack
  of its process.
* `switch_completes` — a switch ends in the process of the next terminal.
-/

namespace MongOS.Proofs.Preemption

open MongOS.Model
open MongOS.Verified
open MongOS.Proofs.ProcTable
open MongOS.Proofs.MachineTable
open MongOS.Proofs.ProcForest
open MongOS.Proofs.KernelStacks
open MongOS.Proofs.MachineInvariant

variable {fs : FileSys} {m0 m m' n : Machine (Kernel Sp)}
  {es : List MachineEvent} {e : MachineEvent} {p : Int}

/-! ## The conditions on a PIT interrupt -/

/-- If the interrupt hits the end of an `execute`, the new process has a parent,
or it is on its own kernel stack. -/
def OwnStack (m : Machine (Kernel Sp)) : Prop :=
  InWindow m.cpu →
    (m.k.pcb m.k.running).parPid ≠ -1 ∨ OnBlock m.k.running m.cpu

/-- A condition on PIT interrupts only. -/
def AtPit (P : Machine (Kernel Sp) → Prop) (m : Machine (Kernel Sp)) :
    MachineEvent → Prop
  | .pit _ => P m
  | _ => True

/-- The steps of the machine in which PIT interrupts meet the conditions. -/
def SafeStep (fs : FileSys) :
    Machine (Kernel Sp) → MachineEvent → Machine (Kernel Sp) → Prop :=
  Guarded (AtPit fun m => OwnStack m ∧ CanStart m.k) (MachineStep fs)

theorem startable_iff : Startable (tableMachine m).k ↔ CanStart m.k :=
  forall_congr' fun _ => (pidFree_iff m.k).symm

theorem allowed_table (h : AtPit (fun m => OwnStack m ∧ CanStart m.k) m e) :
    Allowed (tableMachine m) e := by
  cases e with
  | pit stk => exact ⟨h.1, startable_iff.2 h.2⟩
  | _ => trivial

theorem next_ne : ∀ t : Tid, t + 1 ≠ t := by decide

/-! ## The invariant along runs -/

theorem inv_booted (h0 : Booted m0) :
    Inv (tableMachine m0) (fun _ => []) fun _ => (0, []) := by
  have habs : tableMachine m0 =
      { k := table m0.k, mem := m0.mem, cpu := .kernel 1 [.boot] .code } := by
    unfold tableMachine mapMachine
    rw [h0.cpu]
  rw [habs]
  exact inv_boot (forest_initialised h0.kernel) h0.kernel.running

theorem inv_safeStep (hshell : ShellRunnable fs) {chain : Tid → List Int}
    {held : Held} (h : Inv (tableMachine m) chain held) (hstep : SafeStep fs m e m') :
    Goes (tableMachine m).k chain held (tableMachine m') :=
  inv_step h (fun stk => loads_shell hshell stk rfl) (allowed_table hstep.1)
    (machineStep_table hstep.2)

theorem inv_reached (hshell : ShellRunnable fs) (h0 : Booted m0)
    (hrun : Run (SafeStep fs) m0 es m) :
    ∃ chain held, Inv (tableMachine m) chain held := by
  refine hrun.invariant (fun m => ∃ chain held, Inv (tableMachine m) chain held)
    ⟨_, _, inv_booted h0⟩ ?_
  rintro m e m' ⟨chain, held, h⟩ hstep
  obtain ⟨chain', held', h', -⟩ := inv_safeStep hshell h hstep
  exact ⟨chain', held', h'⟩

theorem switched_reached (hshell : ShellRunnable fs) {chain : Tid → List Int}
    {held : Held} (h : Inv (tableMachine m) chain held) {stk : CStr}
    (hstep : SafeStep fs m (.pit stk) m') :
    ∃ chain' held', Switched (tableMachine m) chain held (tableMachine m') chain' held' := by
  have hallowed := allowed_table hstep.1
  exact inv_pit h (fun stk => loads_shell hshell stk rfl) hallowed.1 hallowed.2
    (machineStep_table hstep.2)

/-! ## Concrete runs

Runs of the machine from runs on process tables, which can be computed. -/

/-- `execute` is called with `shell` only, and PIT interrupts meet `pre`. -/
def shellsOnly (pre : Machine (Table Sp) → Bool) (M : Machine (Table Sp)) :
    MachineEvent → Bool
  | .pit _ => pre M
  | .execute _ command => command.map CStr.bytes == some shellCmd.bytes
  | _ => true

/-- Such a step to a state that meets `post`. -/
def tableStep (pre post : Machine (Table Sp) → Bool) (M : Machine (Table Sp))
    (e : MachineEvent) : Option (Machine (Table Sp)) :=
  if shellsOnly pre M e then
    (M.step (tableOps fun _ _ => true) e).filter post
  else none

/-- The step is one for every notion of an executable that `shell` is. -/
theorem step_shell {ok : CStr → Option CStr → Bool}
    (hok : ∀ stk command, command.map CStr.bytes = some shellCmd.bytes →
      ok stk command = true)
    {pre : Machine (Table Sp) → Bool} {M : Machine (Table Sp)}
    (h : shellsOnly pre M e = true) :
    M.step (tableOps ok) e = M.step (tableOps fun _ _ => true) e := by
  have hshell : ∀ stk, ok stk (some shellCmd) = true := fun stk => hok stk _ rfl
  cases e with
  | pit stk =>
      show M.pitStep _ stk = M.pitStep _ stk
      unfold Machine.pitStep tableOps
      simp only [hshell]
      rfl
  | execute stk command =>
      have hcommand := hok stk command (beq_iff_eq.1 h)
      show M.executeStep _ stk command = M.executeStep _ stk command
      unfold Machine.executeStep tableOps
      simp only [hcommand]
  | halt stk status =>
      show M.haltStep _ stk status = M.haltStep _ stk status
      unfold Machine.haltStep tableOps
      simp only [hshell]
  | _ => rfl

section Lift

variable {pre post : Machine (Table Sp) → Bool}
  {P Q : Machine (Kernel Sp) → Prop}

theorem lift_step (hshell : ShellRunnable fs)
    (hpre : ∀ m, pre (tableMachine m) = true → P m)
    (hpost : ∀ m, post (tableMachine m) = true → Q m)
    {M' : Machine (Table Sp)}
    (h : tableStep pre post (tableMachine m) e = some M') :
    ∃ m', Within Q (Guarded (AtPit P) (MachineStep fs)) m e m' ∧
      tableMachine m' = M' := by
  obtain ⟨hallowed, h⟩ := Option.ite_none_right_eq_some.1 h
  obtain ⟨hstep, hM'⟩ := Option.filter_eq_some_iff.1 h
  rw [← step_shell
    (fun stk command hcommand => loads_shell hshell stk hcommand) hallowed]
    at hstep
  obtain ⟨m', hm', rfl⟩ := machineStep_of_table hstep
  refine ⟨m', ⟨⟨?_, hm'⟩, hpost m' hM'⟩, rfl⟩
  cases e with
  | pit stk => exact hpre m hallowed
  | _ => trivial

theorem lift_run (hshell : ShellRunnable fs)
    (hpre : ∀ m, pre (tableMachine m) = true → P m)
    (hpost : ∀ m, post (tableMachine m) = true → Q m)
    {M : Machine (Table Sp)}
    (h : follow (tableStep pre post) (tableMachine m) es = some M) :
    ∃ m', Run (Within Q (Guarded (AtPit P) (MachineStep fs))) m es m' ∧
      tableMachine m' = M := by
  refine (follow_run _ h).simulate (fun M m => tableMachine m = M) ?_ rfl
  rintro M n e M' rfl hstep
  exact lift_step hshell hpre hpost hstep

end Lift

/-- The machine in the idle loop. -/
def idleMachine : Machine (Kernel Sp) :=
  { k := SampleImage.idleKernel { block := 0, path := [] }
    mem := fun _ => []
    cpu := .kernel 1 [.boot] .code }

theorem booted_idleMachine : Booted idleMachine :=
  { kernel := SampleImage.initialised_idleKernel _, cpu := rfl }

/-- A PIT interrupt, a system call `execute("shell")` and a system call `halt`
of the running process, and the end of `execute`. -/
def pitEvent : MachineEvent := .pit { before := 0, bytes := [] }

def shellEvents : List MachineEvent :=
  [.trap .syscall, .execute { before := 0, bytes := [] } (some shellCmd)]

def haltEvents : List MachineEvent :=
  [.trap .syscall, .halt { before := 0, bytes := [] } 0]

def enterEvents : List MachineEvent := [.tss, .iret]

/-- Base shells are started on all three terminals. -/
def threeShells : List MachineEvent :=
  pitEvent :: enterEvents ++ pitEvent :: enterEvents ++
    pitEvent :: enterEvents

/-- The conditions on PIT interrupts, for runs on tables. -/
def safePit (M : Machine (Table Sp)) : Bool := decide (Safe M ∧ Startable M.k)

theorem safePit_iff :
    safePit (tableMachine m) = true ↔ OwnStack m ∧ CanStart m.k := by
  refine decide_eq_true_iff.trans (and_congr Iff.rfl startable_iff)

/-- A run on tables that meets the conditions. -/
theorem lift_safe {M : Machine (Table Sp)}
    (h : follow (tableStep safePit fun _ => true) (tableMachine idleMachine) es =
      some M) :
    ∃ m, Run (SafeStep SampleImage.shellImage) idleMachine es m ∧
      tableMachine m = M := by
  obtain ⟨m, hrun, hm⟩ := lift_run (Q := fun _ => True)
    SampleImage.shell_runnable (fun _ => safePit_iff.1) (fun _ _ => trivial) h
  exact ⟨m, hrun.mono fun _ _ _ hstep => hstep.1, hm⟩

/-! ## Saved contexts -/

/-- Block `b` is the kernel stack of the parent of `p`, which runs on no
terminal until `p` ends. -/
def ParentWaits
    (step : Machine (Kernel Sp) → MachineEvent → Machine (Kernel Sp) → Prop)
    (m : Machine (Kernel Sp)) (p b : Int) : Prop :=
  b ≠ -1 ∧ ∀ es n,
    Run (Within (fun n => n.k.pidSt (p - 1) = 1) step) m es n →
    (n.k.pcb p).parPid = b ∧ ∀ t, n.k.runningPid t ≠ b

/-- The switch to `m` has saved the context of `p` on its own kernel stack, or
on the one of a parent that waits for it, and nothing is pushed over the context
until `p` runs again. -/
def ContextKept
    (step : Machine (Kernel Sp) → MachineEvent → Machine (Kernel Sp) → Prop)
    (m : Machine (Kernel Sp)) (p : Int) : Prop :=
  ∃ b stack, (m.k.pcb p).savedEsp = spOf b stack ∧
    (b = p ∨ ParentWaits step m p b) ∧
    ∀ es n, Run (Within (fun n => n.k.running ≠ p) step) m es n →
      (n.k.pcb p).savedEsp = spOf b stack ∧
        n.fetch (spOf b stack) = some stack

theorem parent_waits (hshell : ShellRunnable fs) {chain : Tid → List Int}
    {held : Held} (h : Inv (tableMachine m) chain held) {t : Tid} (hp : p ∈ chain t)
    (hpar : (m.k.pcb p).parPid ≠ -1) :
    ParentWaits (SafeStep fs) m p (m.k.pcb p).parPid := by
  refine ⟨hpar, fun es n hrun => ?_⟩
  -- `p` keeps its parent for as long as it lives
  have hkept := hrun.invariant
    (fun n => (n.k.pcb p).parPid = (m.k.pcb p).parPid ∧
      ∃ chain held, Inv (tableMachine n) chain held ∧ ∃ t, p ∈ chain t)
    ⟨rfl, chain, held, h, t, hp⟩ ?_
  · obtain ⟨hsame, chain', held', h', u, hu⟩ := hkept
    refine ⟨hsame, fun v heq => ?_⟩
    rw [← hsame] at heq hpar
    exact h'.core.forest.parent_ne_running hu hpar v heq.symm
  · rintro n e n' ⟨hsame, chain', held', h', u, hu⟩ ⟨hstep, hlive⟩
    obtain ⟨chain'', held'', h'', hcarried⟩ := inv_safeStep hshell h' hstep
    have hchild : (n.k.pcb p).parPid ≠ -1 := by rwa [hsame]
    have hparent : (n'.k.pcb p).parPid = (n.k.pcb p).parPid :=
      hcarried.parent u p hu hchild
    exact ⟨hparent.trans hsame, chain'', held'', h'',
      (h''.core.forest.used p).1 hlive⟩

/-- Whenever a PIT interrupt that meets the conditions, in a run in which all
do, saves the context of a process, the context is kept. -/
theorem saved_context_survives (hshell : ShellRunnable fs) (h0 : Booted m0)
    (hrun : Run (SafeStep fs) m0 es m) {stk : CStr}
    (hpit : SafeStep fs m (.pit stk) m') (hp : m.k.running ≠ -1) :
    ContextKept (SafeStep fs) m' m.k.running := by
  obtain ⟨chain, held, h⟩ := inv_reached hshell h0 hrun
  obtain ⟨chain', held', hswitch⟩ := switched_reached hshell h hpit
  have hstays : m.k.running ∈ chain' m.k.con.currentTid := hswitch.stays hp
  have hmem : m.k.running ∈ chain m.k.con.currentTid :=
    h.core.forest.running_mem hp
  have hother : m'.k.running ≠ m.k.running := by
    intro heq
    have hcur : m'.k.con.currentTid = m.k.con.currentTid + 1 := hswitch.cur
    have hruns : m'.k.running ∈ chain' m'.k.con.currentTid :=
      hswitch.inv.core.forest.running_mem hswitch.runs
    rw [heq] at hruns
    have htid := hswitch.inv.core.forest.tid_unique hruns hstays
    exact next_ne _ (hcur.symm.trans htid)
  obtain ⟨caller, base, w, -, -, hseat, -⟩ := (hswitch.saved hp).shape
  refine ⟨(held' m.k.running).1, (held' m.k.running).2,
    hswitch.inv.core.saved _ _ hstays hother.symm, ?_, ?_⟩
  · have hblock : (held' m.k.running).1 = m.k.running ∨
        (held' m.k.running).1 = (m.k.pcb m.k.running).parPid ∧
          (held' m.k.running).1 ≠ -1 := hseat.block
    rcases hblock with hown | ⟨hpar, hne⟩
    · exact .inl hown
    · have hparent : (m'.k.pcb m.k.running).parPid =
          (m.k.pcb m.k.running).parPid :=
        hswitch.carried.parent _ _ hmem (hpar.symm.trans_ne hne)
      rw [hpar, ← hparent] at hne ⊢
      exact .inr (parent_waits hshell hswitch.inv hstays hne)
  · intro es n hrun'
    have hkept := hrun'.invariant
      (fun n => n.k.running ≠ m.k.running ∧ ∃ chain held, Inv (tableMachine n) chain held ∧
        held m.k.running = held' m.k.running ∧ ∃ t, m.k.running ∈ chain t)
      ⟨hother, chain', held', hswitch.inv, rfl, _, hstays⟩ ?_
    · obtain ⟨hne, chain'', held'', h'', hheld, u, hu⟩ := hkept
      have hsaved := h''.core.saved u _ hu hne.symm
      have hin := h''.core.kept u _ hu hne.symm
      rw [hheld] at hsaved hin
      exact ⟨hsaved, fetch_kept hin⟩
    · rintro n e n' ⟨hne, chain'', held'', h'', hheld, u, hu⟩ ⟨hstep, hne'⟩
      obtain ⟨chain₃, held₃, h₃, hcarried⟩ := inv_safeStep hshell h'' hstep
      exact ⟨hne', chain₃, held₃, h₃,
        (hcarried.holds _ hp hne.symm).trans hheld, u,
        hcarried.stays u _ hu hne.symm⟩

/-- The base shell of terminal 0 is preempted when the others have been
started. -/
theorem threeShells_context_kept :
    ∃ m m', Run (SafeStep SampleImage.shellImage) idleMachine threeShells m ∧
      SafeStep SampleImage.shellImage m pitEvent m' ∧ m.k.running = 3 ∧
      ContextKept (SafeStep SampleImage.shellImage) m' m.k.running := by
  have hfollow : ((follow (tableStep safePit fun _ => true)
      (tableMachine idleMachine) threeShells).bind fun M =>
        (tableStep safePit (fun _ => true) M pitEvent).map fun _ => M.k.head) =
      some 3 := by decide +kernel
  obtain ⟨M, hM, hpit⟩ := Option.bind_eq_some_iff.1 hfollow
  obtain ⟨M', hM', hhead⟩ := Option.map_eq_some_iff.1 hpit
  obtain ⟨m, hrun, rfl⟩ := lift_safe hM
  obtain ⟨m', hstep, -⟩ := lift_step (Q := fun _ => True)
    SampleImage.shell_runnable (fun _ => safePit_iff.1) (fun _ _ => trivial) hM'
  have hrunning : m.k.running = 3 := hhead
  exact ⟨m, m', hrun, hstep.1, hrunning,
    saved_context_survives SampleImage.shell_runnable booted_idleMachine hrun
      hstep.1 (by rw [hrunning]; decide)⟩

/-- The second PIT interrupt starts a base shell on the stack of the first
shell, and the third hits it before its `IRET`: the context of process 2, which
has no parent, is saved on the kernel stack of process 1, and a system call of
process 1 overwrites it. -/
theorem context_on_foreign_stack :
    ∃ m m' n, Booted idleMachine ∧ ShellRunnable SampleImage.shellImage ∧
      Run (MachineStep SampleImage.shellImage) idleMachine
        (pitEvent :: enterEvents ++ [pitEvent]) m ∧
      MachineStep SampleImage.shellImage m pitEvent m' ∧
      Run (Within (fun n => n.k.running ≠ 2) (MachineStep SampleImage.shellImage))
        m' (enterEvents ++ [pitEvent, .trap .syscall]) n ∧
      m.k.running = 2 ∧ (m.k.pcb 2).parPid = -1 ∧
      (m'.k.pcb 2).savedEsp.block = 1 ∧ n.fetch (n.k.pcb 2).savedEsp = none ∧
      ¬ ContextKept (MachineStep SampleImage.shellImage) m' 2 := by
  have hfollow : ((follow (tableStep (fun _ => true) fun _ => true)
      (tableMachine idleMachine) (pitEvent :: enterEvents ++ [pitEvent])).bind
        fun M => (tableStep (fun _ => true) (fun _ => true) M pitEvent).bind
          fun M' => (follow (tableStep (fun _ => true) fun N => N.k.head != 2)
            M' (enterEvents ++ [pitEvent, .trap .syscall])).map fun N =>
              (M.k.head, M.k.parent 2, M'.k.parent 2, (M'.k.savedEsp 2).block,
                (N.fetch (N.k.savedEsp 2)).isNone)) =
      some (2, -1, -1, 1, true) := by decide +kernel
  obtain ⟨M, hM, hpit⟩ := Option.bind_eq_some_iff.1 hfollow
  obtain ⟨M', hM', hrest⟩ := Option.bind_eq_some_iff.1 hpit
  obtain ⟨N, hN, hfacts⟩ := Option.map_eq_some_iff.1 hrest
  obtain ⟨m, hrun, rfl⟩ := lift_run (P := fun _ => True) (Q := fun _ => True)
    SampleImage.shell_runnable (fun _ _ => trivial) (fun _ _ => trivial) hM
  obtain ⟨m', hstep, rfl⟩ := lift_step (P := fun _ => True) (Q := fun _ => True)
    SampleImage.shell_runnable (fun _ _ => trivial) (fun _ _ => trivial) hM'
  obtain ⟨n, hrun', rfl⟩ := lift_run (P := fun _ => True)
    (Q := fun n => n.k.running ≠ 2) SampleImage.shell_runnable
    (fun _ _ => trivial) (fun _ hne => bne_iff_ne.1 hne) hN
  simp only [Prod.mk.injEq] at hfacts
  obtain ⟨hhead, hpar, hpar', hblock, hfetch⟩ := hfacts
  have hblock : (m'.k.pcb 2).savedEsp.block = 1 := hblock
  have hpar' : (m'.k.pcb 2).parPid = -1 := hpar'
  refine ⟨m, m', n, booted_idleMachine, SampleImage.shell_runnable,
    hrun.mono fun _ _ _ h => h.1.2, hstep.1.2,
    hrun'.mono fun _ _ _ h => ⟨h.1.2, h.2⟩, hhead, hpar, hblock,
    Option.isNone_iff_eq_none.1 hfetch, ?_⟩
  rintro ⟨b, stack, hsaved, hown, -⟩
  rw [hsaved] at hblock
  obtain rfl : b = 1 := hblock
  rcases hown with hown | ⟨-, hwaits⟩
  · exact absurd hown (by decide)
  · have hparent := (hwaits [] m' .nil).1
    rw [hpar'] at hparent
    exact absurd hparent (by decide)

/-! ## User code -/

/-- User code of `p` runs as it should: `p` is the running process, and the user
page and the kernel stack are its own. -/
structure OnItsPage (m : Machine (Kernel Sp)) (p : Int) : Prop where
  running : m.k.running = p
  live : m.k.pidSt (p - 1) = 1
  page : m.k.pde = p + 1
  stack : m.k.tssEsp0 = 0x800000 - (p - 1) * 0x2000 - 4

theorem onItsPage {chain : Tid → List Int} {held : Held}
    (h : Inv (tableMachine m) chain held) (hcpu : m.cpu = .user p) : OnItsPage m p := by
  have habs : (tableMachine m).cpu = .user p := hcpu
  have hok := h.cpu
  rw [habs] at hok
  cases hok with
  | user hrun hpde htss =>
      have hmem := h.core.forest.running_mem (t := (tableMachine m).k.cur) hrun
      have hpage : m.k.pde = PDE_ST + m.k.running - 1 := hpde
      have hstack : m.k.tssEsp0 = stackTop m.k.running := htss
      refine
        { running := rfl, live := h.core.forest.used_of_mem hmem, page := ?_
          stack := ?_ }
      · rw [hpage]
        show (2 : Int) + m.k.running - 1 = m.k.running + 1
        omega
      · exact hstack

/-- In every run whose PIT interrupts meet the conditions, user code runs on the
page and with the kernel stack of its process, which differ between processes. -/
theorem user_code_on_its_page (hshell : ShellRunnable fs) (h0 : Booted m0)
    (hrun : Run (SafeStep fs) m0 es m) (hcpu : m.cpu = .user p) :
    OnItsPage m p ∧ ∀ es' n q, Run (SafeStep fs) m0 es' n → n.cpu = .user q →
      q ≠ p → n.k.pde ≠ m.k.pde ∧ n.k.tssEsp0 ≠ m.k.tssEsp0 := by
  obtain ⟨chain, held, h⟩ := inv_reached hshell h0 hrun
  have hp := onItsPage h hcpu
  refine ⟨hp, fun es' n q hrun' hcpu' hne => ?_⟩
  obtain ⟨chain', held', h'⟩ := inv_reached hshell h0 hrun'
  have hq := onItsPage h' hcpu'
  rw [hp.page, hp.stack, hq.page, hq.stack]
  constructor <;> omega

/-- A PIT interrupt returns to the user code of the first base shell. -/
theorem threeShells_on_page :
    ∃ m, Run (SafeStep SampleImage.shellImage) idleMachine
        (threeShells ++ [pitEvent]) m ∧
      m.cpu = .user 1 ∧ OnItsPage m 1 := by
  have hfollow : (follow (tableStep safePit fun _ => true)
      (tableMachine idleMachine) (threeShells ++ [pitEvent])).map Machine.cpu =
      some (.user 1) := by decide +kernel
  obtain ⟨M, hM, hcpu⟩ := Option.map_eq_some_iff.1 hfollow
  obtain ⟨m, hrun, rfl⟩ := lift_safe hM
  exact ⟨m, hrun, hcpu, (user_code_on_its_page SampleImage.shell_runnable
    booted_idleMachine hrun hcpu).1⟩

/-- Shells are started on three terminals, with a child in terminal 1; the child
and the base shells of terminals 2 and 0 halt, each of these is interrupted in
the end of the `execute` that starts it again, and the new base shell of
terminal 0 lies where the context of the one of terminal 2 was saved. -/
def foreignPageRun : List MachineEvent :=
  pitEvent :: enterEvents ++ shellEvents ++ enterEvents ++
    pitEvent :: enterEvents ++ pitEvent :: enterEvents ++ [pitEvent] ++
    haltEvents ++ [.ret, pitEvent] ++ haltEvents ++ [pitEvent] ++ haltEvents ++
    enterEvents ++ haltEvents ++ [pitEvent, pitEvent] ++ enterEvents

/-- The switch to process 2 continues in the `execute` of process 3, and the
program of process 3 runs on the page of process 2. -/
theorem user_code_on_foreign_page :
    ∃ m, Booted idleMachine ∧ ShellRunnable SampleImage.shellImage ∧
      Run (Guarded (AtPit fun m => CanStart m.k)
        (MachineStep SampleImage.shellImage)) idleMachine foreignPageRun m ∧
      m.cpu = .user 3 ∧ m.k.running = 2 ∧ m.k.pde = 2 + 1 ∧
      m.k.tssEsp0 = stackTop 3 ∧ ¬ OnItsPage m 3 := by
  have hfollow : (follow
      (tableStep (fun M => decide (Startable M.k)) fun _ => true)
      (tableMachine idleMachine) foreignPageRun).map
        (fun M => (M.cpu, M.k.head, M.k.pde, M.k.tssEsp0)) =
      some (.user 3, 2, 3, stackTop 3) := by decide +kernel
  obtain ⟨M, hM, hfacts⟩ := Option.map_eq_some_iff.1 hfollow
  obtain ⟨m, hrun, rfl⟩ := lift_run (P := fun m => CanStart m.k)
    (Q := fun _ => True) SampleImage.shell_runnable
    (fun _ h => startable_iff.1 (of_decide_eq_true h)) (fun _ _ => trivial) hM
  simp only [Prod.mk.injEq] at hfacts
  obtain ⟨hcpu, hhead, hpde, htss⟩ := hfacts
  have hhead : m.k.running = 2 := hhead
  refine ⟨m, booted_idleMachine, SampleImage.shell_runnable,
    hrun.mono fun _ _ _ h => h.1, hcpu, hhead, hpde, htss, fun hpage => ?_⟩
  have hrunning := hpage.running
  rw [hhead] at hrunning
  exact absurd hrunning (by decide)

/-! ## Switches -/

/-- A switch completes: the next terminal is the current one, and the process
whose code runs is its running process, which is alive. -/
structure Completed (m m' : Machine (Kernel Sp)) : Prop where
  cur : m'.k.con.currentTid = m.k.con.currentTid + 1
  runs : m'.k.running ≠ -1
  live : m'.k.pidSt (m'.k.running - 1) = 1
  code : codeOf m'.cpu = some m'.k.running

/-- A switch changes nothing: the terminal, the video mapping and the running
processes are those from before. -/
structure Unchanged (k k' : Kernel Sp) : Prop where
  cur : k'.con.currentTid = k.con.currentTid
  video : k'.con.pageTableVideo = k.con.pageTableVideo
  userVideo : k'.con.userMapping = k.con.userMapping
  running : k'.runningPid = k.runningPid

/-- Without a pid for a base shell `pit_irq` goes on with a terminal that runs
no process. -/
theorem pit_fails {M M' : Machine (Table Sp)} {ok : CStr → Option CStr → Bool}
    {stk : CStr} (hfull : ¬ Startable M.k)
    (hstep : M.pitStep (tableOps ok) stk = some M') :
    M'.k.cur = M.k.cur + 1 ∧ M'.k.head = -1 := by
  unfold Startable at hfull
  push Not at hfull
  obtain ⟨hidle, hnone⟩ := hfull
  unfold Machine.pitStep at hstep
  obtain ⟨⟨b, caller⟩, -, hstep⟩ := Option.bind_eq_some_iff.1 hstep
  dsimp only at hstep
  have hstart : ∀ ok sp, start ok ((M.k.save (spOf b (.pit :: caller))
      (spOf b (.pit :: caller))).visit (M.k.cur + 1)) sp =
      ((M.k.save (spOf b (.pit :: caller)) (spOf b (.pit :: caller))).visit
        (M.k.cur + 1), none) := by
    intro ok sp
    unfold start
    rw [lowestFree_save_visit, hnone]
    cases ok <;> rfl
  have hpit : (tableOps ok).pitIrq M.k stk (spOf b (.pit :: caller))
      (spOf b (.execute 0 :: .pit :: caller)) =
      ((M.k.save (spOf b (.pit :: caller)) (spOf b (.pit :: caller))).visit
        (M.k.cur + 1), .started none) := by
    unfold tableOps
    dsimp only
    rw [if_pos hidle, hstart]
  rw [hpit] at hstep
  obtain ⟨cpu, -, rfl⟩ := Option.map_eq_some_iff.1 hstep
  refine ⟨rfl, ?_⟩
  show (M.k.save _ _).running (M.k.cur + 1) = -1
  rw [save_running, hidle]

/-- In every run whose PIT interrupts meet the conditions, user code never runs
on a terminal without a process; and a further PIT interrupt on an own stack
completes, or could not be made and changes nothing, exactly when the next
terminal has a process or a pid is free. -/
theorem switch_completes (hshell : ShellRunnable fs) (h0 : Booted m0)
    (hrun : Run (SafeStep fs) m0 es m) :
    (∀ p, m.cpu = .user p → m.k.running ≠ -1) ∧
      ∀ stk m', OwnStack m → MachineStep fs m (.pit stk) m' →
        (Completed m m' ∨ ¬ CanStart m.k ∧ Unchanged m.k m'.k ↔
          CanStart m.k) := by
  obtain ⟨chain, held, h⟩ := inv_reached hshell h0 hrun
  refine ⟨fun p hcpu hidle => ?_, fun stk m' hown hpit => ⟨?_, ?_⟩⟩
  · have hpage := onItsPage h hcpu
    have hmem := (h.core.forest.used p).1 hpage.live
    obtain ⟨t, ht⟩ := hmem
    exact h.core.forest.ne_sentinel ht (hpage.running.symm.trans hidle)
  · intro hdone
    by_contra hfull
    have hfail := pit_fails (fun hstart => hfull (startable_iff.1 hstart))
      (machineStep_table hpit)
    have hcur : m'.k.con.currentTid = m.k.con.currentTid + 1 := hfail.1
    rcases hdone with hcompleted | ⟨-, hsame⟩
    · exact hcompleted.runs hfail.2
    · exact next_ne _ (hcur.symm.trans hsame.cur)
  · intro hstart
    have hstep : SafeStep fs m (.pit stk) m' := ⟨⟨hown, hstart⟩, hpit⟩
    obtain ⟨chain', held', hswitch⟩ := switched_reached hshell h hstep
    have hmem := hswitch.inv.core.forest.running_mem
      (t := (tableMachine m').k.cur) hswitch.runs
    exact .inl
      { cur := hswitch.cur
        runs := hswitch.runs
        live := hswitch.inv.core.forest.used_of_mem hmem
        code := hswitch.inv.cpu.codeOf_eq hswitch.runs }

/-- A PIT interrupt with shells on all three terminals. -/
theorem threeShells_switch :
    ∃ m m', Run (SafeStep SampleImage.shellImage) idleMachine threeShells m ∧
      MachineStep SampleImage.shellImage m pitEvent m' ∧
      (Completed m m' ∨ ¬ CanStart m.k ∧ Unchanged m.k m'.k) := by
  have hfollow : ((follow (tableStep safePit fun _ => true)
      (tableMachine idleMachine) threeShells).bind fun M =>
        (tableStep safePit (fun _ => true) M pitEvent).map fun _ => 0) =
      some 0 := by decide +kernel
  obtain ⟨M, hM, hpit⟩ := Option.bind_eq_some_iff.1 hfollow
  obtain ⟨M', hM', -⟩ := Option.map_eq_some_iff.1 hpit
  obtain ⟨m, hrun, rfl⟩ := lift_safe hM
  obtain ⟨m', hstep, -⟩ := lift_step (Q := fun _ => True)
    SampleImage.shell_runnable (fun _ => safePit_iff.1) (fun _ _ => trivial) hM'
  obtain ⟨⟨hown, hstart⟩, hpit⟩ := hstep.1
  have hall := switch_completes SampleImage.shell_runnable booted_idleMachine
    hrun
  exact ⟨m, m', hrun, hpit, (hall.2 _ m' hown hpit).2 hstart⟩

/-- Terminal 1 runs six processes when the PIT interrupt turns to terminal 2:
no pid is left for its base shell, terminal 2 becomes the current one, and the
code of process 6 goes on there. -/
theorem switch_leaves_no_process :
    ∃ m m', Booted idleMachine ∧ ShellRunnable SampleImage.shellImage ∧
      Run (SafeStep SampleImage.shellImage) idleMachine
        (pitEvent :: enterEvents ++
          (List.replicate 5 (shellEvents ++ enterEvents)).flatten) m ∧
      MachineStep SampleImage.shellImage m pitEvent m' ∧
      m.k.con.currentTid = 1 ∧ m'.k.con.currentTid = 2 ∧ m'.cpu = .user 6 ∧
      m'.k.running = -1 ∧
      ¬ (Completed m m' ∨ ¬ CanStart m.k ∧ Unchanged m.k m'.k) := by
  have hfollow : ((follow (tableStep safePit fun _ => true)
      (tableMachine idleMachine) (pitEvent :: enterEvents ++
        (List.replicate 5 (shellEvents ++ enterEvents)).flatten)).bind fun M =>
        (tableStep (fun _ => true) (fun _ => true) M pitEvent).map fun M' =>
          (M.k.cur, M'.k.cur, M'.cpu, M'.k.head)) =
      some (1, 2, .user 6, -1) := by decide +kernel
  obtain ⟨M, hM, hpit⟩ := Option.bind_eq_some_iff.1 hfollow
  obtain ⟨M', hM', hfacts⟩ := Option.map_eq_some_iff.1 hpit
  obtain ⟨m, hrun, rfl⟩ := lift_safe hM
  obtain ⟨m', hstep, rfl⟩ := lift_step (P := fun _ => True) (Q := fun _ => True)
    SampleImage.shell_runnable (fun _ _ => trivial) (fun _ _ => trivial) hM'
  simp only [Prod.mk.injEq] at hfacts
  obtain ⟨hcur, hcur', hcpu, hhead⟩ := hfacts
  have hcur : m.k.con.currentTid = 1 := hcur
  have hcur' : m'.k.con.currentTid = 2 := hcur'
  refine ⟨m, m', booted_idleMachine, SampleImage.shell_runnable, hrun,
    hstep.1.2, hcur, hcur', hcpu, hhead, ?_⟩
  rintro (hcompleted | ⟨-, hsame⟩)
  · exact hcompleted.runs hhead
  · have heq := hsame.cur
    rw [hcur, hcur'] at heq
    exact absurd heq (by decide)

end MongOS.Proofs.Preemption
