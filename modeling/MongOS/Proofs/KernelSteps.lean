import MongOS.Model.Interleaving
import MongOS.Proofs.VirtualRtc
import MongOS.Proofs.VideoSteps

/-!
# The steps of the whole kernel

`ProcSteps` and `VirtualRtc` are about the process functions and about the
descriptor calls.  This file puts all entries into the kernel together.

* `OwnCall` — a descriptor call changes the console, and the control block and the
  page of its caller.
* `steady_keyboardIrq` — a key changes no process.
* `Entry`, `kernelStep_entry` — what one step can do.
* `Entry.sound` — every step keeps the process forest, and the page of the
  running process mapped.
-/

namespace MongOS.Proofs.KernelSteps

open MongOS.Model
open MongOS.Verified
open MongOS.Proofs.ProcTable
open MongOS.Proofs.ProcForest
open MongOS.Proofs.ScreenFrame
open MongOS.Proofs.DescriptorCalls
open MongOS.Proofs.DescriptorTable
open MongOS.Proofs.ProcSteps
open MongOS.Proofs.VideoSteps
open MongOS.Proofs.VirtualRtc

variable {σ : Type}

/-! ## Descriptor calls -/

/-- A call that changes nothing but its caller's control block, the page that is
mapped and the console, and there no process data. -/
structure OwnCall (k k' : Kernel σ) : Prop where
  local_ : LocalCall k k'
  pages : ∀ i, i ≠ k.pde → k'.userMem i = k.userMem i

theorem OwnCall.refl (k : Kernel σ) : OwnCall k k :=
  { local_ := .refl k, pages := fun _ _ => rfl }

/-- A call that stores nothing on the page. -/
theorem OwnCall.of_local {k k' : Kernel σ} (h : LocalCall k k')
    (hpages : k'.userMem = k.userMem) : OwnCall k k' :=
  { local_ := h, pages := fun i _ => congrFun hpages i }

/-- A store on the page that is mapped. -/
theorem OwnCall.store {k k' : Kernel σ} (h : OwnCall k k') (va : Nat)
    (a : Nat → Byte) : OwnCall k (storeUser k' va a) :=
  { local_ := { keeps := h.local_.keeps, others := h.local_.others }
    pages := fun i hi => by
      have hpde : k'.pde = k.pde := congrArg Table.pde h.local_.keeps
      rw [← h.pages i hi]
      exact Function.update_of_ne (hpde ▸ hi) _ _ }

/-- A call with an array on the page. -/
theorem OwnCall.finish {k k₁ k' : Kernel σ} {r : CallResult} (h : OwnCall k k₁)
    (va : Nat) (hfinish : finishCall va k₁ r = some k') : OwnCall k k' := by
  cases r with
  | ret value a =>
      obtain rfl := Option.some.inj hfinish
      split
      · exact h
      · exact h.store va a
  | waits =>
      obtain rfl := Option.some.inj hfinish
      exact h
  | faults => cases hfinish

/-- `read` is refused or waits, or it calls the read operation of a slot and stores
the new position there. -/
theorem read_splits (fs : FileSys) (k : Kernel σ) (fd : Int)
    (buf : Option (Nat → Byte)) (nbytes : Int) :
    (read fs k fd buf nbytes).1 = k ∨
      ∃ target inode pos b ops f, (read fs k fd buf nbytes).1 =
        (readOp fs k inode pos b nbytes ops).1.modifySlot target f := by
  unfold Model.read
  dsimp only
  split
  · exact .inl rfl
  split
  · exact .inl rfl
  rename_i b
  split
  · exact .inl rfl
  split
  · exact .inl rfl
  split
  · exact .inl rfl
  split
  · exact .inl rfl
  rename_i ops _
  dsimp only
  exact .inr ⟨_, _, _, b, ops, _, rfl⟩

theorem readOp_local (fs : FileSys) (k : Kernel σ) (inode pos : Nat)
    (buf : Nat → Byte) (nbytes : Int) (ops : Ops) :
    LocalCall k (readOp fs k inode pos buf nbytes ops).1 := by
  cases ops with
  | terminal =>
      cases hread : readTerminal k.con buf nbytes with
      | none =>
          simp only [readOp, hread]
          exact .refl k
      | some r =>
          obtain ⟨con, value, buf'⟩ := r
          obtain ⟨hrun, hcur⟩ := readTerminal_keeps hread
          simp only [readOp, hread]
          exact { keeps := table_setCon k hrun hcur, others := fun _ _ => rfl }
  | rtc =>
      simp only [readOp, rtcReadArm]
      apply LocalCall.modifyCur
      exact fun _ => ⟨rfl, rfl, rfl, rfl, rfl⟩
  | file => exact .refl k
  | dir =>
      simp only [readOp]
      split <;> exact .refl k

theorem readOp_pages (fs : FileSys) (k : Kernel σ) (inode pos : Nat)
    (buf : Nat → Byte) (nbytes : Int) (ops : Ops) :
    (readOp fs k inode pos buf nbytes ops).1.userMem = k.userMem := by
  cases ops with
  | terminal =>
      simp only [readOp]
      split <;> rfl
  | rtc => rfl
  | file => rfl
  | dir =>
      simp only [readOp]
      split <;> rfl

theorem writeOp_pages (k : Kernel σ) (buf : Nat → Byte) (nbytes : Int) (ops : Ops) :
    (writeOp k buf nbytes ops).1.userMem = k.userMem := by
  cases ops with
  | terminal => rfl
  | rtc =>
      simp only [writeOp, rtcWrite]
      split <;> rfl
  | file => rfl
  | dir => rfl

theorem openOp_pages (fs : FileSys) (k : Kernel σ) (name : CStr) (ops : Ops) :
    (openOp fs k name ops).1.userMem = k.userMem := by
  cases ops <;> rfl

theorem closeOp_pages (fs : FileSys) (k : Kernel σ) (ops : Ops) :
    (closeOp fs k ops).1.userMem = k.userMem := by
  cases ops <;> rfl

theorem OwnCall.open (fs : FileSys) (k : Kernel σ) (name : CStr) :
    OwnCall k («open» fs k name).1 := by
  refine .of_local (.open fs k name) ?_
  rcases open_splits fs k name with hrefused | ⟨d, fd, hname, hfound, hfd⟩
  · rw [hrefused]
  · rw [open_eq hname hfound hfd, openOp_pages]
    rfl

theorem close_pages (fs : FileSys) (k : Kernel σ) (fd : Int) :
    (close fs k fd).1.userMem = k.userMem := by
  rcases close_splits fs k fd with hclose | ⟨ops, hclose⟩
  · rw [hclose]
  · have hop := closeOp_pages fs k ops
    rw [hclose]
    split
    · exact hop
    · exact hop

theorem OwnCall.close (fs : FileSys) (k : Kernel σ) (fd : Int) :
    OwnCall k (close fs k fd).1 :=
  .of_local (.close fs k fd) (close_pages fs k fd)

theorem OwnCall.write (k : Kernel σ) (fd : Int) (buf : Option (Nat → Byte))
    (nbytes : Int) : OwnCall k (write k fd buf nbytes).1 := by
  refine .of_local (.write k fd buf nbytes) ?_
  rcases write_splits k fd buf nbytes with hwrite | ⟨ops, b, -, -, -, -, hwrite⟩
  · rw [hwrite]
  · rw [hwrite, writeOp_pages]

theorem OwnCall.read (fs : FileSys) (k : Kernel σ) (fd : Int)
    (buf : Option (Nat → Byte)) (nbytes : Int) :
    OwnCall k (read fs k fd buf nbytes).1 := by
  rcases read_splits fs k fd buf nbytes with hread | ⟨target, inode, pos, b, ops, f, hread⟩
  · rw [hread]
    exact .refl k
  · rw [hread]
    have hop := readOp_local fs k inode pos b nbytes ops
    exact .of_local (hop.trans (.modifySlot _ target f))
      (readOp_pages fs k inode pos b nbytes ops)

theorem OwnCall.vidmap (k : Kernel σ) (screenStart : Nat) :
    OwnCall k (vidmap k screenStart).1 := by
  refine
    { local_ := { keeps := table_vidmap k screenStart, others := fun p hp => ?_ }
      pages := fun i hi => ?_ }
  · unfold Model.vidmap
    split
    · rfl
    split
    · rfl
    · exact Function.update_of_ne hp _ _
  · unfold Model.vidmap
    split
    · rfl
    split
    · rfl
    · exact Function.update_of_ne hi _ _

theorem closeAll_pages (fs : FileSys) (k : Kernel σ) (pid : Int) :
    (closeAll fs k pid).userMem = k.userMem := by
  rw [closeAll_eq]
  refine foldl_keeps Kernel.userMem _ (fun k i => ?_) _ k
  unfold closeRound
  split
  · rfl
  · exact close_pages fs k i

/-! ## Keys -/

/-- The same processes run, on the same current terminal. -/
structure Steady (c d : Console) : Prop where
  running : (input d).running = (input c).running
  cur : d.currentTid = c.currentTid

namespace Steady

theorem refl (c : Console) : Steady c c := { running := rfl, cur := rfl }

theorem trans {c d e : Console} (h : Steady c d) (h' : Steady d e) : Steady c e :=
  { running := h'.running.trans h.running, cur := h'.cur.trans h.cur }

/-- What shows in no field of `Input` but the displayed terminal. -/
theorem of_input {c d : Console} {t : Tid} (h : input d = { input c with display := t }) :
    Steady c d :=
  { running := (congrArg Input.running h).trans rfl
    cur := (congrArg Input.cur h).trans rfl }

theorem of_eq {c d : Console} (h : input d = input c) : Steady c d :=
  { running := congrArg Input.running h, cur := congrArg Input.cur h }

theorem modify (c : Console) (t : Tid) (f : Terminal → Terminal)
    (hf : ∀ r, (f r).runningPid = r.runningPid) : Steady c (c.modify t f) :=
  { running := field_update_self Terminal.runningPid _ _ _ (hf _), cur := rfl }

theorem displayPutc (c : Console) (key : Byte) : Steady c (displayPutc c key) :=
  of_eq (input_displayPutc c key)

theorem terminalSwitch (c : Console) (t : Tid) : Steady c (terminalSwitch c t) :=
  of_input (input_terminalSwitch c t)

theorem eraseLast (c : Console) : Steady c (eraseLast c) := by
  unfold Model.eraseLast
  dsimp only
  refine .trans ?_ (.modify _ _ _ fun _ => rfl)
  split
  · exact (((displayPutc c _).trans (displayPutc _ _)).trans (displayPutc _ _)).trans
      (displayPutc _ _)
  · exact displayPutc c _

theorem appendChar (c : Console) (sch : Byte) : Steady c (appendChar c sch) :=
  .modify _ _ _ fun _ => rfl

theorem typeChar (c : Console) (sch : Byte) : Steady c (typeChar c sch) := by
  unfold Model.typeChar
  dsimp only
  split
  · split
    · exact (displayPutc c _).trans (.modify _ _ _ fun _ => rfl)
    · split
      · exact eraseLast c
      · exact .refl c
  · split
    · split
      · exact .refl c
      · exact eraseLast c
    · split
      · exact ((((displayPutc c _).trans (displayPutc _ _)).trans
          (displayPutc _ _)).trans (displayPutc _ _)).trans (appendChar _ _)
      · have hput := (appendChar c sch).trans (displayPutc _ sch)
        split
        · exact hput.trans (.modify _ _ _ fun _ => rfl)
        · exact hput

theorem getCommandChar {c d : Console} {ch : Byte} (h : getCommandChar c ch = some d) :
    Steady c d := by
  have hfunction : ∀ u,
      Steady c (if c.keys.lAlt ≠ 0 then Model.terminalSwitch c u else c) := by
    intro u
    split
    · exact terminalSwitch c u
    · exact .refl c
  unfold Model.getCommandChar at h
  dsimp only at h
  split at h
  case h_11 => cases h; exact hfunction 0
  case h_12 => cases h; exact hfunction 1
  case h_13 => cases h; exact hfunction 2
  case h_15 => cases h
  all_goals cases h; exact ⟨rfl, rfl⟩

/-- A key changes no process. -/
theorem keyboardIrq (c : Console) (ch : Byte) : Steady c (keyboardIrq c ch) := by
  unfold Model.keyboardIrq
  split
  · exact getCommandChar ‹_›
  · split
    · dsimp only
      split
      · exact (of_eq (input_clear c)).trans (.modify _ _ _ fun _ => rfl)
      · exact typeChar c _
    · exact .refl c

theorem table {c : Console} {k : Kernel σ} (h : Steady k.con c) :
    table { k with con := c } = table k := table_setCon k h.running h.cur

end Steady

/-! ## What one step can do -/

/-- What a step does, with the facts about its parts. -/
inductive Entry (fs : FileSys) (k : Kernel σ) : KernelEvent σ → Kernel σ → Prop
  /-- A descriptor call, a `getargs`, a `vidmap`, or a store on the page. -/
  | call {e k'} (hcall : e.byProcess = true) (hlive : k.running ≠ -1) (h : OwnCall k k') :
      Entry fs k e k'
  /-- An `execute`. -/
  | execute {k'} (stk command esp ebp)
      (h : ProcStep fs k (.execute stk command esp ebp) k') :
      Entry fs k (.video (.execute stk command esp ebp)) k'
  /-- A `halt`. -/
  | halt {k'} (stk status esp ebp) (h : ProcStep fs k (.halt stk status esp ebp) k') :
      Entry fs k (.video (.halt stk status esp ebp)) k'
  /-- A key or a terminal switch. -/
  | key {e c} (htick : e.ticks = 0) (h : Steady k.con c) :
      Entry fs k e { k with con := c }
  /-- An interrupt of the RTC. -/
  | rtc : Entry fs k .rtc (rtcIrq k)
  /-- An interrupt of the PIT. -/
  | pit {k'} (stk esp ebp espExe ebpExe)
      (hstep : ProcStep fs { k with con := vidMem k.con (k.con.currentTid + 1) }
        (.switch (k.con.currentTid + 1) stk esp ebp espExe ebpExe) k') :
      Entry fs k (.video (.pit stk esp ebp espExe ebpExe)) k'

theorem kernelStep_entry {fs : FileSys} {k k' : Kernel σ} {e : KernelEvent σ}
    (h : KernelStep fs k e k') : Entry fs k e k' := by
  have hcalls : ∀ {m : Option (Kernel σ)},
      (if k.running = -1 then none else m) = some k' → k.running ≠ -1 ∧ m = some k' := by
    intro m hm
    split at hm
    · cases hm
    · exact ⟨‹_›, hm⟩
  cases e with
  | video e =>
      cases e with
      | execute stk command esp ebp => exact .execute stk command esp ebp h
      | halt stk status esp ebp => exact .halt stk status esp ebp h
      | vidmap screenStart =>
          obtain ⟨hlive, hdone⟩ := hcalls h
          obtain rfl := Option.some.inj hdone
          exact .call rfl hlive (.vidmap k screenStart)
      | pit stk esp ebp espExe ebpExe =>
          exact .pit stk esp ebp espExe ebpExe h
      | terminalSwitch t =>
          cases h
          exact .key rfl (.terminalSwitch k.con t)
  | «open» filename =>
      obtain ⟨hlive, hdone⟩ := hcalls h
      obtain rfl := Option.some.inj hdone
      exact .call rfl hlive (.open fs k filename)
  | read fd buf nbytes =>
      obtain ⟨hlive, hdone⟩ := hcalls h
      exact .call rfl hlive ((OwnCall.read fs k fd _ nbytes).finish buf hdone)
  | write fd buf nbytes =>
      obtain ⟨hlive, hdone⟩ := hcalls h
      refine .call rfl hlive ?_
      have hown := OwnCall.write k fd buf nbytes
      rw [processStep] at hdone
      split at hdone
      · cases hdone
      · rename_i heq
        rw [heq] at hown
        obtain rfl := Option.some.inj hdone
        exact hown
  | close fd =>
      obtain ⟨hlive, hdone⟩ := hcalls h
      obtain rfl := Option.some.inj hdone
      exact .call rfl hlive (.close fs k fd)
  | getargs below above buf nbytes =>
      obtain ⟨hlive, hdone⟩ := hcalls h
      exact .call rfl hlive ((OwnCall.refl k).finish buf hdone)
  | store va b =>
      obtain ⟨hlive, hdone⟩ := hcalls h
      obtain rfl := Option.some.inj hdone
      exact .call rfl hlive ((OwnCall.refl k).store va _)
  | rtc =>
      cases h
      exact .rtc
  | keyboard ch =>
      cases h
      exact .key rfl (.keyboardIrq k.con ch)

/-! ## The process table -/

/-- The user page of the running process is mapped. -/
def Mapped (T : Table σ) : Prop := T.head ≠ -1 → T.pde = PDE_ST + T.head - 1

/-- A step of the process system maps the page of the process it leads to. -/
theorem Mapped.step {T T' : Table σ} {e : ProcEvent σ} (h : Mapped T)
    (hstep : Step T e T') : Mapped T' := by
  have hspawned : ∀ (U : Table σ) p esp ebp, Mapped ((U.spawn p esp ebp).enter p) := by
    intro U p esp ebp _
    have hhead : ((U.spawn p esp ebp).enter p).head = p := spawn_head U p esp ebp
    rw [hhead]
    exact spawn_pde U p esp ebp
  cases hstep with
  | fail => exact h
  | exec => exact hspawned _ _ _ _
  | exit => exact fun _ => rfl
  | restart => exact hspawned _ _ _ _
  | lost stk status esp ebp hhead hbase =>
      intro hrun
      rw [leave_head, hbase] at hrun
      exact absurd rfl hrun
  | resume t stk esp ebp espExe ebpExe hbusy => exact fun _ => rfl
  | start => exact hspawned _ _ _ _
  | stuck t stk esp ebp espExe ebpExe hidle =>
      intro hrun
      have hhead : ((T.save esp ebp).visit t).head = -1 := by
        show (T.save esp ebp).running t = -1
        rw [save_running, hidle]
      exact absurd hhead hrun

theorem table_rtcIrq (k : Kernel σ) : table (rtcIrq k) = table k := by
  refine foldl_keeps table _ (fun k i => ?_) _ k
  have hkeep : ∀ {α : Type} (proj : Pcb σ → α), (∀ p trigger counter,
      proj { p with rtcTrigger := trigger, rtcCounter := counter } = proj p) →
      proj (rtcTick (k.pcb i)) = proj (k.pcb i) := by
    intro α proj hproj
    unfold rtcTick
    split
    · rfl
    · split
      · exact hproj ..
      · exact hproj ..
  exact table_modifyPcb_frame k i rtcTick (hkeep Pcb.pid fun _ _ _ => rfl)
    (hkeep Pcb.parPid fun _ _ _ => rfl) (hkeep Pcb.savedEsp fun _ _ _ => rfl)
    (hkeep Pcb.savedEbp fun _ _ _ => rfl) (hkeep Pcb.esp0 fun _ _ _ => rfl)

/-- A process table that a run leads to. -/
structure Sound (k : Kernel σ) : Prop where
  forest : ∃ chain, Forest (table k) chain
  mapped : Mapped (table k)

theorem Sound.congr {k k' : Kernel σ} (h : Sound k) (htable : table k' = table k) :
    Sound k' :=
  { forest := htable ▸ h.forest, mapped := htable ▸ h.mapped }

theorem Sound.procStep {fs : FileSys} {k k' : Kernel σ} {e : ProcEvent σ} (h : Sound k)
    (hstep : ProcStep fs k e k') : Sound k' := by
  obtain ⟨chain, hforest⟩ := h.forest
  have htable := procStep_table hstep
  exact { forest := hforest.step htable, mapped := h.mapped.step htable }

theorem Entry.sound {fs : FileSys} {k k' : Kernel σ} {e : KernelEvent σ}
    (hentry : Entry fs k e k') (h : Sound k) : Sound k' := by
  cases hentry with
  | call _ _ hown => exact h.congr hown.local_.keeps
  | execute _ _ _ _ hstep => exact h.procStep hstep
  | halt _ _ _ _ hstep => exact h.procStep hstep
  | key _ hsteady => exact h.congr hsteady.table
  | rtc => exact h.congr (table_rtcIrq k)
  | pit _ _ _ _ _ hstep => exact (h.congr (table_vidMem k _)).procStep hstep

theorem sound_initialised {k : Kernel σ} (h0 : Initialised k) : Sound k :=
  { forest := ⟨_, forest_initialised h0⟩
    mapped := fun hhead => absurd (h0.running _) hhead }

theorem sound_reachable {fs : FileSys} {k0 k : Kernel σ} {es : List (KernelEvent σ)}
    (h0 : Initialised k0) (hrun : Run (KernelStep fs) k0 es k) : Sound k :=
  hrun.invariant Sound (sound_initialised h0) fun _ _ _ h hstep =>
    (kernelStep_entry hstep).sound h

end MongOS.Proofs.KernelSteps
