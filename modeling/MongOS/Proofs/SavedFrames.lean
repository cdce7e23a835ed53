import MongOS.Proofs.ProcForest

/-!
# `halt` returns to the right `execute`

The fields `saved_esp` and `saved_ebp` of a control block serve two purposes:
`execute` stores the frame of a parent there, and `process_switch` the context
of a process it preempts.  They do not collide, because a parent is never on
top of its stack while its child lives, and both functions only write to the
block of the process on top.

`SpawnedBy` says of a run which call of `execute` created a process; the frame
this call stored is in the parent's block as long as the child lives
(`frame_kept`), and `halt` loads it (`halt_returns_to_execute`).
-/

namespace MongOS.Proofs.SavedFrames

open MongOS.Model
open MongOS.Verified
open MongOS.Proofs.ProcTable
open MongOS.Proofs.ProcForest

variable {σ : Type}

/-- The process on pid `c` has been alive, with parent `p`. -/
def AliveUnder (c p : Int) (k : Kernel σ) : Prop :=
  k.pidSt (c - 1) = 1 ∧ (k.pcb c).parPid = p

/-- In the run `es` from `k0` to `k`, process `c` was created on terminal `t`
by a call of `execute` of process `p` whose stack pointers were `esp` and
`ebp`, on a pid free until then, and it has been alive since. -/
def SpawnedBy (fs : FileSys) (k0 : Kernel σ) (es : List (ProcEvent σ))
    (k : Kernel σ) (t : Tid) (c p : Int) (esp ebp : σ) : Prop :=
  ∃ before after stk command k₁ k₂,
    es = before ++ .execute stk command esp ebp :: after ∧
    Run (ProcStep fs) k0 before k₁ ∧
    k₁.con.currentTid = t ∧ k₁.running = p ∧ k₁.pidSt (c - 1) = 0 ∧
    ProcStep fs k₁ (.execute stk command esp ebp) k₂ ∧
    k₂.runningPid t = c ∧ AliveUnder c p k₂ ∧
    Run (Within (AliveUnder c p) (ProcStep fs)) k₂ after k

/-- `SpawnedBy` is kept by every step that leaves the process alive. -/
theorem SpawnedBy.snoc {fs : FileSys} {k0 k k' : Kernel σ}
    {es : List (ProcEvent σ)} {e : ProcEvent σ} {t : Tid} {c p : Int}
    {esp ebp : σ} (h : SpawnedBy fs k0 es k t c p esp ebp)
    (hstep : ProcStep fs k e k') (halive : AliveUnder c p k') :
    SpawnedBy fs k0 (es ++ [e]) k' t c p esp ebp := by
  obtain ⟨before, after, stk, command, k₁, k₂, rfl, hbefore, hcur, hhead, hfree,
    hexec, hrun, halive₂, hafter⟩ := h
  refine ⟨before, after ++ [e], stk, command, k₁, k₂, ?_, hbefore, hcur, hhead,
    hfree, hexec, hrun, halive₂, hafter.snoc ⟨hstep, halive⟩⟩
  rw [List.append_assoc, List.cons_append]

/-! ## One step -/

/-- A base shell started on an idle terminal takes over nothing. -/
theorem spawn_idle {T : Table σ} {chain : Tid → List Int}
    (hF : Forest T chain) (hidle : T.head = -1) {i : Nat} {esp ebp : σ}
    {t : Tid} {c : Int}
    (hc : c ∈ Function.update chain T.cur (((i : Int) + 1) :: chain T.cur) t)
    (hpar : (T.spawn ((i : Int) + 1) esp ebp).parent c ≠ -1) :
    c ∈ chain t ∧
      (T.spawn ((i : Int) + 1) esp ebp).parent c = T.parent c ∧
      (T.spawn ((i : Int) + 1) esp ebp).savedEsp (T.parent c) =
        T.savedEsp (T.parent c) ∧
      (T.spawn ((i : Int) + 1) esp ebp).savedEbp (T.parent c) =
        T.savedEbp (T.parent c) := by
  rw [spawn_parent] at hpar ⊢
  have hnew : c ≠ (i : Int) + 1 := by
    rintro rfl
    rw [Function.update_self] at hpar
    exact hpar hidle
  rw [Function.update_of_ne hnew] at hpar ⊢
  have hold : c ∈ chain t := (mem_push.1 hc).resolve_left fun h => hnew h.1
  obtain ⟨hesp, hebp⟩ := spawn_saved_of_ne T ((i : Int) + 1) esp ebp
    (hF.parent_ne_head hold hpar)
  exact ⟨hold, rfl, hesp, hebp⟩

/-- What a step does to a process that has a parent when the step ends: it was
there before, under the same parent and with the same frame in the parent's
block, or the step is the `execute` that created it. -/
theorem step_births {T T' : Table σ} {chain chain' : Tid → List Int}
    {e : ProcEvent σ} (hF : Forest T chain) (hF' : Forest T' chain')
    (hstep : Step T e T') {t : Tid} {c : Int} (hc : c ∈ chain' t)
    (hpar : T'.parent c ≠ -1) :
    (c ∈ chain t ∧ T'.parent c = T.parent c ∧
      T'.savedEsp (T.parent c) = T.savedEsp (T.parent c) ∧
      T'.savedEbp (T.parent c) = T.savedEbp (T.parent c)) ∨
    ∃ stk command esp ebp, e = .execute stk command esp ebp ∧ T.cur = t ∧
      T.head = T'.parent c ∧ T.used (c - 1) = 0 ∧ T'.running t = c ∧
      T'.savedEsp T.head = esp ∧ T'.savedEbp T.head = ebp := by
  cases hstep with
  | fail => exact .inl ⟨hF.chain_unique hF' ▸ hc, rfl, rfl, rfl⟩
  | exec stk command esp ebp i hhead hfree =>
      obtain rfl := ((hF.spawn hfree esp ebp).enter _).chain_unique hF'
      have hclear : T.used ((i : Int) + 1 - 1) = 0 := by
        rw [show (i : Int) + 1 - 1 = i by omega]
        exact (lowestFree_some hfree).2
      rcases mem_push.1 hc with ⟨rfl, rfl⟩ | hold
      · right
        obtain ⟨hesp, hebp⟩ := spawn_saved_self T ((i : Int) + 1) esp ebp hhead
        refine ⟨stk, command, esp, ebp, rfl, rfl, ?_, hclear, ?_, hesp, hebp⟩
        · show T.head = (T.spawn _ esp ebp).parent _
          rw [spawn_parent, Function.update_self]
        · show (T.spawn _ esp ebp).running _ = _
          rw [spawn_running, Function.update_self]
      · left
        have hnew : c ≠ (i : Int) + 1 := by
          rintro rfl
          exact hF.free_notMem hclear t hold
        have hsame : (T.spawn ((i : Int) + 1) esp ebp).parent c = T.parent c := by
          rw [spawn_parent, Function.update_of_ne hnew]
        have hne := hF.parent_ne_head hold (hsame ▸ hpar)
        obtain ⟨hesp, hebp⟩ := spawn_saved_of_ne T ((i : Int) + 1) esp ebp hne
        exact ⟨hold, hsame, hesp, hebp⟩
  | exit stk status esp ebp hhead hchild =>
      obtain ⟨rest, hchain⟩ := hF.chain_cons hhead
      obtain rfl := ((hF.leave hchain).reload).chain_unique hF'
      exact .inl ⟨mem_pop hchain hc, rfl, rfl, rfl⟩
  | restart stk status esp ebp i hhead hbase hfree =>
      obtain ⟨rest, hchain⟩ := hF.chain_cons hhead
      have hleave := hF.leave hchain
      obtain rfl := ((hleave.spawn hfree esp ebp).enter _).chain_unique hF'
      have hidle : T.leave.head = -1 := by rw [leave_head, hbase]
      obtain ⟨hmem, hkept⟩ := spawn_idle hleave hidle hc hpar
      exact .inl ⟨mem_pop hchain hmem, hkept⟩
  | lost stk status esp ebp hhead hbase =>
      obtain ⟨rest, hchain⟩ := hF.chain_cons hhead
      obtain rfl := (hF.leave hchain).chain_unique hF'
      exact .inl ⟨mem_pop hchain hc, rfl, rfl, rfl⟩
  | resume u stk esp ebp espExe ebpExe hbusy =>
      obtain rfl := ((hF.save esp ebp).resume u).chain_unique hF'
      have hsame : (T.save esp ebp).parent c = T.parent c := by rw [save_parent]
      have hne := hF.parent_ne_head hc (hsame ▸ hpar)
      obtain ⟨hesp, hebp⟩ := save_saved_of_ne T esp ebp hne
      exact .inl ⟨hc, hsame, hesp, hebp⟩
  | start u stk esp ebp espExe ebpExe i hidle hfree =>
      have hvisit := (hF.save esp ebp).visit u
      rw [← lowestFree_save_visit T esp ebp u] at hfree
      obtain rfl := ((hvisit.spawn hfree espExe ebpExe).enter _).chain_unique hF'
      have hhead : ((T.save esp ebp).visit u).head = -1 := by
        show (T.save esp ebp).running u = -1
        rw [save_running, hidle]
      obtain ⟨hmem, hpar', hesp', hebp'⟩ := spawn_idle hvisit hhead hc hpar
      have hsame : (T.save esp ebp).parent c = T.parent c := by rw [save_parent]
      have hne := hF.parent_ne_head hmem (hsame ▸ hpar' ▸ hpar)
      obtain ⟨hesp, hebp⟩ := save_saved_of_ne T esp ebp hne
      exact .inl ⟨hmem, hpar'.trans hsame, (hsame ▸ hesp').trans hesp,
        (hsame ▸ hebp').trans hebp⟩
  | stuck u stk esp ebp espExe ebpExe hidle =>
      obtain rfl := ((hF.save esp ebp).visit u).chain_unique hF'
      have hsame : (T.save esp ebp).parent c = T.parent c := by rw [save_parent]
      have hne := hF.parent_ne_head hc (hsame ▸ hpar)
      obtain ⟨hesp, hebp⟩ := save_saved_of_ne T esp ebp hne
      exact .inl ⟨hc, hsame, hesp, hebp⟩

/-! ## Runs -/

/-- In every reachable state the block of a waiting parent holds the stack
pointers of the `execute` call that created its child. -/
theorem frame_kept {fs : FileSys} {k0 k : Kernel σ} {es : List (ProcEvent σ)}
    (h0 : Initialised k0) (hrun : Run (ProcStep fs) k0 es k)
    {chain : Tid → List Int} (hF : Forest (table k) chain) {t : Tid} {c : Int}
    (hc : c ∈ chain t) (hpar : (k.pcb c).parPid ≠ -1) :
    SpawnedBy fs k0 es k t c (k.pcb c).parPid (k.pcb (k.pcb c).parPid).savedEsp
      (k.pcb (k.pcb c).parPid).savedEbp := by
  induction hrun generalizing chain t c with
  | nil =>
      obtain rfl := (forest_initialised h0).chain_unique hF
      simp at hc
  | @snoc es k k' e hrun hstep ih =>
      obtain ⟨chain₀, hF₀⟩ := forest_reachable h0 hrun
      have halive : AliveUnder c (k'.pcb c).parPid k' := ⟨hF.used_of_mem hc, rfl⟩
      rcases step_births hF₀ hF (procStep_table hstep) hc hpar with
        ⟨hold, hsame, hesp, hebp⟩ |
        ⟨stk, command, esp, ebp, rfl, rfl, hhead, hclear, hnew, hesp, hebp⟩
      · have hsame : (k'.pcb c).parPid = (k.pcb c).parPid := hsame
        have hesp : (k'.pcb (k.pcb c).parPid).savedEsp =
            (k.pcb (k.pcb c).parPid).savedEsp := hesp
        have hebp : (k'.pcb (k.pcb c).parPid).savedEbp =
            (k.pcb (k.pcb c).parPid).savedEbp := hebp
        have hbefore := ih hF₀ hold (hsame ▸ hpar)
        rw [hsame] at halive ⊢
        rw [hesp, hebp]
        exact hbefore.snoc hstep halive
      · have hhead : k.running = (k'.pcb c).parPid := hhead
        have hesp : (k'.pcb k.running).savedEsp = esp := hesp
        have hebp : (k'.pcb k.running).savedEbp = ebp := hebp
        rw [← hhead, hesp, hebp]
        exact ⟨es, [], stk, command, k, k', rfl, hrun, rfl, rfl, hclear, hstep,
          hnew, hhead ▸ halive, .nil⟩

/-- When a process with a parent halts, `halt_asm` loads the stack pointers of
the parent's own `execute` call that created it, and the parent is the running
process of the terminal again. -/
theorem halt_returns_to_execute {fs : FileSys} {k0 k : Kernel σ}
    {es : List (ProcEvent σ)} (h0 : Initialised k0)
    (hrun : Run (ProcStep fs) k0 es k) (hhead : k.running ≠ -1)
    (hpar : (k.pcb k.running).parPid ≠ -1) :
    ∃ esp ebp,
      SpawnedBy fs k0 es k k.con.currentTid k.running (k.pcb k.running).parPid
        esp ebp ∧
      ∀ stk status espExe ebpExe r, halt fs stk k status espExe ebpExe = r →
        (∃ value, r.2 = .resume esp ebp value) ∧
          r.1.con.currentTid = k.con.currentTid ∧
          r.1.running = (k.pcb k.running).parPid := by
  obtain ⟨chain, hF⟩ := forest_reachable h0 hrun
  have hc : k.running ∈ chain k.con.currentTid := hF.running_mem hhead
  refine ⟨_, _, frame_kept h0 hrun hF hc hpar, fun stk status espExe ebpExe r hr => ?_⟩
  obtain ⟨htable, hres⟩ := halt_child fs k stk status espExe ebpExe hpar
  rw [hr] at htable hres
  refine ⟨⟨_, hres⟩, congrArg Table.cur htable, ?_⟩
  calc r.1.running
      = (table k).leave.reload.head := congrArg Table.head htable
    _ = (k.pcb k.running).parPid := leave_head (table k)

/-- The second shell of `shellRun` was preempted and resumed before it halts;
it returns to the call with the stack pointers 20 and 21. -/
theorem shellRun_returns :
    SampleImage.shellRunEnd.running = 2 ∧
      ∃ esp ebp,
        SpawnedBy SampleImage.shellImage (SampleImage.idleKernel 0)
          SampleImage.shellRun SampleImage.shellRunEnd
          SampleImage.shellRunEnd.con.currentTid
          SampleImage.shellRunEnd.running
          (SampleImage.shellRunEnd.pcb SampleImage.shellRunEnd.running).parPid
          esp ebp ∧
        ∀ stk status espExe ebpExe r,
          halt SampleImage.shellImage stk SampleImage.shellRunEnd status espExe
            ebpExe = r →
          (∃ value, r.2 = .resume esp ebp value) ∧
            r.1.con.currentTid = SampleImage.shellRunEnd.con.currentTid ∧
            r.1.running = (SampleImage.shellRunEnd.pcb
              SampleImage.shellRunEnd.running).parPid :=
  ⟨by decide, halt_returns_to_execute (SampleImage.initialised_idleKernel 0)
    SampleImage.shellRun_run (by decide) (by decide)⟩

end MongOS.Proofs.SavedFrames
