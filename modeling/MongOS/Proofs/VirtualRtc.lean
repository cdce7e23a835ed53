import Mathlib.Tactic.IntervalCases
import MongOS.Proofs.ProcForest
import MongOS.Proofs.ProcSteps
import MongOS.Proofs.DescriptorTable

/-!
# The virtual RTC and the descriptors that are open on it

A control block holds one RTC state for all descriptors of its process.  The
state is armed while `rtc_maxcount` is not zero: only then `RTC_irq` counts for
the process.  `rtc_open` arms it, `rtc_close` disarms it, and `rtc_write`
changes the rate; `execute` takes over what the last process left in the block.

* `Owned` — the RTC state of a process is armed exactly while it has an open
  RTC descriptor.
* `close_effect`, `closeAll_disarms` — one `close`, and the clean-up of `halt`.
* `rtc_armed_while_open` — the invariant in every run in which no `close`
  disarms the RTC under another open descriptor.
-/

namespace MongOS.Proofs.VirtualRtc

open MongOS.Model
open MongOS.Verified
open MongOS.Proofs.ProcTable
open MongOS.Proofs.ProcForest
open MongOS.Proofs.ScreenFrame
open MongOS.Proofs.DescriptorCalls
open MongOS.Proofs.ProcSteps
open MongOS.Proofs.DescriptorTable

variable {σ : Type}

/-! ## The RTC state of a process -/

/-- Descriptor `fd` of a process is an open RTC descriptor. -/
structure RtcOpen (p : Pcb σ) (fd : Int) : Prop where
  lo : 2 ≤ fd
  hi : fd < 8
  used : (p.farray fd).flags ≠ FREE
  rtc : (p.farray fd).fotp = some .rtc

/-- The RTC state of a process is armed exactly while it has an open RTC
descriptor. -/
def Owned (p : Pcb σ) : Prop := p.rtcMaxcount ≠ 0 ↔ ∃ fd, RtcOpen p fd

/-- The RTC is not on the first two descriptors. -/
def StdKept (p : Pcb σ) : Prop :=
  ∀ fd, fd = 0 ∨ fd = 1 → (p.farray fd).fotp = some .terminal

/-- What holds of every process. -/
structure ProcOk (p : Pcb σ) : Prop where
  std : StdKept p
  owned : Owned p

theorem RtcOpen.congr {p p' : Pcb σ} (hslots : ∀ i, p'.farray i = p.farray i)
    {fd : Int} (h : RtcOpen p fd) : RtcOpen p' fd :=
  { lo := h.lo, hi := h.hi
    used := by rw [hslots]; exact h.used
    rtc := by rw [hslots]; exact h.rtc }

theorem ProcOk.congr {p p' : Pcb σ} (h : ProcOk p)
    (hmax : p'.rtcMaxcount = p.rtcMaxcount) (hslots : p'.farray = p.farray) :
    ProcOk p' := by
  have hto := fun i => congrFun hslots i
  refine { std := fun fd hfd => ?_, owned := ?_ }
  · rw [hslots]
    exact h.std fd hfd
  · have howned : p.rtcMaxcount ≠ 0 ↔ ∃ fd, RtcOpen p fd := h.owned
    rw [Owned, hmax, howned]
    constructor
    · rintro ⟨fd, hfd⟩
      exact ⟨fd, hfd.congr hto⟩
    · rintro ⟨fd, hfd⟩
      exact ⟨fd, hfd.congr fun i => (hto i).symm⟩

/-! ## Calls of the running process -/

/-- A call of the running process that changes only its own control block, and
there no process data. -/
structure LocalCall (k k' : Kernel σ) : Prop where
  keeps : table k' = table k
  others : ∀ p, p ≠ k.running → k'.pcb p = k.pcb p

theorem LocalCall.refl (k : Kernel σ) : LocalCall k k :=
  { keeps := rfl, others := fun _ _ => rfl }

theorem LocalCall.running {k k' : Kernel σ} (h : LocalCall k k') :
    k'.running = k.running := congrArg Table.head h.keeps

theorem LocalCall.pidSt {k k' : Kernel σ} (h : LocalCall k k') :
    k'.pidSt = k.pidSt := congrArg Table.used h.keeps

theorem LocalCall.trans {k k' k'' : Kernel σ} (h : LocalCall k k')
    (h' : LocalCall k' k'') : LocalCall k k'' :=
  { keeps := h'.keeps.trans h.keeps
    others := fun p hp =>
      (h'.others p (h.running.symm ▸ hp)).trans (h.others p hp) }

theorem LocalCall.modifyCur (k : Kernel σ) (f : Pcb σ → Pcb σ)
    (hf : ∀ p, (f p).pid = p.pid ∧ (f p).parPid = p.parPid ∧
      (f p).savedEsp = p.savedEsp ∧ (f p).savedEbp = p.savedEbp ∧
      (f p).esp0 = p.esp0) : LocalCall k (k.modifyCur f) := by
  obtain ⟨hpid, hpar, hesp, hebp, hesp0⟩ := hf k.curPcb
  exact
    { keeps := table_modifyPcb_frame k _ f hpid hpar hesp hebp hesp0
      others := fun _ hp => Function.update_of_ne hp _ _ }

theorem LocalCall.modifySlot (k : Kernel σ) (fd : Int) (f : FArray → FArray) :
    LocalCall k (k.modifySlot fd f) :=
  .modifyCur k _ fun _ => ⟨rfl, rfl, rfl, rfl, rfl⟩

theorem LocalCall.openOp (fs : FileSys) (k : Kernel σ) (name : CStr)
    (ops : Ops) : LocalCall k (openOp fs k name ops).1 := by
  cases ops with
  | rtc =>
      simp only [Model.openOp, rtcOpen]
      apply LocalCall.modifyCur
      exact fun _ => ⟨rfl, rfl, rfl, rfl, rfl⟩
  | terminal => exact .refl k
  | file => exact .refl k
  | dir => exact .refl k

theorem LocalCall.closeOp (fs : FileSys) (k : Kernel σ) (ops : Ops) :
    LocalCall k (closeOp fs k ops).1 := by
  cases ops with
  | rtc =>
      simp only [Model.closeOp, rtcClose]
      apply LocalCall.modifyCur
      exact fun _ => ⟨rfl, rfl, rfl, rfl, rfl⟩
  | terminal => exact .refl k
  | file => exact .refl k
  | dir => exact .refl k

theorem LocalCall.writeOp (k : Kernel σ) (buf : Nat → Byte) (nbytes : Int)
    (ops : Ops) : LocalCall k (writeOp k buf nbytes ops).1 := by
  cases ops with
  | terminal =>
      have hinput := input_writeTerminal k.con buf nbytes
      exact
        { keeps := table_setCon k (congrArg Input.running hinput)
            (congrArg Input.cur hinput)
          others := fun _ _ => rfl }
  | rtc =>
      simp only [Model.writeOp, rtcWrite]
      split
      · exact .refl k
      · dsimp only
        apply LocalCall.modifyCur
        exact fun _ => ⟨rfl, rfl, rfl, rfl, rfl⟩
  | file => exact .refl k
  | dir => exact .refl k

theorem LocalCall.open (fs : FileSys) (k : Kernel σ) (name : CStr) :
    LocalCall k («open» fs k name).1 := by
  rcases open_splits fs k name with hrefused | ⟨d, fd, hname, hfound, hfd⟩
  · rw [hrefused]
    exact .refl k
  · rw [open_eq hname hfound hfd]
    exact (LocalCall.modifySlot k fd _).trans (.openOp fs _ name _)

theorem LocalCall.close (fs : FileSys) (k : Kernel σ) (fd : Int) :
    LocalCall k (close fs k fd).1 := by
  rcases close_splits fs k fd with hclose | ⟨ops, hclose⟩
  · rw [hclose]
    exact .refl k
  · have hop := LocalCall.closeOp fs k ops
    rw [hclose]
    split
    · dsimp only
      exact hop.trans (.modifySlot _ _ _)
    · exact hop

theorem LocalCall.write (k : Kernel σ) (fd : Int) (buf : Option (Nat → Byte))
    (nbytes : Int) : LocalCall k (write k fd buf nbytes).1 := by
  rcases write_splits k fd buf nbytes with
    hwrite | ⟨ops, b, -, -, -, -, hwrite⟩
  · rw [hwrite]
    exact .refl k
  · rw [hwrite]
    exact .writeOp k b nbytes ops

/-! ## What a call does to the RTC state -/

theorem maxcount_modifySlot (k : Kernel σ) (fd : Int) (f : FArray → FArray) :
    (k.modifySlot fd f).curPcb.rtcMaxcount = k.curPcb.rtcMaxcount := by
  rw [Kernel.modifySlot, curPcb_modifyCur]

theorem maxcount_openOp (fs : FileSys) (k : Kernel σ) (name : CStr) (ops : Ops) :
    (openOp fs k name ops).1.curPcb.rtcMaxcount =
      if ops = .rtc then MAX_FREQ / MIN_FREQ else k.curPcb.rtcMaxcount := by
  cases ops with
  | rtc => simp [openOp, rtcOpen, curPcb_modifyCur]
  | terminal => rfl
  | file => rfl
  | dir => rfl

theorem maxcount_closeOp (fs : FileSys) (k : Kernel σ) (ops : Ops) :
    (closeOp fs k ops).1.curPcb.rtcMaxcount =
      if ops = .rtc then 0 else k.curPcb.rtcMaxcount := by
  cases ops with
  | rtc => simp [closeOp, rtcClose, curPcb_modifyCur]
  | terminal => rfl
  | file => rfl
  | dir => rfl

/-- A write to one slot does not show in the others. -/
theorem rtcOpen_of_ne {p p' : Pcb σ} {fd i : Int} {slot : FArray}
    (hslots : ∀ i, p'.farray i = if i = fd then slot else p.farray i)
    (hi : i ≠ fd) : RtcOpen p' i ↔ RtcOpen p i := by
  have hsame : p'.farray i = p.farray i := by rw [hslots, if_neg hi]
  constructor
  · rintro ⟨hlo, hhi, hused, hrtc⟩
    exact ⟨hlo, hhi, hsame ▸ hused, hsame ▸ hrtc⟩
  · rintro ⟨hlo, hhi, hused, hrtc⟩
    exact ⟨hlo, hhi, hsame.symm ▸ hused, hsame.symm ▸ hrtc⟩

/-- A write to a slot that is no open RTC descriptor, before and after. -/
theorem rtcOpen_update {p p' : Pcb σ} {fd : Int} {slot : FArray}
    (hslots : ∀ i, p'.farray i = if i = fd then slot else p.farray i)
    (hbefore : ¬ RtcOpen p fd) (hafter : slot.flags = FREE ∨ slot.fotp ≠ some .rtc)
    (i : Int) : RtcOpen p' i ↔ RtcOpen p i := by
  by_cases hi : i = fd
  · subst hi
    refine iff_of_false (fun hopen => ?_) hbefore
    have hslot : p'.farray i = slot := by rw [hslots, if_pos rfl]
    rcases hafter with hfree | hops
    · exact hopen.used (hslot.symm ▸ hfree)
    · exact hops (hslot ▸ hopen.rtc)
  · exact rtcOpen_of_ne hslots hi

/-- `open` keeps the RTC state and the descriptors in step. -/
theorem procOk_open {fs : FileSys} {k : Kernel σ} (h : ProcOk k.curPcb)
    (name : CStr) : ProcOk («open» fs k name).1.curPcb := by
  rcases open_splits fs k name with hrefused | ⟨d, fd, hname, hfound, hfd⟩
  · rw [hrefused]
    exact h
  obtain ⟨hlo, hhi, hfree⟩ := hfd.free
  have hslots : ∀ i, («open» fs k name).1.curPcb.farray i =
      if i = fd then openedSlot d else k.curPcb.farray i :=
    (open_takes hname hfound hfd).2
  have hmax : («open» fs k name).1.curPcb.rtcMaxcount =
      if opsOfType d.type = .rtc then MAX_FREQ / MIN_FREQ
      else k.curPcb.rtcMaxcount := by
    rw [open_eq hname hfound hfd, maxcount_openOp, maxcount_modifySlot]
  refine { std := fun i hi => ?_, owned := ?_ }
  · rw [hslots, if_neg (by omega)]
    exact h.std i hi
  · unfold Owned
    rw [hmax]
    by_cases hrtc : opsOfType d.type = .rtc
    · rw [if_pos hrtc]
      refine iff_of_true (by decide) ⟨fd, ?_⟩
      have hslot := (hslots fd).trans (if_pos rfl)
      exact
        { lo := hlo, hi := hhi
          used := by rw [hslot]; exact (by decide : OPEN ≠ FREE)
          rtc := by rw [hslot]; exact congrArg some hrtc }
    · rw [if_neg hrtc]
      have hbefore : ¬ RtcOpen k.curPcb fd := fun hopen => hopen.used hfree
      have hops : (openedSlot d).fotp ≠ some .rtc :=
        fun hsome => hrtc (Option.some.inj hsome)
      simp only [rtcOpen_update hslots hbefore (.inr hops)]
      exact h.owned

/-- `close` disarms the RTC when the slot it acts on is an open RTC descriptor,
and changes no RTC data otherwise. -/
theorem close_effect (fs : FileSys) (k : Kernel σ) (fd : Int) :
    (RtcOpen k.curPcb (targetFd k.curPcb.name fd) ∧
      (close fs k fd).1.curPcb.rtcMaxcount = 0 ∧
      ∀ i, (close fs k fd).1.curPcb.farray i =
        if i = targetFd k.curPcb.name fd then clearedSlot
        else k.curPcb.farray i) ∨
    (¬ RtcOpen k.curPcb (targetFd k.curPcb.name fd) ∧
      (close fs k fd).1.curPcb.rtcMaxcount = k.curPcb.rtcMaxcount ∧
      ∀ i, RtcOpen (close fs k fd).1.curPcb i ↔ RtcOpen k.curPcb i) := by
  have hcall := closesSlot fs k fd
  generalize targetFd k.curPcb.name fd = t at hcall ⊢
  by_cases hbad : t < 2 ∨ 8 ≤ t ∨ (slotOf k t).flags = FREE
  · right
    rw [hcall.refused hbad]
    refine ⟨?_, rfl, fun _ => Iff.rfl⟩
    rintro ⟨hlo, hhi, hused, -⟩
    rcases hbad with hbad | hbad | hbad
    · omega
    · omega
    · exact hused hbad
  simp only [not_or] at hbad
  obtain ⟨hlo, hhi, hused⟩ := hbad
  cases hops : (slotOf k t).fotp with
  | none =>
      right
      rw [hcall.null hops]
      refine ⟨fun hopen => ?_, rfl, fun _ => Iff.rfl⟩
      have hrtc : (slotOf k t).fotp = some .rtc := hopen.rtc
      rw [hops] at hrtc
      cases hrtc
  | some ops =>
      have hkeep : ∀ i, slotOf (closeOp fs k ops).1 i = slotOf k i :=
        (closeOp_keeps fs k ops).slot
      have hclear : ∀ i, slotOf
          ((closeOp fs k ops).1.modifySlot t fun _ => clearedSlot) i =
          if i = t then clearedSlot else slotOf k i := by
        intro i
        rw [slotOf_modifySlot, hkeep]
      rw [hcall.uses (by omega) (by omega) hused ops hops _ rfl]
      by_cases hrtc : ops = .rtc
      · left
        subst hrtc
        have hresult : (closeOp fs k .rtc).2 = 0 := rfl
        rw [if_pos hresult]
        refine ⟨⟨by omega, by omega, hused, hops⟩, ?_, hclear⟩
        rw [maxcount_modifySlot, maxcount_closeOp, if_pos rfl]
      · right
        have hbefore : ¬ RtcOpen k.curPcb t := by
          intro hopen
          have hsome : (slotOf k t).fotp = some .rtc := hopen.rtc
          rw [hops] at hsome
          exact hrtc (Option.some.inj hsome)
        refine ⟨hbefore, ?_, fun i => ?_⟩
        · split
          · rw [maxcount_modifySlot, maxcount_closeOp, if_neg hrtc]
          · rw [maxcount_closeOp, if_neg hrtc]
        · split
          · exact rtcOpen_update hclear hbefore (.inl rfl) i
          · constructor
            · exact RtcOpen.congr fun i => (hkeep i).symm
            · exact RtcOpen.congr hkeep

/-- A `close` that closes the only open RTC descriptor, or none, keeps the RTC
state and the descriptors in step. -/
theorem procOk_close {fs : FileSys} {k : Kernel σ} (h : ProcOk k.curPcb)
    {fd : Int} (honly : RtcOpen k.curPcb (targetFd k.curPcb.name fd) →
      ∀ i, RtcOpen k.curPcb i → i = targetFd k.curPcb.name fd) :
    ProcOk (close fs k fd).1.curPcb := by
  have hstd : StdKept (close fs k fd).1.curPcb := by
    intro i hi
    have hcall := closesSlot fs k fd
    by_cases htarget : i = targetFd k.curPcb.name fd
    · rw [hcall.refused (.inl (by omega))]
      exact h.std i hi
    · have hsame : (close fs k fd).1.curPcb.farray i =
          k.curPcb.farray i := hcall.others i htarget
      rw [hsame]
      exact h.std i hi
  refine { std := hstd, owned := ?_ }
  unfold Owned
  rcases close_effect fs k fd with ⟨hopen, hmax, hslots⟩ | ⟨-, hmax, hsame⟩
  · rw [hmax]
    refine iff_of_false (fun hne => hne rfl) ?_
    rintro ⟨i, hi⟩
    by_cases htarget : i = targetFd k.curPcb.name fd
    · have hslot := (hslots i).trans (if_pos htarget)
      exact hi.used (hslot ▸ rfl)
    · exact htarget (honly hopen i ((rtcOpen_of_ne hslots htarget).1 hi))
  · rw [hmax]
    simp only [hsame]
    exact h.owned

/-- A write operation on the RTC sets a rate, or leaves the state alone. -/
theorem rtcWrite_maxcount (k : Kernel σ) (buf : Nat → Byte) (nbytes : Int) :
    (rtcWrite k buf nbytes).1.curPcb.rtcMaxcount = k.curPcb.rtcMaxcount ∨
      (rtcWrite k buf nbytes).1.curPcb.rtcMaxcount ≠ 0 := by
  unfold rtcWrite
  by_cases hn : nbytes ≠ 4
  · rw [if_pos hn]
    exact .inl rfl
  · right
    rw [if_neg hn]
    dsimp only
    rw [curPcb_modifyCur]
    dsimp only
    generalize toInt32 _ = freq
    -- the frequency is cut to the range from 2 to 1024
    have hrate : ∀ f : Int, 2 ≤ f → f ≤ 1024 → MAX_FREQ / f ≠ 0 := by
      intro f hlo hhi
      have hone : 1 ≤ MAX_FREQ / f :=
        Int.le_ediv_of_mul_le (by omega) (by unfold MAX_FREQ; omega)
      omega
    apply hrate
    · unfold MIN_FREQ
      split <;> omega
    · unfold MIN_FREQ MAX_FREQ
      split
      · omega
      · split <;> omega

/-- `write` keeps the RTC state and the descriptors in step. -/
theorem procOk_write {k : Kernel σ} (h : ProcOk k.curPcb) (fd : Int)
    (buf : Option (Nat → Byte)) (nbytes : Int) :
    ProcOk (write k fd buf nbytes).1.curPcb := by
  rcases write_splits k fd buf nbytes with
    hwrite | ⟨ops, b, hlo, hhi, hused, hops, hwrite⟩
  · rw [hwrite]
    exact h
  rw [hwrite]
  have hkeep : ∀ i, (writeOp k b nbytes ops).1.curPcb.farray i =
      k.curPcb.farray i := (writeOp_keeps k b nbytes ops).slot
  cases ops with
  | rtc =>
      rcases rtcWrite_maxcount k b nbytes with hsame | hset
      · exact h.congr hsame (funext hkeep)
      · refine { std := fun i hi => ?_, owned := iff_of_true hset ?_ }
        · rw [hkeep]
          exact h.std i hi
        · have hone : fd ≠ 1 := by
            rintro rfl
            have hterminal : (slotOf k 1).fotp = some .terminal :=
              h.std 1 (.inr rfl)
            rw [hops] at hterminal
            cases hterminal
          have hopen : RtcOpen k.curPcb fd :=
            { lo := by omega, hi := hhi, used := hused, rtc := hops }
          exact ⟨fd, hopen.congr hkeep⟩
  | terminal =>
      have hcur : (writeOp k b nbytes .terminal).1.curPcb = k.curPcb := by
        unfold Kernel.curPcb
        rw [(writeOp_keeps k b nbytes .terminal).running]
        rfl
      rw [hcur]
      exact h
  | file => exact h
  | dir => exact h

/-! ## The clean-up of `halt` -/

theorem closeRound_local (fs : FileSys) (pid : Int) (k : Kernel σ) (i : Int) :
    LocalCall k (closeRound fs pid k i) := by
  unfold closeRound
  split
  · exact .refl k
  · exact .close fs k i

theorem closeAll_local (fs : FileSys) (k : Kernel σ) (pid : Int) :
    LocalCall k (closeAll fs k pid) := by
  rw [closeAll_eq]
  generalize ([2, 3, 4, 5, 6, 7] : List Int) = fds
  induction fds generalizing k with
  | nil => exact .refl k
  | cons fd fds ih => exact (closeRound_local fs pid k fd).trans (ih _)

/-- A process dies with its RTC state disarmed, if the state is not armed or
one of its open RTC descriptors is closed under its own number. -/
theorem closeAll_disarms (fs : FileSys) (pid : Int) (fds : List Int) :
    ∀ k : Kernel σ, k.running = pid → (k.curPcb.rtcMaxcount = 0 ∨
      ∃ fd ∈ fds, RtcOpen k.curPcb fd ∧ targetFd k.curPcb.name fd = fd) →
    (fds.foldl (closeRound fs pid) k).curPcb.rtcMaxcount = 0 := by
  induction fds with
  | nil =>
      rintro k - (hzero | ⟨fd, hmem, -⟩)
      · exact hzero
      · cases hmem
  | cons i fds ih =>
      intro k hpid h
      rw [List.foldl_cons]
      apply ih _ ((closeRound_local fs pid k i).running.trans hpid)
      subst hpid
      rw [closeRound]
      by_cases hfree : ((k.pcb k.running).farray i).flags = FREE
      · rw [if_pos hfree]
        rcases h with hzero | ⟨fd, hmem, hopen, hown⟩
        · exact .inl hzero
        · rcases List.mem_cons.1 hmem with rfl | hmem
          · exact absurd hfree hopen.used
          · exact .inr ⟨fd, hmem, hopen, hown⟩
      rw [if_neg hfree]
      have hname := (closesSlot fs k i).name
      rcases close_effect fs k i with ⟨-, hzero, -⟩ | ⟨hclosed, hmax, hsame⟩
      · exact .inl hzero
      · rcases h with hzero | ⟨fd, hmem, hopen, hown⟩
        · exact .inl (hmax.trans hzero)
        · rcases List.mem_cons.1 hmem with rfl | hmem
          · rw [hown] at hclosed
            exact absurd hopen hclosed
          · exact .inr ⟨fd, hmem, (hsame fd).2 hopen, hname.symm ▸ hown⟩

/-! ## All processes -/

/-- The processes that are alive own their RTC state, and the blocks that are
free are disarmed. -/
structure Armed (k : Kernel σ) : Prop where
  live : ∀ p, k.pidSt (p - 1) = 1 → ProcOk (k.pcb p)
  idle : ∀ p, 1 ≤ p → p ≤ MAX_PROCESS → k.pidSt (p - 1) ≠ 1 →
    (k.pcb p).rtcMaxcount = 0

namespace Armed

variable {fs : FileSys} {k k' : Kernel σ}

/-- The invariant depends only on this data. -/
theorem congr (h : Armed k) (hst : k'.pidSt = k.pidSt)
    (hmax : ∀ p, (k'.pcb p).rtcMaxcount = (k.pcb p).rtcMaxcount)
    (hslots : ∀ p, (k'.pcb p).farray = (k.pcb p).farray) : Armed k' := by
  refine { live := fun p hp => ?_, idle := fun p hlo hhi hp => ?_ }
  · rw [hst] at hp
    exact (h.live p hp).congr (hmax p) (hslots p)
  · rw [hst] at hp
    rw [hmax]
    exact h.idle p hlo hhi hp

/-- A call of a process that keeps its own block in order. -/
theorem call (h : Armed k) (hlocal : LocalCall k k')
    (hlive : k.pidSt (k.running - 1) = 1) (hok : ProcOk k'.curPcb) :
    Armed k' := by
  rw [Kernel.curPcb, hlocal.running] at hok
  refine { live := fun p hp => ?_, idle := fun p hlo hhi hp => ?_ }
  · rw [hlocal.pidSt] at hp
    by_cases hcur : p = k.running
    · rw [hcur]
      exact hok
    · rw [hlocal.others p hcur]
      exact h.live p hp
  · rw [hlocal.pidSt] at hp
    have hcur : p ≠ k.running := by
      rintro rfl
      exact hp hlive
    rw [hlocal.others p hcur]
    exact h.idle p hlo hhi hp

/-- A new process has no RTC descriptor, and gets a disarmed block. -/
theorem install (h : Armed k) {c : CStr} {i : Nat} {esp ebp : σ}
    (hnew : Installs k c i esp ebp k') : Armed k' := by
  obtain ⟨hlt, hclear⟩ := lowestFree_some hnew.free
  have hclear : k.pidSt i = 0 := hclear
  have hbit : (i : Int) + 1 - 1 = i := by omega
  have hmax : ∀ p, (k'.pcb p).rtcMaxcount = (k.pcb p).rtcMaxcount := by
    intro p
    rw [hnew.pcb, ExecuteChecks.installed, ExecuteChecks.installProcess_proj
      Pcb.rtcMaxcount (fun _ _ _ => rfl) fun _ _ => rfl,
      (ExecuteChecks.getPid_keeps k).2.1]
    split
    · rename_i hp
      rw [hp]
      rfl
    · rfl
  have hslots : ∀ p, (k'.pcb p).farray = if p = (i : Int) + 1 then
      (initPcb (k.pcb ((i : Int) + 1)) ((i : Int) + 1) (getPid k).1.running
        (handleCommand c.bytes).1 (handleCommand c.bytes).2).farray
      else (k.pcb p).farray := by
    intro p
    rw [hnew.pcb, ExecuteChecks.installed, ExecuteChecks.installProcess_proj
      Pcb.farray (fun _ _ _ => rfl) fun _ _ => rfl,
      (ExecuteChecks.getPid_keeps k).2.1]
  refine { live := fun p hp => ?_, idle := fun p hlo hhi hp => ?_ }
  · by_cases hp' : p = (i : Int) + 1
    · subst hp'
      have hfarray := (hslots _).trans (if_pos rfl)
      refine { std := fun fd hfd => ?_, owned := iff_of_false ?_ ?_ }
      · rw [hfarray]
        exact if_pos (by omega)
      · rw [hmax, not_not]
        refine h.idle _ (by omega) ?_ ?_
        · unfold MAX_PID at hlt
          unfold MAX_PROCESS
          omega
        · rw [hbit, hclear]
          decide
      · rintro ⟨fd, hopen⟩
        have hlo := hopen.lo
        apply hopen.used
        rw [hfarray]
        exact if_neg (by omega)
    · rw [hnew.pidSt, Function.update_of_ne (by omega)] at hp
      exact (h.live p hp).congr (hmax p) ((hslots p).trans (if_neg hp'))
  · rw [hmax]
    by_cases hp' : p = (i : Int) + 1
    · rw [hnew.pidSt, hp', hbit, Function.update_self] at hp
      exact absurd rfl hp
    · rw [hnew.pidSt, Function.update_of_ne (by omega)] at hp
      exact h.idle p hlo hhi hp

theorem execute (h : Armed k) (stk : CStr) (command : Option CStr)
    (esp ebp : σ) :
    Armed (finishExecute (execute fs stk k command esp ebp)) := by
  rcases execute_installs fs stk k command esp ebp with
    ⟨⟨value, hret⟩, -⟩ | ⟨c, i, -, -, -, -, hnew⟩
  · rw [hret, finishExecute_ret]
    exact h
  · exact h.install hnew

/-- A dying process leaves a disarmed block behind. -/
theorem afterClose (h : Armed k) {chain : Tid → List Int}
    (hF : Forest (table k) chain) (hhead : k.running ≠ -1)
    (hgr : NamedGr k → (∃ fd, RtcOpen k.curPcb fd) →
      RtcOpen k.curPcb 2 ∨ RtcOpen k.curPcb 3) :
    Armed (afterClose fs k) := by
  have hmem : k.running ∈ chain k.con.currentTid := hF.running_mem hhead
  have hpid : (k.pcb k.running).pid = k.running := hF.pid _ _ hmem
  have hlive : k.pidSt (k.running - 1) = 1 := hF.used_of_mem hmem
  have hlocal := closeAll_local fs (freePid k k.running) k.running
  have hpidSt : (ProcTable.afterClose fs k).pidSt =
      Function.update k.pidSt (k.running - 1) 0 := by
    rw [ProcTable.afterClose, hpid]
    exact hlocal.pidSt
  have hothers : ∀ p, p ≠ k.running →
      (ProcTable.afterClose fs k).pcb p = k.pcb p := by
    intro p hp
    rw [ProcTable.afterClose, hpid]
    exact hlocal.others p hp
  have hdisarmed : ((ProcTable.afterClose fs k).pcb k.running).rtcMaxcount = 0 := by
    have hclosed := closeAll_disarms fs k.running [2, 3, 4, 5, 6, 7]
      (freePid k k.running) rfl
    have hrunning : (freePid k k.running).running = k.running := rfl
    have hcur : (closeAll fs (freePid k k.running) k.running).curPcb =
        (ProcTable.afterClose fs k).pcb k.running := by
      rw [Kernel.curPcb, hlocal.running, hrunning, ProcTable.afterClose, hpid]
    rw [← hcur]
    apply hclosed
    by_cases hzero : k.curPcb.rtcMaxcount = 0
    · exact .inl hzero
    · obtain ⟨fd, hopen⟩ := (h.live _ hlive).owned.1 hzero
      right
      by_cases hname : NamedGr k
      · rcases hgr hname ⟨fd, hopen⟩ with htwo | hthree
        · exact ⟨2, by simp, htwo, targetFd_of_gr hname 2⟩
        · exact ⟨3, by simp, hthree, targetFd_of_gr hname 3⟩
      · have hlo := hopen.lo
        have hhi := hopen.hi
        exact ⟨fd, mem_slots.2 ⟨hlo, hhi⟩, hopen, targetFd_of_not_gr hname fd⟩
  refine { live := fun p hp => ?_, idle := fun p hlo hhi hp => ?_ }
  · rw [hpidSt] at hp
    have hne : p ≠ k.running := by
      rintro rfl
      rw [Function.update_self] at hp
      exact absurd hp (by decide)
    rw [Function.update_of_ne (by omega)] at hp
    rw [hothers p hne]
    exact h.live p hp
  · by_cases hne : p = k.running
    · rw [hne]
      exact hdisarmed
    · rw [hpidSt, Function.update_of_ne (by omega)] at hp
      rw [hothers p hne]
      exact h.idle p hlo hhi hp

/-- `execute`, `halt` and a switch keep the RTC states in order. -/
theorem proc (h : Armed k) {chain : Tid → List Int}
    (hF : Forest (table k) chain) {e : ProcEvent σ} (hstep : ProcStep fs k e k')
    (hgr : ∀ stk status esp ebp, e = .halt stk status esp ebp → NamedGr k →
      (∃ fd, RtcOpen k.curPcb fd) → RtcOpen k.curPcb 2 ∨ RtcOpen k.curPcb 3) :
    Armed k' := by
  cases e with
  | execute stk command esp ebp =>
      obtain ⟨-, rfl⟩ := step_execute hstep
      exact h.execute stk command esp ebp
  | halt stk status esp ebp =>
      obtain ⟨hhead, hend⟩ := step_halt hstep
      have hclosed : Armed (ProcTable.afterClose fs k) :=
        h.afterClose hF hhead (hgr stk status esp ebp rfl)
      generalize ProcTable.afterClose fs k = m at hclosed hend
      rcases hend with ⟨-, rfl⟩ | ⟨-, rfl⟩
      · have hidle : Armed (m.setRunning (-1)) :=
          hclosed.congr rfl (fun _ => rfl) fun _ => rfl
        exact hidle.execute stk (some shellCmd) esp ebp
      · exact hclosed.congr rfl (fun _ => rfl) fun _ => rfl
  | switch t stk esp ebp espExe ebpExe =>
      have hmax := saveRunning_proj Pcb.rtcMaxcount (fun _ _ _ _ => rfl) k esp ebp
      have hslots := saveRunning_proj Pcb.farray (fun _ _ _ _ => rfl) k esp ebp
      have hpidSt := saveRunning_pidSt k esp ebp
      rcases step_switch hstep with ⟨-, rfl⟩ | ⟨-, rfl⟩
      · have hvisited : Armed (visited k t esp ebp) :=
          h.congr hpidSt hmax hslots
        exact hvisited.execute stk (some shellCmd) espExe ebpExe
      · exact h.congr hpidSt hmax hslots

end Armed

/-! ## Interrupts of the RTC -/

/-- `RTC_irq` counts, and changes neither the rate nor a descriptor. -/
theorem rtcIrq_keeps (k : Kernel σ) :
    table (rtcIrq k) = table k ∧
      (∀ p, ((rtcIrq k).pcb p).rtcMaxcount = (k.pcb p).rtcMaxcount) ∧
      ∀ p, ((rtcIrq k).pcb p).farray = (k.pcb p).farray := by
  unfold rtcIrq
  generalize ([1, 2, 3, 4, 5, 6] : List Int) = pids
  induction pids generalizing k with
  | nil => exact ⟨rfl, fun _ => rfl, fun _ => rfl⟩
  | cons i pids ih =>
      rw [List.foldl_cons]
      obtain ⟨htable, hmax, hslots⟩ := ih (k.modifyPcb i rtcTick)
      have htick : ∀ {α : Type} (proj : Pcb σ → α), (∀ (pcb : Pcb σ) t c,
          proj { pcb with rtcTrigger := t, rtcCounter := c } = proj pcb) →
          ∀ pcb, proj (rtcTick pcb) = proj pcb := by
        intro α proj hproj pcb
        unfold rtcTick
        split
        · rfl
        · split
          · exact hproj pcb 1 0
          · exact hproj pcb pcb.rtcTrigger (pcb.rtcCounter + 1)
      refine ⟨htable.trans ?_, fun p => (hmax p).trans ?_,
        fun p => (hslots p).trans ?_⟩
      · apply table_modifyPcb_frame
        · exact htick Pcb.pid (fun _ _ _ => rfl) _
        · exact htick Pcb.parPid (fun _ _ _ => rfl) _
        · exact htick Pcb.savedEsp (fun _ _ _ => rfl) _
        · exact htick Pcb.savedEbp (fun _ _ _ => rfl) _
        · exact htick Pcb.esp0 (fun _ _ _ => rfl) _
      · exact proj_modifyPcb Pcb.rtcMaxcount k i p rtcTick
          (htick Pcb.rtcMaxcount fun _ _ _ => rfl)
      · exact proj_modifyPcb Pcb.farray k i p rtcTick
          (htick Pcb.farray fun _ _ _ => rfl)

/-! ## Runs -/

/-- A `close` of an open RTC descriptor closes the only one of the process, and
a process whose name begins with `gr` halts with its RTC on a slot that `close`
reaches. -/
def RtcCareful (k : Kernel σ) : RtcEvent σ → Prop
  | .close fd => RtcOpen k.curPcb (targetFd k.curPcb.name fd) →
      ∀ i, RtcOpen k.curPcb i → i = targetFd k.curPcb.name fd
  | .proc (.halt _ _ _ _) => NamedGr k → (∃ fd, RtcOpen k.curPcb fd) →
      RtcOpen k.curPcb 2 ∨ RtcOpen k.curPcb 3
  | _ => True

/-- The invariant of the runs. -/
def RtcInv (k : Kernel σ) : Prop :=
  (∃ chain, Forest (table k) chain) ∧ Armed k

theorem RtcInv.call {k k' : Kernel σ} (h : RtcInv k) (hhead : k.running ≠ -1)
    (hlocal : LocalCall k k') (hok : ProcOk k.curPcb → ProcOk k'.curPcb) :
    RtcInv k' := by
  obtain ⟨⟨chain, hF⟩, harmed⟩ := h
  have hlive : k.pidSt (k.running - 1) = 1 :=
    hF.used_of_mem (hF.running_mem hhead)
  have hcur : ProcOk k.curPcb := harmed.live _ hlive
  exact ⟨⟨chain, hlocal.keeps ▸ hF⟩, harmed.call hlocal hlive (hok hcur)⟩

/-- One step keeps the invariant. -/
theorem RtcInv.step {fs : FileSys} {k k' : Kernel σ} {e : RtcEvent σ}
    (h : RtcInv k) (hcareful : RtcCareful k e) (hstep : RtcStep fs k e k') :
    RtcInv k' := by
  cases e with
  | proc e =>
      obtain ⟨⟨chain, hF⟩, harmed⟩ := h
      refine ⟨hF.step (procStep_table hstep), harmed.proc hF hstep ?_⟩
      intro stk status esp ebp he
      subst he
      exact hcareful
  | «open» name =>
      simp only [RtcStep, rtcStep] at hstep
      split at hstep
      · cases hstep
      · rename_i hhead
        cases hstep
        exact h.call hhead (.open fs k name) fun hok => procOk_open hok name
  | close fd =>
      simp only [RtcStep, rtcStep] at hstep
      split at hstep
      · cases hstep
      · rename_i hhead
        cases hstep
        exact h.call hhead (.close fs k fd) fun hok => procOk_close hok hcareful
  | write fd buf nbytes =>
      simp only [RtcStep, rtcStep] at hstep
      split at hstep
      · cases hstep
      · rename_i hhead
        cases hstep
        exact h.call hhead (.write k fd buf nbytes)
          fun hok => procOk_write hok fd buf nbytes
  | irq =>
      cases hstep
      obtain ⟨⟨chain, hF⟩, harmed⟩ := h
      obtain ⟨htable, hmax, hslots⟩ := rtcIrq_keeps k
      have hpidSt : (rtcIrq k).pidSt = k.pidSt := congrArg Table.used htable
      refine ⟨⟨chain, ?_⟩, harmed.congr hpidSt hmax hslots⟩
      rw [htable]
      exact hF

/-- From control blocks without an RTC rate, in every run in which each step is
careful, the RTC state of a live process is armed if and only if the process
has an open RTC descriptor. -/
theorem rtc_armed_while_open {fs : FileSys} {k0 k : Kernel σ}
    {es : List (RtcEvent σ)} (h0 : Initialised k0)
    (hzero : ∀ p, 1 ≤ p → p ≤ MAX_PROCESS → (k0.pcb p).rtcMaxcount = 0)
    (hrun : Run (Guarded RtcCareful (RtcStep fs)) k0 es k) {p : Int}
    (hlive : k.pidSt (p - 1) = 1) :
    (k.pcb p).rtcMaxcount ≠ 0 ↔ ∃ fd, RtcOpen (k.pcb p) fd := by
  have hstart : RtcInv k0 := by
    refine ⟨⟨_, forest_initialised h0⟩, { live := fun q hq => ?_, idle := ?_ }⟩
    · rw [h0.pidSt] at hq
      exact absurd hq (by decide)
    · exact fun q hlo hhi _ => hzero q hlo hhi
  have hend : RtcInv k := hrun.invariant RtcInv hstart
    fun _ _ _ hinv hstep => hinv.step hstep.1 hstep.2
  exact (hend.2.live p hlive).owned

/-! ## A process with the RTC open -/

/-- The name `rtc`. -/
def rtcName : CStr := { before := 0, bytes := [114, 116, 99] }

/-- The sample image with the RTC as its second entry. -/
def rtcImage : FileSys :=
  { SampleImage.shellImage with
    bootB := some
      { numDirEntries := 2
        numInodes := 1
        numDataBlocks := 1
        dirEntries := fun i =>
          if i = 0 then SampleImage.shellEntry
          else
            { filename := [114, 116, 99] ++ List.replicate 29 0
              type := 0
              indexNode := 0
              reserved := List.replicate 24 0 } } }

/-- Start a base shell on terminal 1, which opens the RTC. -/
def openRtc : List (RtcEvent Nat) :=
  [.proc (.switch 1 ⟨0, []⟩ 10 11 12 13), .open rtcName]

def openRtcEnd : Kernel Nat :=
  (follow (rtcStep rtcImage) (SampleImage.idleKernel 0) openRtc).getD
    (SampleImage.idleKernel 0)

/-- After an interrupt and a `close` of its descriptor the RTC is disarmed. -/
theorem openRtc_disarmed :
    ∃ k, Run (Guarded RtcCareful (RtcStep rtcImage)) (SampleImage.idleKernel 0)
        (openRtc ++ [.irq, .close 2]) k ∧
      ((k.pcb 1).rtcMaxcount ≠ 0 ↔ ∃ fd, RtcOpen (k.pcb 1) fd) := by
  have honly : ∀ i, RtcOpen (rtcIrq openRtcEnd).curPcb i → i = 2 := by
    rintro i ⟨hlo, hhi, hused, -⟩
    interval_cases i
    · rfl
    all_goals exact absurd (by decide +kernel) hused
  have hclose : RtcCareful (rtcIrq openRtcEnd) (.close 2) := by
    intro _ i hi
    rw [honly i hi]
    decide +kernel
  have hrun : Run (Guarded RtcCareful (RtcStep rtcImage))
      (SampleImage.idleKernel 0) ([] ++ [.proc (.switch 1 ⟨0, []⟩ 10 11 12 13)] ++
        [.open rtcName] ++ [.irq] ++ [.close 2])
      (close rtcImage (rtcIrq openRtcEnd) 2).1 :=
    (((Run.nil.snoc ⟨trivial, rfl⟩).snoc ⟨trivial, rfl⟩).snoc
      ⟨trivial, rfl⟩).snoc ⟨hclose, rfl⟩
  exact ⟨_, hrun, rtc_armed_while_open (SampleImage.initialised_idleKernel 0)
    (fun _ _ _ => rfl) hrun (by decide +kernel)⟩

/-- The same process opens the RTC twice and closes one of the descriptors. -/
def twoRtcs : List (RtcEvent Nat) := openRtc ++ [.open rtcName, .close 2]

def twoRtcsEnd : Kernel Nat :=
  (follow (rtcStep rtcImage) (SampleImage.idleKernel 0) twoRtcs).getD
    (SampleImage.idleKernel 0)

/-- Descriptor 3 is still open on an RTC that is disarmed. -/
theorem open_rtc_disarmed :
    Initialised (SampleImage.idleKernel (0 : Nat)) ∧
      Run (RtcStep rtcImage) (SampleImage.idleKernel 0) twoRtcs twoRtcsEnd ∧
      twoRtcsEnd.pidSt (1 - 1) = 1 ∧ RtcOpen (twoRtcsEnd.pcb 1) 3 ∧
      (twoRtcsEnd.pcb 1).rtcMaxcount = 0 ∧
      ¬ ((twoRtcsEnd.pcb 1).rtcMaxcount ≠ 0 ↔
        ∃ fd, RtcOpen (twoRtcsEnd.pcb 1) fd) := by
  have hopen : RtcOpen (twoRtcsEnd.pcb 1) 3 :=
    { lo := by decide, hi := by decide
      used := by decide +kernel, rtc := by decide +kernel }
  have hzero : (twoRtcsEnd.pcb 1).rtcMaxcount = 0 := by decide +kernel
  have hrun : Run (RtcStep rtcImage) (SampleImage.idleKernel 0) twoRtcs
      twoRtcsEnd := follow_run_getD (rtcStep rtcImage) (by decide +kernel)
  exact ⟨SampleImage.initialised_idleKernel 0, hrun, by decide +kernel, hopen,
    hzero, fun hiff => hiff.2 ⟨3, hopen⟩ hzero⟩

end MongOS.Proofs.VirtualRtc
