import MongOS.Proofs.VideoSteps

/-!
# Who may draw on the screen

`vidmap` opens an entry of `page_table_usermapping` on the video memory:
entry `OUR_VID_MAP` while the terminal of the caller is displayed, and another
one otherwise.  `vid_mem` lets entry `OUR_VID_MAP` follow the current terminal
at every PIT interrupt and terminal switch.  The permission itself is kept in
the control block of the process and once more in its terminal.

* `Isolated`, `background_isolated_iff` — a process in the background draws on
  the saved screen of its own terminal, as long as none has called `vidmap`
  there.
* `Permitted`, `permission_follows_process` — the steps under which the
  permissions in the control block, the terminal and the page table agree with
  the calls of `vidmap`, for the process whose code runs.
-/

namespace MongOS.Proofs.VideoMap

open MongOS.Model
open MongOS.Verified
open MongOS.Proofs.ProcTable
open MongOS.Proofs.ProcForest
open MongOS.Proofs.ScreenFrame
open MongOS.Proofs.ProcSteps
open MongOS.Proofs.VideoSteps

variable {σ : Type}

/-! ## Isolation of the background -/

/-- The user's video page shows the current terminal, and no other entry is
present. -/
structure Isolated (V : Video) : Prop where
  saved : ∀ t, V.input.videoCurPos t = VIDEO + (t.val + 1) * PAGE
  entry : (V.entries OUR_VID_MAP).present ≠ 0 →
    (V.entries OUR_VID_MAP).address = (pageOf V.input V.input.cur).address
  others : ∀ e, e ≠ OUR_VID_MAP → (V.entries e).present = 0

namespace Isolated

variable {V V' : Video}

/-- The entries matter, and which terminals are current and displayed. -/
theorem congr (h : Isolated V) (hentries : V'.entries = V.entries)
    (hpos : V'.input.videoCurPos = V.input.videoCurPos)
    (hcur : V'.input.cur = V.input.cur)
    (hdisplay : V'.input.display = V.input.display) : Isolated V' := by
  have hpage : (pageOf V'.input V'.input.cur).address =
      (pageOf V.input V.input.cur).address := by
    rw [pageOf, pageOf, hpos, hcur, hdisplay]
  refine { saved := ?_, entry := ?_, others := ?_ }
  · rw [hpos]
    exact h.saved
  · rw [hentries, hpage]
    exact h.entry
  · rw [hentries]
    exact h.others

/-- `vid_mem` for the terminal that is current when it returns. -/
theorem retarget (h : Isolated V)
    (hpos : V'.input.videoCurPos = V.input.videoCurPos)
    (hentries : V'.entries =
      Function.update V.entries OUR_VID_MAP (pageOf V'.input V'.input.cur)) :
    Isolated V' := by
  refine { saved := ?_, entry := ?_, others := ?_ }
  · rw [hpos]
    exact h.saved
  · rw [hentries, Function.update_self]
    exact fun _ => rfl
  · intro e he
    rw [hentries, Function.update_of_ne he]
    exact h.others e he

/-- `paging_halt` closes an entry and keeps its address. -/
theorem unmap (h : Isolated V) : Isolated V.unmap := by
  refine { saved := h.saved, entry := ?_, others := ?_ }
  · intro hpresent
    by_cases he : OUR_VID_MAP = V.slot
    · simp [Video.unmap, he] at hpresent
    · simp only [Video.unmap, Function.update_of_ne he] at hpresent ⊢
      exact h.entry hpresent
  · intro e hne
    by_cases he : e = V.slot
    · simp [Video.unmap, he]
    · simp only [Video.unmap, Function.update_of_ne he]
      exact h.others e hne

/-- `vidmap` on the displayed terminal maps the video memory. -/
theorem map (h : Isolated V) (hdisplay : V.input.display = V.input.cur) :
    Isolated V.map := by
  have hslot : V.slot = OUR_VID_MAP := if_pos hdisplay
  refine { saved := h.saved, entry := ?_, others := ?_ }
  · intro _
    have hpage : (pageOf V.map.input V.map.input.cur).address =
        VIDEO / PAGE := if_neg (not_not.2 hdisplay.symm)
    rw [hpage, Video.map, hslot]
    simp only [Function.update_self]
    rfl
  · intro e he
    simp only [Video.map, hslot, Function.update_of_ne he]
    exact h.others e he

end Isolated

/-- A `vidmap` that opens an entry is called on the displayed terminal. -/
def MapsDisplayed (k : Kernel σ) : VideoEvent σ → Prop
  | .vidmap screenStart => screenStart / 2 ^ PDE_OFFSET = PDE_INDEX →
      k.con.displayTerminal = k.con.currentTid
  | _ => True

/-- One step keeps the isolation. -/
theorem isolated_step {fs : FileSys} {k k' : Kernel σ} {e : VideoEvent σ}
    (h : Isolated (video k)) (hmaps : MapsDisplayed k e)
    (hstep : VideoStep fs k e k') : Isolated (video k') := by
  have hchange := step_change hstep
  generalize outcome fs k e = o at hchange
  generalize video k' = V' at hchange ⊢
  have hrun : ∀ {V : Video} p, Isolated V → Isolated (V.setRunning p) :=
    fun p hV => hV.congr rfl rfl rfl rfl
  have hspawn : ∀ {V : Video} p, Isolated V → Isolated (V.spawn p) :=
    fun p hV => hV.congr rfl rfl rfl rfl
  have hvisit : ∀ t, Isolated ((video k).visit t) := fun t => h.retarget rfl rfl
  have hvacate : ∀ p, Isolated ((video k).vacate p) :=
    fun p => h.congr rfl rfl rfl rfl
  cases hchange with
  | fail => exact h
  | exec => exact hspawn _ h
  | exit =>
      have hreleased : Isolated (((video k).release (k.pcb k.running).pid).setRunning
          (k.pcb k.running).parPid) := h.congr rfl rfl rfl rfl
      exact hreleased.unmap.congr rfl rfl rfl rfl
  | restart => exact hspawn _ (hvacate _)
  | lost => exact hvacate _
  | invalid => exact h
  | map screenStart hhead hptr => exact h.map (hmaps hptr)
  | resume => exact hvisit _
  | start => exact hspawn _ (hvisit _)
  | stuck => exact hvisit _
  | same => exact h
  | display => exact h.retarget rfl rfl

/-- The console as `paging_init` and `init_terminal` leave it, as far as the
mapping goes: the current terminal is displayed, and no entry but that of the
video page is present. -/
structure VideoBoot (c : Console) : Prop where
  saved : ∀ t, (c.multiTerminal t).videoCurPos = VIDEO + (t.val + 1) * PAGE
  displayed : c.currentTid = c.displayTerminal
  entry : (c.userMapping OUR_VID_MAP).present ≠ 0 →
    (c.userMapping OUR_VID_MAP).address = VIDEO / PAGE
  others : ∀ e, e ≠ OUR_VID_MAP → (c.userMapping e).present = 0

theorem isolated_boot {k : Kernel σ} (h0 : VideoBoot k.con) :
    Isolated (video k) := by
  have hpage : (pageOf (input k.con) k.con.currentTid).address =
      VIDEO / PAGE := if_neg (not_not.2 h0.displayed)
  refine { saved := h0.saved, entry := fun hpresent => ?_, others := h0.others }
  exact (h0.entry hpresent).trans hpage.symm

/-- What a process on the current terminal can draw on through the page table
of the user's video page. -/
structure BackgroundIsolated (c : Console) : Prop where
  hidden : ∀ e, (c.userMapping e).present ≠ 0 →
    (c.userMapping e).address ≠ VIDEO_OF12
  own : (c.userMapping OUR_VID_MAP).present ≠ 0 →
    (c.userMapping OUR_VID_MAP).address =
        (c.multiTerminal c.currentTid).videoCurPos / PAGE ∧
      ∀ t, t ≠ c.currentTid → (c.userMapping OUR_VID_MAP).address ≠
        (c.multiTerminal t).videoCurPos / PAGE

/-- The pages of the saved screens are behind the video memory, in the order of
the terminals. -/
theorem savedPage {pos : Tid → Int}
    (h : ∀ t, pos t = VIDEO + (t.val + 1) * PAGE) (t : Tid) :
    pos t / PAGE = VIDEO_OF12 + 1 + t.val := by
  rw [h]
  unfold VIDEO PAGE VIDEO_OF12
  omega

/-- An isolated background process draws on the saved screen of its own
terminal. -/
theorem Isolated.background {k : Kernel σ} (h : Isolated (video k))
    (hback : k.con.currentTid ≠ k.con.displayTerminal) :
    BackgroundIsolated k.con := by
  have hpage := savedPage h.saved
  have hpresent : (k.con.userMapping OUR_VID_MAP).present ≠ 0 →
      (k.con.userMapping OUR_VID_MAP).address =
        VIDEO_OF12 + 1 + k.con.currentTid.val := by
    intro hp
    have hcurrent : (pageOf (input k.con) k.con.currentTid).address =
        (k.con.multiTerminal k.con.currentTid).videoCurPos / PAGE :=
      if_pos hback
    exact (h.entry hp).trans (hcurrent.trans (hpage _))
  refine { hidden := fun e hp => ?_, own := fun hp => ⟨?_, fun t ht => ?_⟩ }
  · by_cases he : e = OUR_VID_MAP
    · subst he
      rw [hpresent hp]
      omega
    · exact absurd (h.others e he) hp
  · exact (hpresent hp).trans (hpage _).symm
  · have hother : (k.con.multiTerminal t).videoCurPos / PAGE =
        VIDEO_OF12 + 1 + t.val := hpage t
    rw [hpresent hp, hother]
    intro heq
    exact ht (Fin.ext (by omega))

/-- A `vidmap` in the background opens an entry on the video memory. -/
theorem background_vidmap_leaks {k : Kernel σ} {screenStart : Nat}
    (hptr : screenStart / 2 ^ PDE_OFFSET = PDE_INDEX)
    (hback : k.con.currentTid ≠ k.con.displayTerminal) :
    video (vidmap k screenStart).1 = (video k).map ∧
      (video k).map.entries (OUR_VID_MAP + 1 + k.con.currentTid.val) =
        { present := OPEN, address := VIDEO_OF12 } := by
  have hslot : (video k).slot = OUR_VID_MAP + 1 + k.con.currentTid.val :=
    if_neg (Ne.symm hback)
  refine ⟨(vidmap_valid hptr).2, ?_⟩
  rw [← hslot]
  exact Function.update_self (video k).slot _ (video k).entries

/-- A process in the background cannot draw on the screen. -/
def ScreenSafe (k : Kernel σ) : Prop :=
  k.con.currentTid ≠ k.con.displayTerminal → BackgroundIsolated k.con

/-- From the boot on, no process in the background can draw on the screen in
any state of a run if and only if every `vidmap` of the run that opens an entry
is called on the displayed terminal. -/
theorem background_isolated_iff {fs : FileSys} {k0 k : Kernel σ}
    {es : List (VideoEvent σ)} (h0 : VideoBoot k0.con) :
    Run (Within ScreenSafe (VideoStep fs)) k0 es k ↔
      Run (Guarded MapsDisplayed (VideoStep fs)) k0 es k := by
  refine Run.within_iff_guarded (I := fun k => Isolated (video k))
    (isolated_boot h0) ?keep ?leak
  case keep =>
    intro k e k' h hstep hmaps
    have h' := isolated_step h hmaps hstep
    exact ⟨h', h'.background⟩
  case leak =>
    intro k e k' h hstep hmaps hsafe
    cases e with
    | vidmap screenStart =>
        obtain ⟨hptr, hdisplay⟩ := Classical.not_imp.1 hmaps
        have hback := Ne.symm hdisplay
        obtain ⟨hmap, hentry⟩ := background_vidmap_leaks hptr hback
        simp only [VideoStep, videoStep] at hstep
        split at hstep
        · cases hstep
        cases hstep
        generalize (vidmap k screenStart).1 = k' at hmap hsafe
        have hcur : k'.con.currentTid = k.con.currentTid :=
          congrArg (fun V => V.input.cur) hmap
        have hdisp : k'.con.displayTerminal = k.con.displayTerminal :=
          congrArg (fun V => V.input.display) hmap
        have hopen : k'.con.userMapping
            (OUR_VID_MAP + 1 + k.con.currentTid.val) =
            { present := OPEN, address := VIDEO_OF12 } := by
          rw [← hentry, ← hmap]
          rfl
        rw [ScreenSafe, hcur, hdisp] at hsafe
        refine (hsafe hback).hidden _ ?_ (congrArg Pte.address hopen)
        rw [hopen]
        exact (by decide : OPEN ≠ 0)
    | execute => exact hmaps trivial
    | halt => exact hmaps trivial
    | pit => exact hmaps trivial
    | terminalSwitch => exact hmaps trivial

/-- The console at the end of the boot. -/
theorem videoBoot_initTerminal (mem : Int → Byte) :
    VideoBoot (initTerminal mem) := by
  have hinput : input (initTerminal mem) = input (unclearedConsole mem) :=
    input_clear _
  have hentries : entries (initTerminal mem) =
      Function.update (entries (unclearedConsole mem)) OUR_VID_MAP
        (pageOf (input (unclearedConsole mem))
          (input (unclearedConsole mem)).cur) := entries_clear _
  generalize initTerminal mem = c at hinput hentries ⊢
  have hmap : c.userMapping = entries c := rfl
  refine
    { saved := fun t => ?saved, displayed := ?displayed, entry := ?entry
      others := fun e he => ?others }
  case saved => exact congrFun (congrArg Input.videoCurPos hinput) t
  case displayed =>
    have hcur : c.currentTid = 0 := congrArg Input.cur hinput
    have hdisplay : c.displayTerminal = 0 := congrArg Input.display hinput
    rw [hcur, hdisplay]
  case entry =>
    rw [hmap, hentries, Function.update_self]
    exact fun hpresent => absurd rfl hpresent
  case others =>
    rw [hmap, hentries, Function.update_of_ne he]
    exact if_neg he

instance (k : Kernel σ) (e : VideoEvent σ) : Decidable (MapsDisplayed k e) := by
  cases e <;> unfold MapsDisplayed <;> infer_instance

/-- Start the three base shells, map the screen on the displayed terminal 0,
and turn to terminal 1. -/
def displayedMap : List (VideoEvent Nat) :=
  List.replicate 3 (.pit ⟨0, []⟩ 10 11 12 13) ++
    [.vidmap 0x08048000, .pit ⟨0, []⟩ 20 21 22 23]

def displayedMapEnd : Kernel Nat :=
  (follow (guardStep MapsDisplayed (videoStep SampleImage.shellImage))
    (SampleImage.idleKernel 0) displayedMap).getD (SampleImage.idleKernel 0)

theorem videoBoot_idleKernel : VideoBoot (SampleImage.idleKernel (0 : Nat)).con :=
  { saved := fun _ => rfl, displayed := rfl
    entry := fun hpresent => absurd rfl hpresent, others := fun _ _ => rfl }

/-- Terminal 1 does not see the mapping of terminal 0. -/
theorem displayedMap_isolated :
    displayedMapEnd.con.currentTid ≠ displayedMapEnd.con.displayTerminal ∧
      Run (Within ScreenSafe (VideoStep SampleImage.shellImage))
        (SampleImage.idleKernel 0) displayedMap displayedMapEnd := by
  have hrun : Run (Guarded MapsDisplayed (VideoStep SampleImage.shellImage))
      (SampleImage.idleKernel 0) displayedMap displayedMapEnd :=
    follow_guarded (videoStep SampleImage.shellImage) (by decide +kernel)
  exact ⟨by decide +kernel, (background_isolated_iff videoBoot_idleKernel).2 hrun⟩

/-- Start the base shell of terminal 1, which is not displayed, and let it call
`vidmap`. -/
def hiddenMap : List (VideoEvent Nat) :=
  [.pit ⟨0, []⟩ 10 11 12 13, .vidmap 0x08048000]

def hiddenMapEnd : Kernel Nat :=
  (follow (videoStep SampleImage.shellImage) (SampleImage.idleKernel 0)
    hiddenMap).getD (SampleImage.idleKernel 0)

/-- It can draw on the screen through entry `0x24`. -/
theorem hidden_map_draws_on_screen :
    VideoBoot (SampleImage.idleKernel (0 : Nat)).con ∧
      Run (VideoStep SampleImage.shellImage) (SampleImage.idleKernel 0)
        hiddenMap hiddenMapEnd ∧
      hiddenMapEnd.running = 1 ∧
      hiddenMapEnd.con.currentTid ≠ hiddenMapEnd.con.displayTerminal ∧
      (hiddenMapEnd.con.userMapping 0x24).present = OPEN ∧
      (hiddenMapEnd.con.userMapping 0x24).address = VIDEO_OF12 ∧
      ¬ BackgroundIsolated hiddenMapEnd.con := by
  have hpresent : (hiddenMapEnd.con.userMapping 0x24).present = OPEN := by
    decide +kernel
  have haddress : (hiddenMapEnd.con.userMapping 0x24).address = VIDEO_OF12 := by
    decide +kernel
  refine ⟨videoBoot_idleKernel, ?_, by decide +kernel, by decide +kernel,
    hpresent, haddress, fun hisolated => ?_⟩
  · exact follow_run_getD (videoStep SampleImage.shellImage) (by decide +kernel)
  · refine hisolated.hidden 0x24 ?_ haddress
    rw [hpresent]
    decide

/-! ## Permission -/

/-- The permission of the running process of a terminal is that of the
terminal, the entry shows that of the current terminal, and a process has
permission if it has called `vidmap` with success. -/
structure Permitted (V : Video) (mapped : Int → Bool) : Prop where
  terminal : ∀ t, V.input.running t ≠ -1 →
    V.input.vidmap t = V.allowed (V.input.running t)
  entry : V.head ≠ -1 →
    (V.entries OUR_VID_MAP).present = V.input.vidmap V.input.cur
  own : ∀ p, V.used (p - 1) = 1 → V.allowed p = (mapped p).toNat

/-- Who has called `vidmap`, after a step. -/
def remember (mapped : Int → Bool) : Option (Int × Bool) → Int → Bool
  | none => mapped
  | some (p, b) => Function.update mapped p b

/-- The entry that `vidmap` and `paging_halt` write is that of the video page
only on the displayed terminal. -/
theorem update_slot (V : Video) (pte : Pte) :
    Function.update V.entries V.slot pte OUR_VID_MAP =
      if V.input.display = V.input.cur then pte
      else V.entries OUR_VID_MAP := by
  unfold Video.slot
  split
  · rw [Function.update_self]
  · have hother : OUR_VID_MAP ≠ OUR_VID_MAP + 1 + V.input.cur.val := by
      unfold OUR_VID_MAP
      omega
    rw [Function.update_of_ne hother]

namespace Permitted

variable {V : Video} {mapped : Int → Bool}

/-- A new process on a terminal without permission. -/
theorem spawn (h : Permitted V mapped) {p : Int}
    (hfresh : ∀ t, V.input.running t ≠ p)
    (hclear : V.input.vidmap V.input.cur = 0)
    (hentry : (V.entries OUR_VID_MAP).present = V.input.vidmap V.input.cur) :
    Permitted (V.spawn p) (remember mapped (some (p, false))) := by
  refine { terminal := ?terminal, entry := fun _ => hentry, own := ?own }
  case terminal =>
    intro t hrun
    simp only [Video.spawn, Video.setRunning] at hrun ⊢
    by_cases ht : t = V.input.cur
    · subst ht
      rw [Function.update_self, Function.update_self]
      exact hclear
    · rw [Function.update_of_ne ht] at hrun ⊢
      rw [Function.update_of_ne (hfresh t)]
      exact h.terminal t hrun
  case own =>
    intro q hq
    simp only [Video.spawn, Video.setRunning, remember] at hq ⊢
    by_cases hpq : q = p
    · subst hpq
      rw [Function.update_self, Function.update_self]
      rfl
    · rw [Function.update_of_ne (by omega)] at hq
      rw [Function.update_of_ne hpq, Function.update_of_ne hpq]
      exact h.own q hq

/-- The end of a process, whoever runs next on its terminal. -/
theorem release_own (h : Permitted V mapped) {pid q : Int}
    (hq : (V.release pid).used (q - 1) = 1) :
    V.allowed q = (mapped q).toNat := by
  apply h.own q
  by_cases hpid : q - 1 = pid - 1
  · simp only [Video.release, hpid, Function.update_self] at hq
    omega
  · simp only [Video.release, Function.update_of_ne hpid] at hq
    exact hq

/-- A process returns to its parent.  `paging_halt` withdraws the mapping of
the displayed terminal, whatever the permission of the parent. -/
theorem exit (h : Permitted V mapped) (hhead : V.head ≠ -1) {pid par : Int}
    (hkept : V.allowed par =
      if V.input.display = V.input.cur then 0 else V.input.vidmap V.input.cur) :
    Permitted (V.exit pid par) mapped := by
  refine { terminal := ?terminal, entry := ?entry, own := ?own }
  case terminal =>
    intro t hrun
    simp only [Video.exit, Video.setRunning, Video.release, Video.unmap,
      Video.setVidmap] at hrun ⊢
    by_cases ht : t = V.input.cur
    · subst ht
      rw [Function.update_self, Function.update_self]
    · rw [Function.update_of_ne ht] at hrun ⊢
      rw [Function.update_of_ne ht]
      exact h.terminal t hrun
  case entry =>
    intro _
    have hentry : (V.exit pid par).entries OUR_VID_MAP =
        if V.input.display = V.input.cur then
          { V.entries V.slot with present := 0 }
        else V.entries OUR_VID_MAP := update_slot V _
    have hvidmap : (V.exit pid par).input.vidmap V.input.cur =
        V.allowed par := Function.update_self ..
    have hcur : (V.exit pid par).input.cur = V.input.cur := rfl
    rw [hentry, hcur, hvidmap, hkept]
    split
    · rfl
    · exact h.entry hhead
  case own => exact fun q hq => h.release_own hq

/-- A base shell ends. -/
theorem vacate (h : Permitted V mapped) (pid : Int) :
    Permitted (V.vacate pid) mapped := by
  refine { terminal := ?terminal, entry := ?entry, own := ?own }
  case terminal =>
    intro t hrun
    simp only [Video.vacate, Video.setRunning, Video.release] at hrun ⊢
    by_cases ht : t = V.input.cur
    · subst ht
      rw [Function.update_self] at hrun
      exact absurd rfl hrun
    · rw [Function.update_of_ne ht] at hrun ⊢
      exact h.terminal t hrun
  case entry =>
    intro hrun
    have hidle : (V.vacate pid).head = -1 := Function.update_self ..
    exact absurd hidle hrun
  case own => exact fun q hq => h.release_own hq

/-- `vidmap`, on the displayed terminal or where the entry is present
already. -/
theorem map (h : Permitted V mapped) (hhead : V.head ≠ -1)
    (hlive : V.used (V.head - 1) = 1)
    (hothers : ∀ t, t ≠ V.input.cur → V.input.running t ≠ V.head)
    (hshown : V.input.display = V.input.cur ∨
      V.input.vidmap V.input.cur ≠ 0) :
    Permitted V.map (remember mapped (some (V.head, true))) := by
  refine { terminal := ?terminal, entry := ?entry, own := ?own }
  case terminal =>
    intro t hrun
    simp only [Video.map, Video.setVidmap] at hrun ⊢
    by_cases ht : t = V.input.cur
    · subst ht
      rw [Function.update_self]
      exact (Function.update_self V.head OPEN V.allowed).symm
    · rw [Function.update_of_ne ht, Function.update_of_ne (hothers t ht)]
      exact h.terminal t hrun
  case entry =>
    intro _
    have hentry : V.map.entries OUR_VID_MAP =
        if V.input.display = V.input.cur then
          { present := OPEN, address := VIDEO_OF12 }
        else V.entries OUR_VID_MAP := update_slot V _
    have hvidmap : V.map.input.vidmap V.input.cur = OPEN :=
      Function.update_self ..
    have hcur : V.map.input.cur = V.input.cur := rfl
    rw [hentry, hcur, hvidmap]
    by_cases hdisplay : V.input.display = V.input.cur
    · rw [if_pos hdisplay]
    · rw [if_neg hdisplay]
      have hset := hshown.resolve_left hdisplay
      have hterminal : V.input.vidmap V.input.cur = V.allowed V.head :=
        h.terminal V.input.cur hhead
      rw [h.entry hhead]
      rw [hterminal, h.own V.head hlive] at hset ⊢
      cases hmapped : mapped V.head with
      | true => rfl
      | false => exact absurd (congrArg Bool.toNat hmapped) hset
  case own =>
    intro q hq
    simp only [Video.map, Video.setVidmap, remember] at hq ⊢
    by_cases hpq : q = V.head
    · subst hpq
      rw [Function.update_self, Function.update_self]
      rfl
    · rw [Function.update_of_ne hpq, Function.update_of_ne hpq]
      exact h.own q hq

/-- `vid_mem` for the terminal that is current when it returns. -/
theorem retarget (h : Permitted V mapped) {V' : Video}
    (hrunning : V'.input.running = V.input.running)
    (hvidmap : V'.input.vidmap = V.input.vidmap)
    (hallowed : V'.allowed = V.allowed) (hused : V'.used = V.used)
    (hentries : V'.entries =
      Function.update V.entries OUR_VID_MAP (pageOf V'.input V'.input.cur)) :
    Permitted V' mapped := by
  refine { terminal := ?terminal, entry := ?entry, own := ?own }
  case terminal =>
    rw [hrunning, hvidmap, hallowed]
    exact h.terminal
  case entry =>
    rw [hentries, Function.update_self]
    exact fun _ => rfl
  case own =>
    rw [hallowed, hused]
    exact h.own

end Permitted

/-- What the running process may expect: its permission is that of its
terminal, and the entry of the video page is present if and only if the process
has called `vidmap` with success. -/
def Agrees (V : Video) (mapped : Int → Bool) : Prop :=
  V.input.vidmap V.input.cur = V.allowed V.head ∧
    ((V.entries OUR_VID_MAP).present ≠ 0 ↔ mapped V.head = true)

section Agrees

theorem toNat_ne_zero (b : Bool) : b.toNat ≠ 0 ↔ b = true := by
  rw [Ne, Bool.toNat_eq_zero, Bool.not_eq_false]

variable {V : Video} {mapped : Int → Bool}

theorem Permitted.agrees (h : Permitted V mapped) (hhead : V.head ≠ -1)
    (hlive : V.used (V.head - 1) = 1) : Agrees V mapped := by
  have hterminal : V.input.vidmap V.input.cur = V.allowed V.head :=
    h.terminal V.input.cur hhead
  refine ⟨hterminal, ?_⟩
  rw [h.entry hhead, hterminal, h.own V.head hlive]
  exact toNat_ne_zero _

/-- A process that starts on a terminal with permission does not agree with
it. -/
theorem spawn_disagrees {p : Int} (hset : V.input.vidmap V.input.cur ≠ 0)
    (mapped : Int → Bool) : ¬ Agrees (V.spawn p) mapped := by
  rintro ⟨hterminal, -⟩
  have hhead : (V.spawn p).head = p := Function.update_self ..
  have hallowed : (V.spawn p).allowed p = 0 := Function.update_self p 0 V.allowed
  rw [hhead, hallowed] at hterminal
  exact hset hterminal

/-- A parent whose permission is not what `paging_halt` leaves in the entry. -/
theorem exit_disagrees (h : Permitted V mapped) (hhead : V.head ≠ -1)
    (hlive : V.used (V.head - 1) = 1) {pid par : Int}
    (hpar : V.used (par - 1) = 1)
    (hlost : V.allowed par ≠
      if V.input.display = V.input.cur then 0 else V.input.vidmap V.input.cur) :
    ¬ Agrees (V.exit pid par) mapped := by
  rintro ⟨-, hiff⟩
  have hentry : (V.exit pid par).entries OUR_VID_MAP =
      if V.input.display = V.input.cur then
        { V.entries V.slot with present := 0 }
      else V.entries OUR_VID_MAP := update_slot V _
  have hnew : (V.exit pid par).head = par := Function.update_self ..
  have hterminal : V.input.vidmap V.input.cur = V.allowed V.head :=
    h.terminal V.input.cur hhead
  rw [hentry, hnew, ← toNat_ne_zero, ← h.own par hpar] at hiff
  by_cases hdisplay : V.input.display = V.input.cur
  · rw [if_pos hdisplay] at hlost hiff
    exact hiff.2 hlost rfl
  · -- both permissions are 0 or 1, so they differ only if one is 0
    rw [if_neg hdisplay] at hlost hiff
    rw [h.entry hhead, hterminal] at hiff
    rw [hterminal] at hlost
    rw [h.own par hpar, h.own V.head hlive, toNat_ne_zero, toNat_ne_zero]
      at hiff
    rw [h.own par hpar, h.own V.head hlive] at hlost
    exact hlost (congrArg Bool.toNat (Bool.eq_iff_iff.2 hiff.symm))

/-- In the background `vidmap` opens an entry that nobody looks at. -/
theorem map_disagrees (h : Permitted V mapped) (hhead : V.head ≠ -1)
    (hdisplay : V.input.display ≠ V.input.cur)
    (hclear : V.input.vidmap V.input.cur = 0) :
    ¬ Agrees V.map (remember mapped (some (V.head, true))) := by
  rintro ⟨-, hiff⟩
  have hentry : V.map.entries OUR_VID_MAP =
      if V.input.display = V.input.cur then
        { present := OPEN, address := VIDEO_OF12 }
      else V.entries OUR_VID_MAP := update_slot V _
  have hhead' : V.map.head = V.head := rfl
  have hcaller : remember mapped (some (V.head, true)) V.head = true := by
    rw [remember, Function.update_self]
  rw [hentry, if_neg hdisplay, h.entry hhead, hclear, hhead'] at hiff
  exact hiff.2 hcaller rfl

end Agrees

/-! ## Runs -/

/-- Every step keeps the process forest. -/
theorem forest_step {fs : FileSys} {k k' : Kernel σ} {e : VideoEvent σ}
    {chain : Tid → List Int} (hF : Forest (table k) chain)
    (hstep : VideoStep fs k e k') : ∃ chain', Forest (table k') chain' := by
  cases e with
  | execute stk command esp ebp =>
      have hproc : ProcStep fs k (.execute stk command esp ebp) k' := hstep
      exact hF.step (procStep_table hproc)
  | halt stk status esp ebp =>
      have hproc : ProcStep fs k (.halt stk status esp ebp) k' := hstep
      exact hF.step (procStep_table hproc)
  | vidmap screenStart =>
      simp only [VideoStep, videoStep] at hstep
      split at hstep
      · cases hstep
      · cases hstep
        refine ⟨chain, ?_⟩
        rw [table_vidmap]
        exact hF
  | pit stk esp ebp espExe ebpExe =>
      have hproc : ProcStep fs
          { k with con := vidMem k.con (k.con.currentTid + 1) }
          (.switch (k.con.currentTid + 1) stk esp ebp espExe ebpExe) k' := hstep
      have htable := procStep_table hproc
      rw [table_vidMem] at htable
      exact hF.step htable
  | terminalSwitch t =>
      cases hstep
      refine ⟨chain, ?_⟩
      have hinput := input_terminalSwitch k.con t
      generalize terminalSwitch k.con t = c at hinput ⊢
      have hrunning : (input c).running = (input k.con).running := by
        rw [hinput]
      have hcur : (input c).cur = (input k.con).cur := by rw [hinput]
      rw [table_setCon k hrunning hcur]
      exact hF

/-- A kernel with the record of who has called `vidmap` with success, and the
terminal and the process whose user code runs. -/
structure Mapping (σ : Type) where
  k : Kernel σ
  mapped : Int → Bool
  user : Option (Tid × Int)

/-- Before the first process. -/
def Mapping.start (k : Kernel σ) : Mapping σ :=
  { k := k, mapped := fun _ => false, user := none }

/-- Whose code runs after a step that ends with terminal `t` as the current
one. -/
def turn (user : Option (Tid × Int)) (t : Tid) : Option Int → Option (Tid × Int)
  | none => user
  | some p => some (t, p)

/-- The system with the record. -/
def mapStep (fs : FileSys) (s : Mapping σ) (e : VideoEvent σ) :
    Option (Mapping σ) :=
  (videoStep fs s.k e).map fun k =>
    { k := k
      mapped := remember s.mapped (outcome fs s.k e).mapped
      user := turn s.user k.con.currentTid (outcome fs s.k e).user }

def MapStep (fs : FileSys) (s : Mapping σ) (e : VideoEvent σ) (s' : Mapping σ) :
    Prop := mapStep fs s e = some s'

theorem mapStep_iff {fs : FileSys} {s s' : Mapping σ} {e : VideoEvent σ} :
    MapStep fs s e s' ↔
      VideoStep fs s.k e s'.k ∧
        s'.mapped = remember s.mapped (outcome fs s.k e).mapped ∧
        s'.user = turn s.user s'.k.con.currentTid (outcome fs s.k e).user := by
  obtain ⟨k', mapped', user'⟩ := s'
  simp only [MapStep, mapStep, VideoStep, Option.map_eq_some_iff,
    Mapping.mk.injEq]
  constructor
  · rintro ⟨m, hstep, rfl, rfl, rfl⟩
    exact ⟨hstep, rfl, rfl⟩
  · rintro ⟨hstep, hmapped, huser⟩
    exact ⟨k', hstep, rfl, hmapped.symm, huser.symm⟩

/-- The record restricts no run. -/
theorem run_recorded {fs : FileSys} {k0 k : Kernel σ} {es : List (VideoEvent σ)}
    (hrun : Run (VideoStep fs) k0 es k) :
    ∃ s, Run (MapStep fs) (Mapping.start k0) es s ∧ s.k = k := by
  have hsim : ∀ (m : Kernel σ) (s : Mapping σ) e m', s.k = m →
      VideoStep fs m e m' → ∃ s', MapStep fs s e s' ∧ s'.k = m' := by
    rintro _ s e m' rfl hstep
    exact ⟨⟨m', remember s.mapped (outcome fs s.k e).mapped,
      turn s.user m'.con.currentTid (outcome fs s.k e).user⟩,
      mapStep_iff.2 ⟨hstep, rfl, rfl⟩, rfl⟩
  exact hrun.simulate (fun m (s : Mapping σ) => s.k = m) hsim rfl

/-- The steps in which every PIT interrupt is served. -/
def ServedStep (fs : FileSys) :
    Mapping σ → VideoEvent σ → Mapping σ → Prop :=
  Guarded (fun s => Served s.k) (MapStep fs)

/-- The code that runs is that of the running process of the current terminal,
and none runs before the first base shell. -/
def Placed (fs : FileSys) (V : Video) (user : Option (Tid × Int)) : Prop :=
  (user = none ∧ ∀ t, V.input.running t = -1) ∨
    (user = some (V.input.cur, V.head) ∧ V.head ≠ -1 ∧ ShellRunnable fs)

namespace Placed

variable {fs : FileSys} {V V' : Video} {user : Option (Tid × Int)}

theorem runnable (h : Placed fs V user) {t : Tid}
    (hbusy : V.input.running t ≠ -1) : ShellRunnable fs := by
  rcases h with ⟨-, hidle⟩ | ⟨-, -, hshell⟩
  · exact absurd (hidle t) hbusy
  · exact hshell

/-- A step after which the code that was interrupted goes on. -/
theorem stay (h : Placed fs V user)
    (hrunning : V'.input.running = V.input.running)
    (hcur : V'.input.cur = V.input.cur) : Placed fs V' user := by
  have hhead : V'.head = V.head := by
    rw [Video.head, Video.head, hrunning, hcur]
  rw [Placed, hrunning, hcur, hhead]
  exact h

/-- A step that hands the processor to the running process of the current
terminal. -/
theorem handed (hshell : ShellRunnable fs) {p : Int} (hhead : V.head = p)
    (hp : p ≠ -1) : Placed fs V (turn user V.input.cur (some p)) := by
  refine .inr ⟨?_, ?_, hshell⟩
  · rw [hhead]
    rfl
  · rw [hhead]
    exact hp

end Placed

/-- One step keeps the user code on the current terminal. -/
theorem placed_step {fs : FileSys} {k k' : Kernel σ} {e : VideoEvent σ}
    {user : Option (Tid × Int)} {chain : Tid → List Int}
    (h : Placed fs (video k) user) (hF : Forest (table k) chain)
    (hserved : Served k e) (hstep : VideoStep fs k e k') :
    Placed fs (video k') (turn user k'.con.currentTid (outcome fs k e).user) := by
  have hchange := step_change hstep
  have hcur : k'.con.currentTid = (video k').input.cur := rfl
  rw [hcur]
  generalize outcome fs k e = o at hchange ⊢
  generalize video k' = V' at hchange ⊢
  have hspawn : ∀ (V : Video) (i : Nat), ShellRunnable fs →
      Placed fs (V.spawn ((i : Int) + 1))
        (turn user (V.spawn ((i : Int) + 1)).input.cur (some ((i : Int) + 1))) :=
    fun V i hshell =>
      .handed hshell (Function.update_self V.input.cur _ V.input.running)
        (by omega)
  have hshell : k.running ≠ -1 → ShellRunnable fs :=
    h.runnable (t := k.con.currentTid)
  cases hchange with
  | fail => exact h
  | exec stk c esp ebp i hhead => exact hspawn _ i (hshell hhead)
  | exit stk status esp ebp hhead hchild =>
      exact .handed (hshell hhead)
        (Function.update_self (video k).input.cur _ _) hchild
  | restart stk status esp ebp i hhead => exact hspawn _ i (hshell hhead)
  | lost stk status esp ebp hhead hbase hno =>
      have hrun := (runnable_shell fs stk).2 (hshell hhead)
      exact absurd (hno hrun) (hF.leave_free hhead)
  | invalid => exact h
  | map => exact h.stay rfl rfl
  | resume stk esp ebp espExe ebpExe hbusy =>
      exact .handed (h.runnable hbusy) rfl hbusy
  | start stk esp ebp espExe ebpExe i hidle hrun =>
      exact hspawn _ i ((runnable_shell fs stk).1 hrun)
  | stuck stk esp ebp espExe ebpExe hidle hno =>
      have hfree : (table k).lowestFree ≠ none := (pidFree_iff k).1 (hserved hidle)
      rcases h with ⟨hnone, hall⟩ | ⟨-, -, hshell⟩
      · exact .inl ⟨hnone, hall⟩
      · exact absurd (hno ((runnable_shell fs stk).2 hshell)) hfree
  | same => exact h
  | display => exact h.stay rfl rfl

/-- The steps that keep the permissions in agreement.  A process is started on
a terminal without permission; a process halts to a parent whose permission is
what `paging_halt` leaves in the entry; `vidmap` opens an entry on the
displayed terminal, or where the entry is present already. -/
def Agreeing (fs : FileSys) (k : Kernel σ) : VideoEvent σ → Prop
  | .execute stk (some c) _ _ => Runnable fs stk c → PidFree k →
      (k.con.multiTerminal k.con.currentTid).vidmap = 0
  | .execute _ none _ _ => True
  | .halt stk _ _ _ =>
      if (k.pcb k.running).parPid = -1 then
        Runnable fs stk shellCmd →
          (k.con.multiTerminal k.con.currentTid).vidmap = 0
      else
        (k.pcb (k.pcb k.running).parPid).vidmap =
          if k.con.displayTerminal = k.con.currentTid then 0
          else (k.con.multiTerminal k.con.currentTid).vidmap
  | .vidmap screenStart => screenStart / 2 ^ PDE_OFFSET = PDE_INDEX →
      k.con.displayTerminal = k.con.currentTid ∨
        (k.con.multiTerminal k.con.currentTid).vidmap ≠ 0
  | .pit stk _ _ _ _ => k.runningPid (k.con.currentTid + 1) = -1 →
      Runnable fs stk shellCmd → PidFree k →
        (k.con.multiTerminal (k.con.currentTid + 1)).vidmap = 0
  | .terminalSwitch _ => True

/-- One step keeps the agreement. -/
theorem permitted_step {fs : FileSys} {k k' : Kernel σ} {e : VideoEvent σ}
    {mapped : Int → Bool} {chain : Tid → List Int}
    (h : Permitted (video k) mapped) (hF : Forest (table k) chain)
    (hagree : Agreeing fs k e) (hstep : VideoStep fs k e k') :
    Permitted (video k') (remember mapped (outcome fs k e).mapped) := by
  have hchange := step_change hstep
  generalize outcome fs k e = o at hchange ⊢
  generalize video k' = V' at hchange ⊢
  have hpidFree : ∀ {i : Nat}, (table k).lowestFree = some i → PidFree k := by
    intro i hfree
    rw [pidFree_iff, hfree]
    exact Option.some_ne_none i
  have hvisit : Permitted ((video k).visit (k.con.currentTid + 1)) mapped :=
    h.retarget rfl rfl rfl rfl rfl
  cases hchange with
  | fail => exact h
  | exec stk c esp ebp i hhead hrun hfree =>
      exact h.spawn (hF.running_ne_free hfree) (hagree hrun (hpidFree hfree))
        (h.entry hhead)
  | exit stk status esp ebp hhead hchild =>
      rw [Agreeing, if_neg hchild] at hagree
      exact h.exit hhead hagree
  | restart stk status esp ebp i hhead hbase hrun hfree =>
      rw [Agreeing, if_pos hbase] at hagree
      obtain ⟨rest, hchain⟩ := hF.chain_cons hhead
      have hfresh : ∀ t, ((video k).vacate (k.pcb k.running).pid).input.running
          t ≠ (i : Int) + 1 := by
        have hleave := (hF.leave hchain).running_ne_free hfree
        have hparent : (table k).parent (table k).head = -1 := hbase
        rw [leave_running, hparent] at hleave
        exact hleave
      exact (h.vacate _).spawn hfresh (hagree hrun) (h.entry hhead)
  | lost stk status esp ebp hhead hbase => exact h.vacate _
  | invalid => exact h
  | map screenStart hhead hptr =>
      have hlive : k.pidSt (k.running - 1) = 1 :=
        hF.used_of_mem (hF.running_mem hhead)
      exact h.map hhead hlive (fun t ht => hF.running_ne_head hhead ht)
        (hagree hptr)
  | resume => exact hvisit
  | start stk esp ebp espExe ebpExe i hidle hrun hfree =>
      have hclear := hagree hidle hrun (hpidFree hfree)
      have hentry : ((video k).visit (k.con.currentTid + 1)).entries
          OUR_VID_MAP = pageOf (video k).input (k.con.currentTid + 1) :=
        Function.update_self OUR_VID_MAP _ (video k).entries
      apply hvisit.spawn (hF.running_ne_free hfree) hclear
      rw [hentry]
      rfl
  | stuck => exact hvisit
  | same => exact h
  | display => exact h.retarget rfl rfl rfl rfl rfl

/-- Every other step ends in a process that does not agree. -/
theorem careless_step {fs : FileSys} {k k' : Kernel σ} {e : VideoEvent σ}
    {mapped : Int → Bool} {chain : Tid → List Int}
    (h : Permitted (video k) mapped) (hF : Forest (table k) chain)
    (hcareless : ¬ Agreeing fs k e) (hstep : VideoStep fs k e k') :
    (video k').head ≠ -1 ∧
      ¬ Agrees (video k') (remember mapped (outcome fs k e).mapped) := by
  have hchange := step_change hstep
  generalize outcome fs k e = o at hchange ⊢
  generalize video k' = V' at hchange ⊢
  have hspawn : ∀ (V : Video) (i : Nat), (V.spawn ((i : Int) + 1)).head ≠ -1 := by
    intro V i
    have hhead : (V.spawn ((i : Int) + 1)).head = (i : Int) + 1 :=
      Function.update_self ..
    omega
  have hfull : PidFree k → (table k).lowestFree ≠ none := (pidFree_iff k).1
  have hlive : k.running ≠ -1 → k.pidSt (k.running - 1) = 1 :=
    fun hhead => hF.used_of_mem (hF.running_mem hhead)
  cases hchange with
  | fail stk command esp ebp hhead hno =>
      cases command with
      | none => exact absurd trivial hcareless
      | some c =>
          simp only [Agreeing, Classical.not_imp] at hcareless
          obtain ⟨hrun, hfree, -⟩ := hcareless
          exact absurd (hno c rfl hrun) (hfull hfree)
  | exec stk c esp ebp i hhead hrun hfree =>
      simp only [Agreeing, Classical.not_imp] at hcareless
      exact ⟨hspawn _ i, spawn_disagrees hcareless.2.2 _⟩
  | exit stk status esp ebp hhead hchild =>
      rw [Agreeing, if_neg hchild] at hcareless
      have hmem := hF.running_mem hhead
      have hpar : k.pidSt ((k.pcb k.running).parPid - 1) = 1 :=
        hF.used_of_mem (hF.parent_mem hmem hchild).1
      have hnew : ((video k).exit (k.pcb k.running).pid
          (k.pcb k.running).parPid).head = (k.pcb k.running).parPid :=
        Function.update_self ..
      exact ⟨hnew.symm ▸ hchild,
        exit_disagrees h hhead (hlive hhead) hpar hcareless⟩
  | restart stk status esp ebp i hhead hbase hrun hfree =>
      rw [Agreeing, if_pos hbase] at hcareless
      exact ⟨hspawn _ i, spawn_disagrees (fun hclear =>
        hcareless fun _ => hclear) _⟩
  | lost stk status esp ebp hhead hbase hno =>
      rw [Agreeing, if_pos hbase] at hcareless
      obtain ⟨hrun, -⟩ := Classical.not_imp.1 hcareless
      exact absurd (hno hrun) (hF.leave_free hhead)
  | invalid screenStart hhead hptr =>
      exact absurd (fun hvalid => absurd hvalid hptr) hcareless
  | map screenStart hhead hptr =>
      obtain ⟨-, hhidden⟩ := Classical.not_imp.1 hcareless
      obtain ⟨hdisplay, hclear⟩ := not_or.1 hhidden
      exact ⟨hhead, map_disagrees h hhead hdisplay (not_not.1 hclear)⟩
  | resume stk esp ebp espExe ebpExe hbusy =>
      exact absurd (fun hidle => absurd hidle hbusy) hcareless
  | start stk esp ebp espExe ebpExe i hidle hrun hfree =>
      exact ⟨hspawn _ i, spawn_disagrees (fun hclear =>
        hcareless fun _ _ _ => hclear) _⟩
  | stuck stk esp ebp espExe ebpExe hidle hno =>
      refine absurd (fun _ hrun hfree => ?_) hcareless
      exact absurd (hno hrun) (hfull hfree)
  | same => exact absurd trivial hcareless
  | display => exact absurd trivial hcareless

/-- Whenever user code runs, of process `p` on terminal `t`, the permission of
`p` is that of `t`, and the entry of the video page is present if and only if
`p` has called `vidmap` with success. -/
def PermissionKept (s : Mapping σ) : Prop :=
  ∀ t p, s.user = some (t, p) →
    (s.k.con.multiTerminal t).vidmap = (s.k.pcb p).vidmap ∧
      ((s.k.con.userMapping OUR_VID_MAP).present ≠ 0 ↔ s.mapped p = true)

/-- The code that runs is that of the running process, so its permission is
kept if that process agrees. -/
theorem permissionKept_iff {fs : FileSys} {s : Mapping σ}
    (h : Placed fs (video s.k) s.user) :
    PermissionKept s ↔
      (s.k.running ≠ -1 → Agrees (video s.k) s.mapped) := by
  unfold PermissionKept
  rcases h with ⟨hnone, hidle⟩ | ⟨huser, hhead, -⟩
  · refine ⟨fun _ hbusy => absurd (hidle _) hbusy, fun _ t p hsome => ?_⟩
    rw [hnone] at hsome
    cases hsome
  · constructor
    · exact fun hkept _ => hkept _ _ huser
    · intro hagrees t p hsome
      rw [huser] at hsome
      cases hsome
      exact hagrees hhead

/-- The permissions agree in every state of a run whose PIT interrupts are
served if and only if all its steps are agreeing. -/
theorem permission_follows_process {fs : FileSys} {k0 : Kernel σ}
    {s : Mapping σ} {es : List (VideoEvent σ)} (h0 : Initialised k0) :
    Run (Within PermissionKept (ServedStep fs)) (Mapping.start k0) es s ↔
      Run (Guarded (fun s => Agreeing fs s.k) (ServedStep fs))
        (Mapping.start k0) es s := by
  refine Run.within_iff_guarded (I := fun s =>
    (∃ chain, Forest (table s.k) chain) ∧ Permitted (video s.k) s.mapped ∧
      Placed fs (video s.k) s.user)
    ⟨⟨_, forest_initialised h0⟩, ?start, ?placed⟩ ?keep ?lose
  case placed => exact .inl ⟨rfl, h0.running⟩
  case start =>
    refine { terminal := ?_, entry := ?_, own := ?_ }
    · exact fun t hbusy => absurd (h0.running t) hbusy
    · exact fun hbusy => absurd (h0.running _) hbusy
    · intro p hp
      exact absurd ((h0.pidSt _).symm.trans hp) (by decide)
  case keep =>
    rintro s e s' ⟨⟨chain, hF⟩, h, hplaced⟩ ⟨hserved, hstep⟩ hagree
    obtain ⟨hvideo, hmapped, huser⟩ := mapStep_iff.1 hstep
    obtain ⟨chain', hF'⟩ := forest_step hF hvideo
    have h' : Permitted (video s'.k) s'.mapped := by
      rw [hmapped]
      exact permitted_step h hF hagree hvideo
    have hplaced' : Placed fs (video s'.k) s'.user := by
      rw [huser]
      exact placed_step hplaced hF hserved hvideo
    refine ⟨⟨⟨chain', hF'⟩, h', hplaced'⟩, ?_⟩
    rw [permissionKept_iff hplaced']
    exact fun hhead => h'.agrees hhead (hF'.used_of_mem (hF'.running_mem hhead))
  case lose =>
    rintro s e s' ⟨⟨chain, hF⟩, h, hplaced⟩ ⟨hserved, hstep⟩ hcareless
    obtain ⟨hvideo, hmapped, huser⟩ := mapStep_iff.1 hstep
    obtain ⟨hhead, hdisagrees⟩ := careless_step h hF hcareless hvideo
    have hplaced' : Placed fs (video s'.k) s'.user := by
      rw [huser]
      exact placed_step hplaced hF hserved hvideo
    rw [← hmapped] at hdisagrees
    rw [permissionKept_iff hplaced']
    exact fun hkept => hdisagrees (hkept hhead)

instance (fs : FileSys) (stk command : CStr) :
    Decidable (Runnable fs stk command) :=
  decidable_of_iff
    ((readDentryByName fs (fnamePtr stk (handleCommand command.bytes).1)).any
      (fun d => handleExecuableCheck fs d ≠ FAIL_U32) = true)
    (by simp [Runnable, Option.any_eq_true])

instance (fs : FileSys) (k : Kernel σ) (e : VideoEvent σ) :
    Decidable (Agreeing fs k e) := by
  cases e with
  | execute stk command esp ebp =>
      cases command <;> unfold Agreeing <;> infer_instance
  | halt stk status esp ebp => unfold Agreeing; infer_instance
  | vidmap screenStart => unfold Agreeing; infer_instance
  | pit stk esp ebp espExe ebpExe => unfold Agreeing; infer_instance
  | terminalSwitch t => unfold Agreeing; infer_instance

/-- The sample image before the first process. -/
def idleMap : Mapping Nat := Mapping.start (SampleImage.idleKernel 0)

/-- A step that is served. -/
def servedStep : Mapping Nat → VideoEvent Nat → Option (Mapping Nat) :=
  guardStep (fun s => Served s.k) (mapStep SampleImage.shellImage)

theorem servedStep_sound {s s' : Mapping Nat} {e : VideoEvent Nat}
    (h : servedStep s e = some s') : ServedStep SampleImage.shellImage s e s' := by
  unfold servedStep guardStep at h
  split at h
  · exact ⟨‹_›, h⟩
  · cases h

/-- Where a run of served and agreeing steps ends. -/
def agreeingEnd (es : List (VideoEvent Nat)) : Mapping Nat :=
  (follow (guardStep (fun s => Agreeing SampleImage.shellImage s.k) servedStep)
    idleMap es).getD idleMap

/-- The mapping of terminal 0 stays with its process. -/
theorem displayedMap_permitted :
    (agreeingEnd displayedMap).mapped 3 = true ∧
      Run (Within PermissionKept (ServedStep SampleImage.shellImage)) idleMap
        displayedMap (agreeingEnd displayedMap) := by
  have hrun : Run (Guarded (fun s => Agreeing SampleImage.shellImage s.k)
      (ServedStep SampleImage.shellImage)) idleMap displayedMap
      (agreeingEnd displayedMap) :=
    (follow_guarded servedStep (by decide +kernel)).mono
      fun _ _ _ h => ⟨h.1, servedStep_sound h.2⟩
  exact ⟨by decide +kernel, (permission_follows_process
    (SampleImage.initialised_idleKernel 0)).2 hrun⟩

/-- The base shell of the displayed terminal maps the screen and runs a child,
which halts. -/
def childMap : List (VideoEvent Nat) :=
  List.replicate 3 (.pit ⟨0, []⟩ 10 11 12 13) ++
    [.vidmap 0x08048000, .execute ⟨0, []⟩ (some shellCmd) 20 21]

/-- All six processes are on terminal 1, which is displayed; the innermost maps
the screen, and the PIT turns to terminal 2. -/
def fullMap : List (VideoEvent Nat) :=
  .pit ⟨0, []⟩ 10 11 12 13 ::
    List.replicate 5 (.execute ⟨0, []⟩ (some shellCmd) 20 21) ++
      [.terminalSwitch 1, .vidmap 0x08048000, .pit ⟨0, []⟩ 30 31 32 33]

/-- Where a run ends. -/
def mapEnd (es : List (VideoEvent Nat)) : Mapping Nat :=
  (follow (mapStep SampleImage.shellImage) idleMap es).getD idleMap

/-- In the background the address that `vidmap` returns is not usable; a child
inherits the mapping of its parent; its parent loses it when the child halts;
and a process that the PIT returns to because it has no pid for the next
terminal finds the page of that terminal. -/
theorem permission_not_kept :
    Initialised idleMap.k ∧
      (Run (MapStep SampleImage.shellImage) idleMap hiddenMap
          (mapEnd hiddenMap) ∧
        ¬ PermissionKept (mapEnd hiddenMap)) ∧
      (Run (MapStep SampleImage.shellImage) idleMap childMap
          (mapEnd childMap) ∧
        ¬ PermissionKept (mapEnd childMap)) ∧
      (Run (MapStep SampleImage.shellImage) idleMap
          (childMap ++ [.halt ⟨0, []⟩ 0 30 31])
          (mapEnd (childMap ++ [.halt ⟨0, []⟩ 0 30 31])) ∧
        ¬ PermissionKept (mapEnd (childMap ++ [.halt ⟨0, []⟩ 0 30 31]))) ∧
      Run (MapStep SampleImage.shellImage) idleMap fullMap (mapEnd fullMap) ∧
        (mapEnd fullMap).user = some (1, 6) ∧ ¬ PermissionKept (mapEnd fullMap) := by
  have hruns : ∀ es, (follow (mapStep SampleImage.shellImage) idleMap es).isSome →
      Run (MapStep SampleImage.shellImage) idleMap es (mapEnd es) :=
    fun _ h => follow_run_getD (mapStep SampleImage.shellImage) h
  refine ⟨SampleImage.initialised_idleKernel 0,
    ⟨hruns _ (by decide +kernel), fun hkept => ?hidden⟩,
    ⟨hruns _ (by decide +kernel), fun hkept => ?child⟩,
    ⟨hruns _ (by decide +kernel), fun hkept => ?parent⟩,
    hruns _ (by decide +kernel), by decide +kernel, fun hkept => ?full⟩
  case hidden =>
    obtain ⟨-, hentry⟩ := hkept 1 1 (by decide +kernel)
    exact hentry.2 (by decide +kernel) (by decide +kernel)
  case child =>
    obtain ⟨hterminal, -⟩ := hkept 0 4 (by decide +kernel)
    exact absurd hterminal (by decide +kernel)
  case parent =>
    obtain ⟨-, hentry⟩ := hkept 0 3 (by decide +kernel)
    exact hentry.2 (by decide +kernel) (by decide +kernel)
  case full =>
    obtain ⟨-, hentry⟩ := hkept 1 6 (by decide +kernel)
    exact hentry.2 (by decide +kernel) (by decide +kernel)

end MongOS.Proofs.VideoMap
