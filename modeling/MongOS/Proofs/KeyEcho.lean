import MongOS.Proofs.Display
import MongOS.Proofs.LineDiscipline

/-!
# What a key echoes

`keyboard_irq` edits the line buffer of the displayed terminal, and hands what it
echoes to `display_putc`.  The edits and the screen do not meet.

* `keyboardIrq_echo` — a key of the line is an edit, its echo and an edit.
* `SameScreens` — the edits, the modifier keys and reads leave all screens alone.
* `putc_background` — so does a process in the background the displayed screen.
-/

namespace MongOS.Proofs.KeyEcho

open MongOS.Model
open MongOS.Verified
open MongOS.Verified.TextScreen
open MongOS.Verified.LineEditor
open MongOS.Proofs.ScreenFrame
open MongOS.Proofs.Painting
open MongOS.Proofs.Display
open MongOS.Proofs.LineDiscipline

/-! ## What a key echoes -/

/-- The bytes that `keyboard_irq` hands to `display_putc`, Enter and Ctrl-L
apart. -/
def echoOf (b : LineBuffer) : Key Byte → List Byte
  | .char sch =>
      if b.size = FULL_BUFFER then []
      else if sch = TAB then [32, 32, 32, 32]
      else [sch]
  | .backspace =>
      if b.size = 0 then []
      else if b.buffer (b.size - 1) = TAB then
        [BACKSPACE, BACKSPACE, BACKSPACE, BACKSPACE]
      else [BACKSPACE]
  | .silent => if b.size = FULL_BUFFER then [] else [0]
  | _ => []

/-- The edit of the line before the echo. -/
def beforeEcho (c : Console) : Key Byte → Console
  | .char sch =>
      if (lineOf c c.displayTerminal).size = FULL_BUFFER ∨ sch = TAB then c
      else appendChar c sch
  | .silent =>
      if (lineOf c c.displayTerminal).size = FULL_BUFFER then c
      else appendChar c 0
  | _ => c

/-- The edit of the line after the echo, for a line that was `b`. -/
def afterEcho (b : LineBuffer) (c : Console) : Key Byte → Console
  | .char sch =>
      if b.size = FULL_BUFFER ∨ sch ≠ TAB then c else appendChar c TAB
  | .backspace =>
      if b.size = 0 then c
      else
        c.modify c.displayTerminal fun t =>
          { t with bufferSize := t.bufferSize - 1 }
  | _ => c

/-- The console after a key: an edit, the echo, an edit. -/
def echoed (c : Console) (k : Key Byte) : Console :=
  afterEcho (lineOf c c.displayTerminal)
    ((echoOf (lineOf c c.displayTerminal) k).foldl displayPutc (beforeEcho c k)) k

/-- A key that is typed into the line. -/
def Typed : Key Byte → Prop
  | .enter => False
  | .wipe => False
  | _ => True

theorem eraseLast_echo {c : Console}
    (hsize : (lineOf c c.displayTerminal).size ≠ 0) :
    eraseLast c = echoed c .backspace := by
  unfold eraseLast echoed afterEcho echoOf beforeEcho
  dsimp only
  rw [if_neg hsize, if_neg hsize]
  have hlast : (c.multiTerminal c.displayTerminal).keyboardBuffer
      ((c.multiTerminal c.displayTerminal).bufferSize - 1) =
      (lineOf c c.displayTerminal).buffer
        ((lineOf c c.displayTerminal).size - 1) := rfl
  rw [hlast]
  split <;> rfl

/-- On an empty line there is nothing to take back. -/
theorem echo_empty {c : Console}
    (hzero : (lineOf c c.displayTerminal).size = 0) :
    echoed c .backspace = c := by
  unfold echoed afterEcho echoOf
  dsimp only
  rw [if_pos hzero, if_pos hzero]
  rfl

/-- What a character other than Enter means as a key. -/
def keyFor (sch : Byte) : Key Byte :=
  if sch = BACKSPACE then .backspace
  else if sch = 0 then .silent
  else .char sch

/-- A full line takes no more characters. -/
theorem echo_full {c : Console} {sch : Byte}
    (hfull : (lineOf c c.displayTerminal).size = FULL_BUFFER)
    (hback : sch ≠ BACKSPACE) :
    echoed c (keyFor sch) = c := by
  unfold keyFor
  rw [if_neg hback]
  by_cases hnul : sch = 0
  · rw [if_pos hnul]
    unfold echoed echoOf beforeEcho afterEcho
    dsimp only
    rw [if_pos hfull, if_pos hfull]
    rfl
  · rw [if_neg hnul]
    unfold echoed echoOf beforeEcho afterEcho
    dsimp only
    rw [if_pos hfull, if_pos (.inl hfull), if_pos (.inl hfull)]
    rfl

theorem echo_char {c : Console} {sch : Byte}
    (hfull : (lineOf c c.displayTerminal).size ≠ FULL_BUFFER)
    (hback : sch ≠ BACKSPACE) (htab : sch ≠ TAB) :
    echoed c (keyFor sch) =
      displayPutc (appendChar c sch) sch := by
  unfold keyFor
  rw [if_neg hback]
  by_cases hnul : sch = 0
  · rw [if_pos hnul, hnul]
    unfold echoed echoOf beforeEcho afterEcho
    dsimp only
    rw [if_neg hfull, if_neg hfull]
    rfl
  · have hbefore : ¬((lineOf c c.displayTerminal).size = FULL_BUFFER ∨
        sch = TAB) := by tauto
    rw [if_neg hnul]
    unfold echoed echoOf beforeEcho afterEcho
    dsimp only
    rw [if_neg hfull, if_neg htab, if_neg hbefore, if_pos (.inr htab)]
    rfl

theorem echo_tab {c : Console}
    (hfull : (lineOf c c.displayTerminal).size ≠ FULL_BUFFER) :
    echoed c (.char TAB) =
      appendChar (displayPutc (displayPutc (displayPutc (displayPutc c 32) 32)
        32) 32) TAB := by
  have hafter : ¬((lineOf c c.displayTerminal).size = FULL_BUFFER ∨
      TAB ≠ TAB) := by tauto
  unfold echoed echoOf beforeEcho afterEcho
  dsimp only
  rw [if_neg hfull, if_pos rfl, if_neg hafter]
  rw [if_pos (show (lineOf c c.displayTerminal).size = FULL_BUFFER ∨
    TAB = TAB from .inr rfl)]
  rfl

theorem typeChar_echo (c : Console) (sch : Byte) (henter : sch ≠ ENTER_ASCII) :
    typeChar c sch = echoed c (keyFor sch) := by
  have hsize : (c.multiTerminal c.displayTerminal).bufferSize =
      (lineOf c c.displayTerminal).size := rfl
  unfold typeChar
  dsimp only
  rw [hsize, if_neg henter]
  by_cases hback : sch = BACKSPACE
  · subst hback
    have hkey : keyFor BACKSPACE = .backspace := if_pos rfl
    rw [if_pos rfl, hkey]
    by_cases hzero : (lineOf c c.displayTerminal).size = 0
    · have hroom : (lineOf c c.displayTerminal).size ≠ FULL_BUFFER := by
        rw [hzero]
        decide
      rw [if_neg hroom, if_pos rfl, if_pos hzero, echo_empty hzero]
    · rw [if_neg hzero, if_pos rfl, ite_self]
      exact eraseLast_echo hzero
  · rw [if_neg hback, if_neg hback]
    by_cases hfull : (lineOf c c.displayTerminal).size = FULL_BUFFER
    · rw [if_pos hfull, echo_full hfull hback]
    · rw [if_neg hfull]
      by_cases htab : sch = TAB
      · subst htab
        rw [if_pos rfl]
        exact (echo_tab hfull).symm
      · rw [if_neg htab, if_neg henter, echo_char hfull hback htab]

/-- `keyboard_irq` with a key of the line: an edit, the echo, an edit. -/
theorem keyboardIrq_echo {c : Console} {ch : Byte} {k : Key Byte}
    (h : keyAt c ch = some k) (hk : Typed k) :
    keyboardIrq c ch = echoed c k := by
  rw [keyboardIrq_on h]
  obtain ⟨-, -, rfl⟩ := keyAt_some h
  unfold keyOf at hk ⊢
  dsimp only at hk ⊢
  have htype := typeChar_echo c
    (selectChar c.keys (scancodeTable.getD ch.toNat (0, 0)))
  unfold keyFor at htype
  generalize selectChar c.keys (scancodeTable.getD ch.toNat (0, 0)) = sch
    at htype hk ⊢
  by_cases hwipe : c.keys.lCtrl ≠ 0 ∧
      (scancodeTable.getD ch.toNat (0, 0)).1 = 108
  · rw [if_pos hwipe] at hk
    exact hk.elim
  · rw [if_neg hwipe, if_neg hwipe]
    rw [if_neg hwipe] at hk
    by_cases henter : sch = ENTER_ASCII
    · subst henter
      exact hk.elim
    · rw [if_neg henter]
      exact htype henter

/-! ## Edits that leave the screens alone -/

/-- From `c` to `d` no screen, no cursor and no mapping has changed. -/
structure SameScreens (c d : Console) : Prop where
  cur : d.currentTid = c.currentTid
  display : d.displayTerminal = c.displayTerminal
  page : ∀ t, (d.multiTerminal t).videoCurPos = (c.multiTerminal t).videoCurPos
  screen : ∀ t, logical d t = logical c t
  base : base d = base c
  target : d.screenT = c.screenT

/-- An assignment to fields that are not about the screen. -/
def KeepsScreen (f : Terminal → Terminal) : Prop :=
  ∀ r, (f r).screenX = r.screenX ∧ (f r).screenY = r.screenY ∧
    (f r).videoCurPos = r.videoCurPos

namespace SameScreens

variable {c d : Console}

theorem refl (c : Console) : SameScreens c c where
  cur := rfl
  display := rfl
  page _ := rfl
  screen _ := rfl
  base := rfl
  target := rfl

theorem modify (c : Console) (t : Tid) {f : Terminal → Terminal}
    (hf : KeepsScreen f) : SameScreens c (c.modify t f) := by
  have hfields : ∀ u, ((c.modify t f).multiTerminal u).screenX =
        (c.multiTerminal u).screenX ∧
      ((c.modify t f).multiTerminal u).screenY =
        (c.multiTerminal u).screenY ∧
      ((c.modify t f).multiTerminal u).videoCurPos =
        (c.multiTerminal u).videoCurPos := by
    intro u
    by_cases hut : u = t
    · subst hut
      simp only [Console.modify, Function.update_self]
      exact hf _
    · simp only [Console.modify, Function.update_of_ne hut, and_self]
  refine
    { cur := rfl, display := rfl, page := fun u => (hfields u).2.2
      screen := ?screen, base := rfl, target := rfl }
  intro u
  obtain ⟨hx, hy, hpage⟩ := hfields u
  have hpageOf : pageOf (c.modify t f) u = pageOf c u := by
    unfold pageOf
    rw [hpage]
    rfl
  unfold logical
  rw [hx, hy, hpageOf]
  rfl

theorem pages (h : SameScreens c d) (hp : Pages c) : Pages d :=
  fun t => (h.page t).trans (hp t)

theorem targets (h : SameScreens c d) {u : Tid} (ht : Targets c u) :
    Targets d u := by
  refine { cursor := h.target.trans ht.cursor, page := ?_ }
  unfold pageOf
  rw [h.base, ht.page, h.page, h.display]
  rfl

end SameScreens

theorem sameScreens_append (c : Console) (sch : Byte) :
    SameScreens c (appendChar c sch) :=
  .modify c _ fun _ => ⟨rfl, rfl, rfl⟩

theorem sameScreens_before (c : Console) (k : Key Byte) :
    SameScreens c (beforeEcho c k) := by
  unfold beforeEcho
  split
  · split
    · exact .refl c
    · exact sameScreens_append c _
  · split
    · exact .refl c
    · exact sameScreens_append c 0
  · exact .refl c

theorem sameScreens_after (b : LineBuffer) (c : Console) (k : Key Byte) :
    SameScreens c (afterEcho b c k) := by
  unfold afterEcho
  split
  · split
    · exact .refl c
    · exact sameScreens_append c TAB
  · split
    · exact .refl c
    · exact .modify c _ fun _ => ⟨rfl, rfl, rfl⟩
  · exact .refl c

/-- A key that is not one of the line leaves the screens alone, unless it
changes the displayed terminal. -/
theorem getCommandChar_screens {c d : Console} {ch : Byte}
    (h : getCommandChar c ch = some d)
    (hd : d.displayTerminal = c.displayTerminal) : SameScreens c d := by
  have hkeys : ∀ keys, SameScreens c { c with keys := keys } := fun _ =>
    { SameScreens.refl c with }
  have hfunction : ∀ u, d = (if c.keys.lAlt ≠ 0 then terminalSwitch c u else c) →
      SameScreens c d := by
    rintro u rfl
    split at hd
    case isTrue halt =>
      have hu : u = c.displayTerminal :=
        (congrArg Input.display (input_terminalSwitch c u)).symm.trans hd
      rw [if_pos halt, terminalSwitch, if_pos hu]
      exact .refl c
    case isFalse halt =>
      rw [if_neg halt]
      exact .refl c
  unfold getCommandChar at h
  dsimp only at h
  split at h
  case h_11 => cases h; exact hfunction 0 rfl
  case h_12 => cases h; exact hfunction 1 rfl
  case h_13 => cases h; exact hfunction 2 rfl
  case h_15 => cases h
  all_goals cases h; exact hkeys _

theorem keyboardIrq_screens {c : Console} {ch : Byte} (h : keyAt c ch = none)
    (hstays : ∀ d, getCommandChar c ch = some d →
      d.displayTerminal = c.displayTerminal) :
    SameScreens c (keyboardIrq c ch) := by
  rw [keyboardIrq_off h]
  cases hcommand : getCommandChar c ch with
  | some d => exact getCommandChar_screens hcommand (hstays d hcommand)
  | none => exact .refl c

/-! ## Output in the background -/

/-- From `c` to `d` output went through the video page of `c` and to the cursor
of `screenT`: the other cursors stay, and the video memory if the page is
elsewhere. -/
structure Aside (c d : Console) : Prop where
  mapping : d.pageTableVideo = c.pageTableVideo
  target : d.screenT = c.screenT
  terminal : ∀ t, t ≠ c.screenT → d.multiTerminal t = c.multiTerminal t
  memory : c.pageTableVideo ≠ VIDEO / PAGE →
    ∀ a, VIDEO ≤ a → a < VIDEO + PAGE → d.mem a = c.mem a

namespace Aside

variable {c d e : Console}

theorem refl (c : Console) : Aside c c where
  mapping := rfl
  target := rfl
  terminal _ _ := rfl
  memory _ _ _ _ := rfl

theorem trans (h : Aside c d) (h' : Aside d e) : Aside c e where
  mapping := h'.mapping.trans h.mapping
  target := h'.target.trans h.target
  terminal t ht := by
    rw [h'.terminal t (by rwa [h.target]), h.terminal t ht]
  memory hpage a ha ha' := by
    rw [h'.memory (by rwa [h.mapping]) a ha ha', h.memory hpage a ha ha']

theorem foldl {f : Console → Nat → Console} (hf : ∀ c i, Aside c (f c i))
    (l : List Nat) (c : Console) : Aside c (l.foldl f c) := by
  induction l generalizing c with
  | nil => exact refl c
  | cons i l ih => exact (hf c i).trans (ih (f c i))

theorem setXY (c : Console) (x y : Int) : Aside c (c.setXY x y) where
  mapping := rfl
  target := rfl
  terminal _ ht := Function.update_of_ne ht ..
  memory _ _ _ _ := rfl

theorem store (c : Console) (va : Int) (b : Byte) : Aside c (c.store va b) where
  mapping := rfl
  target := rfl
  terminal _ _ := rfl
  memory hpage a ha ha' := by
    have hne : a ≠ c.translate va := by
      unfold Console.translate
      unfold VIDEO PAGE at *
      split <;> omega
    exact Function.update_of_ne hne ..

theorem putCell (c : Console) (i : Int) (ch : Byte) :
    Aside c (putCell c i ch) :=
  (store c _ _).trans (store _ _ _)

theorem moveCell (c : Console) (i : Int) : Aside c (moveCell c i) :=
  (store c _ _).trans (store _ _ _)

theorem scrollDown (c : Console) : Aside c (scrollDown c) :=
  (setXY c _ _).trans
    ((foldl (fun c i => moveCell c i) _ _).trans
      (foldl (fun c i => putCell c i 32) _ _))

theorem updateCursor (c : Console) (x y : Int) : Aside c (updateCursor c x y) :=
  { refl c with }

theorem showCursor (c : Console) : Aside c (showCursor c) := by
  unfold ScreenFrame.showCursor
  split
  · exact updateCursor c _ _
  · exact refl c

theorem stepBack (c : Console) : Aside c (stepBack c) := by
  unfold ScreenFrame.stepBack
  split
  · exact setXY c _ _
  · exact refl c

theorem eraseBack (c : Console) : Aside c (eraseBack c) :=
  (putCell c _ _).trans (setXY _ _ _)

theorem advance (c : Console) (ch : Byte) : Aside c (advance c ch) := by
  have hput : ∀ i x y, Aside c ((Model.putCell c i ch).setXY x y) :=
    fun i x y => (putCell c i ch).trans (setXY _ x y)
  unfold ScreenFrame.advance
  dsimp only
  split
  · exact setXY c _ _
  · split
    · exact (hput _ _ _).trans (setXY _ _ _)
    · exact hput _ _ _

theorem rollUp (c : Console) : Aside c (rollUp c) := by
  unfold ScreenFrame.rollUp
  split
  · exact scrollDown c
  · exact refl c

theorem putc (c : Console) (ch : Byte) : Aside c (putc c ch) := by
  by_cases hch : ch = 8
  · subst hch
    by_cases horigin : c.screenX = 0 ∧ c.screenY = 0 ∧
        c.displayTerminal = c.currentTid
    · rw [putc_backspace_origin c horigin]
      exact showCursor c
    · rw [putc_backspace c horigin]
      exact ((stepBack c).trans (eraseBack _)).trans (showCursor _)
  · rw [putc_char c hch]
    exact ((advance c ch).trans (rollUp _)).trans (showCursor _)

end Aside

/-- Output of a process in the background leaves the displayed screen alone,
wherever the cursor of its own terminal is. -/
theorem putc_background {c : Console} (hp : Pages c)
    (ht : Targets c c.currentTid) (hne : c.currentTid ≠ c.displayTerminal)
    (ch : Byte) :
    Screen.Agree vga (logical (putc c ch) c.displayTerminal)
        (logical c c.displayTerminal) ∧
      Targets (putc c ch) c.currentTid := by
  have haside := Aside.putc c ch
  have hinput := input_putc c ch
  have hpages : Pages (putc c ch) := hp.congr hinput
  have hdisplay : (putc c ch).displayTerminal = c.displayTerminal :=
    display_of_input hinput
  have hpageOf : ∀ t, pageOf (putc c ch) t = pageOf c t := by
    intro t
    unfold pageOf
    rw [hdisplay, hpages t, hp t]
  have helsewhere : c.pageTableVideo ≠ VIDEO / PAGE := by
    have hpage := ht.page
    unfold base pageOf at hpage
    rw [if_neg hne, hp] at hpage
    unfold VIDEO PAGE at *
    omega
  constructor
  · have hterminal := haside.terminal c.displayTerminal
      (by rw [ht.cursor]; exact hne.symm)
    have hvideo : pageOf c c.displayTerminal = VIDEO := if_pos rfl
    unfold logical
    rw [hterminal, hpageOf, hvideo]
    refine { x := rfl, y := rfl, cell := ?_ }
    intro i hi hi'
    have hi' : i < 2000 := hi'
    have hchar := haside.memory helsewhere (VIDEO + 2 * i) (by omega)
      (by unfold PAGE; omega)
    have hattr := haside.memory helsewhere (VIDEO + 2 * i + 1) (by omega)
      (by unfold PAGE; omega)
    exact Prod.ext hchar hattr
  · refine { cursor := haside.target.trans ht.cursor, page := ?_ }
    rw [hpageOf, ← ht.page, base, base, haside.mapping]

end MongOS.Proofs.KeyEcho
