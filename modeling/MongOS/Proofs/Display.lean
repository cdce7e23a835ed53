import MongOS.Verified.Run
import MongOS.Proofs.Painting

/-!
# The multiplexed display is three screens

The logical screen of a terminal is the video memory while the terminal is
displayed, and its saved page otherwise.  `Multiplexed` is the invariant: the
video page and the cursor pointers are those of the running terminal, all
cursors are on their screens, and the hardware cursor is the one of the
displayed terminal.

* `delivered_step` — one operation changes the logical screen it is addressed
  to, as a text screen of its own would change, and no other.
* `display_refines_screens` — so every run is a run of three separate screens.
* `output_on_screen` — cursors and stores stay on the screen exactly as long as
  no backspace is output at the origin of a terminal while the running terminal
  is not the displayed one.
-/

namespace MongOS.Proofs.Display

open MongOS.Model
open MongOS.Verified
open MongOS.Verified.TextScreen
open MongOS.Proofs.ScreenFrame
open MongOS.Proofs.Painting

/-! ## Logical screens -/

/-- The physical address of the logical screen of `t`. -/
def pageOf (c : Console) (t : Tid) : Int :=
  if t = c.displayTerminal then VIDEO else (c.multiTerminal t).videoCurPos

/-- The logical screen of `t`, with its cursor. -/
def logical (c : Console) (t : Tid) : Screen Cell :=
  screenAt c (pageOf c t) (c.multiTerminal t).screenX (c.multiTerminal t).screenY

/-- The saved pages are where `init_terminal` put them. -/
def Pages (c : Console) : Prop :=
  ∀ t, (c.multiTerminal t).videoCurPos = VIDEO + (t.val + 1) * PAGE

/-- Output goes to the logical screen of `u`. -/
structure Targets (c : Console) (u : Tid) : Prop where
  cursor : c.screenT = u
  page : base c = pageOf c u

/-- The value `update_cursor` writes for the cursor of `t`. -/
def cursorOf (c : Console) (t : Tid) : Int :=
  (c.multiTerminal t).screenY * NUM_COLS + (c.multiTerminal t).screenX

/-- The invariant of the display. -/
structure Multiplexed (c : Console) : Prop where
  pages : Pages c
  targets : Targets c c.currentTid
  onScreen : ∀ t, Screen.InBounds vga (logical c t)
  cursor : c.cursorPos = cursorOf c c.displayTerminal
  stored : ∀ va ∈ c.stored, OnText va

theorem Pages.congr {c d : Console} (hp : Pages c) (h : input d = input c) :
    Pages d := by
  intro t
  rw [← hp t]
  exact congrFun (congrArg Input.videoCurPos h) t

theorem cur_of_input {c d : Console} (h : input d = input c) :
    d.currentTid = c.currentTid :=
  congrArg Input.cur h

theorem display_of_input {c d : Console} (h : input d = input c) :
    d.displayTerminal = c.displayTerminal :=
  congrArg Input.display h

theorem Targets.shown {c : Console} {u : Tid} (h : Targets c u) :
    shown c = logical c u := by
  rw [Painting.shown, Console.screenX, Console.screenY, h.cursor, h.page]
  rfl

/-- Two logical screens lie in different pages. -/
theorem pageOf_disjoint {c : Console} (hp : Pages c) {t u : Tid} (h : t ≠ u) :
    pageOf c t + PAGE ≤ pageOf c u ∨ pageOf c u + PAGE ≤ pageOf c t := by
  have hne : t.val ≠ u.val := fun hval => h (Fin.ext hval)
  unfold pageOf
  rw [hp t, hp u]
  unfold PAGE VIDEO
  split
  · rename_i ht
    split
    · rename_i hu
      exact absurd (ht.trans hu.symm) h
    · omega
  · split <;> omega

/-- `vid_mem` makes `u` the target of output. -/
theorem targets_vidMem {c : Console} (hp : Pages c) (u : Tid) :
    Targets (vidMem c u) u := by
  refine { cursor := rfl, page := ?_ }
  show (if u ≠ c.displayTerminal then (c.multiTerminal u).videoCurPos / PAGE
    else VIDEO / PAGE) * PAGE = pageOf c u
  unfold pageOf
  rw [hp u, ite_not]
  unfold VIDEO PAGE
  split <;> omega

@[simp] theorem logical_vidMem (c : Console) (u t : Tid) :
    logical (vidMem c u) t = logical c t := (rfl)

@[simp] theorem logical_updateCursor (c : Console) (x y : Int) (t : Tid) :
    logical (updateCursor c x y) t = logical c t := (rfl)

@[simp] theorem logical_showCursor (c : Console) (t : Tid) :
    logical (showCursor c) t = logical c t := by
  unfold showCursor
  split <;> rfl

@[simp] theorem logical_switchConsole (c : Console) (u t : Tid) :
    logical (switchConsole c u) t = logical c t := (rfl)

/-! ## What output does to the logical screens -/

section Output

variable {c d : Console} {s : Screen Cell} {u : Tid}

theorem painted_pages (h : Painted c d s) (hp : Pages c) : Pages d := by
  intro t
  rw [← hp t, h.terminal, Console.setXY]
  by_cases ht : t = c.screenT
  · subst ht
    simp
  · simp [Function.update_of_ne ht]

theorem painted_pageOf (h : Painted c d s) (hp : Pages c) (t : Tid) :
    pageOf d t = pageOf c t := by
  unfold pageOf
  rw [h.display, painted_pages h hp t, hp t]

theorem painted_targets (h : Painted c d s) (hp : Pages c)
    (ht : Targets c u) : Targets d u :=
  { cursor := h.target.trans ht.cursor
    page := by rw [h.base_eq, ht.page, painted_pageOf h hp] }

/-- The screen output goes to is the one that was painted. -/
theorem painted_self (h : Painted c d s) (hp : Pages c)
    (ht : Targets c u) : Screen.Agree vga (logical d u) s := by
  rw [← (painted_targets h hp ht).shown]
  exact h.agree

/-- The other logical screens look as before. -/
theorem painted_other (h : Painted c d s) (hp : Pages c)
    (ht : Targets c u) {t : Tid} (hne : t ≠ u) :
    Screen.Agree vga (logical d t) (logical c t) := by
  have hterminal : d.multiTerminal t = c.multiTerminal t :=
    h.terminal_of_ne (by rwa [ht.cursor])
  have hdisjoint := pageOf_disjoint hp hne
  unfold logical
  rw [hterminal, painted_pageOf h hp]
  refine { x := rfl, y := rfl, cell := ?_ }
  intro i hi hi'
  have hi' : i < 2000 := hi'
  unfold PAGE at hdisjoint
  have hchar := h.outside (pageOf c t + 2 * i) (by rw [ht.page]; omega)
  have hattr := h.outside (pageOf c t + 2 * i + 1) (by rw [ht.page]; omega)
  exact Prod.ext hchar hattr

/-- So all cursors are still on their screens. -/
theorem painted_onScreen (h : Painted c d s) (hp : Pages c)
    (ht : Targets c u) (hs : Screen.InBounds vga s)
    (hin : ∀ t, t ≠ u → Screen.InBounds vga (logical c t)) (t : Tid) :
    Screen.InBounds vga (logical d t) := by
  by_cases htu : t = u
  · subst htu
    exact (painted_self h hp ht).symm.inBounds hs
  · exact (painted_other h hp ht htu).symm.inBounds (hin t htu)

theorem painted_onText (h : Painted c d s) (hc : ∀ va ∈ c.stored, OnText va) :
    ∀ va ∈ d.stored, OnText va := by
  intro va hva
  rcases h.stored va hva with hold | hnew
  · exact hc va hold
  · exact hnew

end Output

/-- The position of a cursor on its screen fits the cursor registers. -/
theorem cursorOf_mod {c : Console} {t : Tid}
    (h : Screen.InBounds vga (logical c t)) :
    cursorOf c t % 2 ^ 16 = cursorOf c t := by
  have hx := h.x_nonneg
  have hx' : (c.multiTerminal t).screenX < 80 := h.x_lt
  have hy := h.y_nonneg
  have hy' : (c.multiTerminal t).screenY < 25 := h.y_lt
  change 0 ≤ (c.multiTerminal t).screenX at hx
  change 0 ≤ (c.multiTerminal t).screenY at hy
  unfold cursorOf NUM_COLS
  omega

/-- A screen that received a byte keeps its cursor in bounds. -/
theorem inBounds_receiveChar {s : Screen Cell} (h : Screen.InBounds vga s)
    (ch : Byte) : Screen.InBounds vga (receiveChar s ch) := by
  unfold receiveChar
  split
  · exact h.erase blankCell
  · split
    · exact h.newline blankCell
    · exact h.write blankCell _

/-! ## The operations of the display -/

/-- What happens to the display: a PIT switch, a byte written by the running
process, a byte echoed by the keyboard, a clear, a change of the displayed
terminal. -/
inductive ScreenEvent
  | switch (t : Tid)
  | putc (ch : Byte)
  | echo (ch : Byte)
  | clear
  | terminal (t : Tid)

def screenStep (c : Console) : ScreenEvent → Console
  | .switch t => switchConsole c t
  | .putc ch => Model.putc c ch
  | .echo ch => displayPutc c ch
  | .clear => Model.clear c
  | .terminal t => terminalSwitch c t

def ScreenStep (c : Console) (e : ScreenEvent) (c' : Console) : Prop :=
  c' = screenStep c e

/-- `ch` is not a backspace at the origin of `t` while the running terminal is
in the background. -/
def KeepsOff (c : Console) (t : Tid) (ch : Byte) : Prop :=
  ch = 8 → (c.multiTerminal t).screenX = 0 → (c.multiTerminal t).screenY = 0 →
    c.displayTerminal = c.currentTid

/-- The condition on an operation. -/
def InPlace (c : Console) : ScreenEvent → Prop
  | .putc ch => KeepsOff c c.currentTid ch
  | .echo ch => KeepsOff c c.displayTerminal ch
  | _ => True

/-- What a screen can receive. -/
inductive Output
  | char (ch : Byte)
  | clear

/-- A separate terminal that receives output. -/
def receive (s : Screen Cell) : Output → Screen Cell
  | .char ch => receiveChar s ch
  | .clear => Screen.wiped blankCell

/-- Which terminal an operation is addressed to, and with which output. -/
def delivery (cur display : Tid) : ScreenEvent → Option (Tid × Output)
  | .putc ch => some (cur, .char ch)
  | .echo ch => some (display, .char ch)
  | .clear => some (display, .clear)
  | _ => none

/-- The screen of `t` after a delivery. -/
def delivered (s : Screen Cell) (t : Tid) : Option (Tid × Output) → Screen Cell
  | some (u, o) => if t = u then receive s o else s
  | none => s

/-- The terminal that runs after an operation. -/
def curAfter (cur : Tid) : ScreenEvent → Tid
  | .switch t => t
  | _ => cur

/-- The terminal that is displayed after an operation. -/
def displayAfter (display : Tid) : ScreenEvent → Tid
  | .terminal t => t
  | _ => display

/-- What one operation does. -/
structure Operated (c : Console) (e : ScreenEvent) (c' : Console) : Prop where
  multiplexed : Multiplexed c'
  cur : c'.currentTid = curAfter c.currentTid e
  display : c'.displayTerminal = displayAfter c.displayTerminal e
  screens : ∀ t, Screen.Agree vga (logical c' t)
    (delivered (logical c t) t (delivery c.currentTid c.displayTerminal e))

/-- Painting the screen of `u` delivers to `u`. -/
theorem painted_delivered {c d : Console} {u : Tid} {o : Output}
    (h : Painted c d (receive (logical c u) o)) (hp : Pages c)
    (ht : Targets c u) (t : Tid) :
    Screen.Agree vga (logical d t)
      (delivered (logical c t) t (some (u, o))) := by
  show Screen.Agree vga _ (if t = u then _ else _)
  by_cases htu : t = u
  · subst htu
    rw [if_pos rfl]
    exact painted_self h hp ht
  · rw [if_neg htu]
    exact painted_other h hp ht htu

/-- A switch follows the terminal that is switched to. -/
theorem operated_switch {c : Console} (h : Multiplexed c) (t : Tid) :
    Operated c (.switch t) (switchConsole c t) where
  multiplexed :=
    { pages := h.pages
      targets := { cursor := rfl, page := (targets_vidMem h.pages t).page }
      onScreen := h.onScreen
      cursor := h.cursor
      stored := h.stored }
  cur := rfl
  display := rfl
  screens _ := .refl _

/-- `putc` by the running process. -/
theorem operated_putc {c : Console} (h : Multiplexed c) {ch : Byte}
    (hplace : KeepsOff c c.currentTid ch) :
    Operated c (.putc ch) (putc c ch) := by
  have hshown := h.targets.shown
  have hin : Screen.InBounds vga (shown c) := hshown ▸ h.onScreen c.currentTid
  have hkeep : ch = 8 → c.screenX = 0 → c.screenY = 0 →
      c.displayTerminal = c.currentTid := by
    rw [Console.screenX, Console.screenY, h.targets.cursor]
    exact hplace
  obtain ⟨d, hputc, hd⟩ := putc_painted c ch hin hkeep
  have hin' := inBounds_receiveChar hin ch
  have htargets : Targets d d.currentTid := by
    rw [hd.cur]
    exact painted_targets hd h.pages h.targets
  have honScreen := painted_onScreen hd h.pages h.targets hin'
    fun t _ => h.onScreen t
  rw [hputc]
  refine
    { multiplexed := ?multiplexed, cur := ?cur, display := ?display
      screens := ?screens }
  case multiplexed =>
    refine
      { pages := (painted_pages hd h.pages).congr (input_showCursor d)
        targets := ?targets, onScreen := ?onScreen, cursor := ?cursor
        stored := ?stored }
    case targets =>
      unfold showCursor
      split <;> exact { cursor := htargets.cursor, page := htargets.page }
    case onScreen =>
      intro t
      rw [logical_showCursor]
      exact honScreen t
    case cursor =>
      unfold showCursor
      split
      · -- the running terminal is displayed, and its cursor is shown
        rename_i hshow
        have hfit := cursorOf_mod (honScreen d.displayTerminal)
        have htid : d.screenT = d.displayTerminal := by
          rw [htargets.cursor, hshow]
        show (d.screenY * NUM_COLS + d.screenX) % 2 ^ 16 = _
        rw [Console.screenY, Console.screenX, htid]
        exact hfit
      · -- the cursor of the displayed terminal has not moved
        rename_i hhide
        have hne : d.displayTerminal ≠ c.screenT := by
          rw [h.targets.cursor, ← hd.cur]
          exact hhide
        rw [hd.cursor, h.cursor, cursorOf, cursorOf, hd.terminal_of_ne hne,
          hd.display]
    case stored =>
      have hd' := painted_onText hd h.stored
      unfold showCursor
      split <;> exact hd'
  case cur => exact (cur_of_input (input_showCursor d)).trans hd.cur
  case display => exact (display_of_input (input_showCursor d)).trans hd.display
  case screens =>
    intro t
    rw [logical_showCursor]
    rw [hshown] at hd
    exact painted_delivered hd h.pages h.targets t

/-- Output to the displayed terminal, after which the cursor is shown and the
video page goes back to the running terminal. -/
theorem operated_display {c d : Console} {e : ScreenEvent} {o : Output}
    (hpages : Pages c)
    (hothers : ∀ t, t ≠ c.displayTerminal →
      Screen.InBounds vga (logical c t))
    (hstored : ∀ va ∈ c.stored, OnText va)
    (hd : Painted (vidMem c c.displayTerminal) d
      (receive (logical c c.displayTerminal) o))
    (hin : Screen.InBounds vga (receive (logical c c.displayTerminal) o))
    (he : delivery c.currentTid c.displayTerminal e =
      some (c.displayTerminal, o))
    (hcur : curAfter c.currentTid e = c.currentTid)
    (hdisplay : displayAfter c.displayTerminal e = c.displayTerminal) :
    Operated c e
      (vidMem (updateCursor d d.screenX d.screenY) c.currentTid) := by
  have hp : Pages (vidMem c c.displayTerminal) := hpages
  have htargets := targets_vidMem hpages c.displayTerminal
  have hpages' : Pages d := painted_pages hd hp
  have honScreen : ∀ t, Screen.InBounds vga (logical d t) :=
    painted_onScreen hd hp htargets hin hothers
  have hstored' := painted_onText hd hstored
  refine
    { multiplexed := ?multiplexed, cur := ?cur, display := ?display
      screens := ?screens }
  case multiplexed =>
    have hvid := targets_vidMem (c := updateCursor d d.screenX d.screenY)
      hpages' c.currentTid
    refine
      { pages := hpages', targets := ?targets, onScreen := honScreen
        cursor := ?cursor, stored := hstored' }
    case targets =>
      show Targets _ d.currentTid
      rw [hd.cur]
      exact hvid
    case cursor =>
      have hfit := cursorOf_mod (honScreen d.displayTerminal)
      have htid : d.screenT = d.displayTerminal :=
        hd.target.trans hd.display.symm
      show (d.screenY * NUM_COLS + d.screenX) % 2 ^ 16 = _
      rw [Console.screenY, Console.screenX, htid]
      exact hfit
  case cur =>
    rw [hcur]
    exact hd.cur
  case display =>
    rw [hdisplay]
    exact hd.display
  case screens =>
    intro t
    rw [he]
    exact painted_delivered hd hp htargets t

theorem updateCursor_showCursor (d : Console) :
    updateCursor (showCursor d) (showCursor d).screenX (showCursor d).screenY =
      updateCursor d d.screenX d.screenY := by
  unfold showCursor
  split <;> rfl

/-- `display_putc` first makes the displayed terminal the target. -/
theorem shown_displayed {c : Console} (hp : Pages c) :
    shown (vidMem c c.displayTerminal) = logical c c.displayTerminal :=
  (targets_vidMem hp c.displayTerminal).shown

/-- `display_putc` paints the displayed screen, shows its cursor and goes back to
the running terminal. -/
theorem displayPutc_painted {c : Console} (hp : Pages c)
    (hin : Screen.InBounds vga (logical c c.displayTerminal)) {ch : Byte}
    (hplace : KeepsOff c c.displayTerminal ch) :
    ∃ d, displayPutc c ch =
        vidMem (updateCursor d d.screenX d.screenY) c.currentTid ∧
      Painted (vidMem c c.displayTerminal) d
        (receiveChar (logical c c.displayTerminal) ch) := by
  have hshown := shown_displayed hp
  obtain ⟨d, hputc, hd⟩ := putc_painted (vidMem c c.displayTerminal) ch
    (hshown ▸ hin) hplace
  rw [hshown] at hd
  have hcur : d.currentTid = c.currentTid := hd.cur
  refine ⟨d, ?_, hd⟩
  unfold displayPutc
  dsimp only
  rw [hputc, updateCursor_showCursor]
  show vidMem (updateCursor d d.screenX d.screenY) d.currentTid = _
  rw [hcur]

/-- The echo of a key. -/
theorem operated_echo {c : Console} (h : Multiplexed c) {ch : Byte}
    (hplace : KeepsOff c c.displayTerminal ch) :
    Operated c (.echo ch) (displayPutc c ch) := by
  have hin := h.onScreen c.displayTerminal
  obtain ⟨d, hputc, hd⟩ := displayPutc_painted h.pages hin hplace
  rw [hputc]
  exact operated_display (e := .echo ch) (o := .char ch) h.pages
    (fun t _ => h.onScreen t) h.stored hd (inBounds_receiveChar hin ch)
    rfl rfl rfl

/-- The loop of `clear` and the move to the origin. -/
theorem painted_wipe (c : Console) :
    Painted c
      (((List.range 2000).foldl (fun c (i : Nat) => putCell c i 32) c).setXY 0 0)
      (Screen.wiped blankCell) := by
  have hblank := painted_blankLoop c 0 (n := 2000) (by decide)
  rw [← List.range_eq_range'] at hblank
  generalize (List.range 2000).foldl (fun c (i : Nat) => putCell c i 32) c = d
    at hblank ⊢
  refine (hblank.trans (painted_setXY d 0 0)).congr
    { x := rfl, y := rfl, cell := ?_ }
  intro i hi hi'
  have hi' : i < 2000 := hi'
  have hcell := hblank.cell i hi hi'
  dsimp only at hcell
  rw [if_pos ⟨by omega, by omega⟩] at hcell
  exact hcell

/-- A clear does not depend on the screen it wipes, so it also starts off the
display. -/
theorem operated_clear {c : Console} (hpages : Pages c)
    (hothers : ∀ t, t ≠ c.displayTerminal →
      Screen.InBounds vga (logical c t))
    (hstored : ∀ va ∈ c.stored, OnText va) :
    Operated c .clear (clear c) := by
  have hwipe := painted_wipe (vidMem c c.displayTerminal)
  unfold clear
  dsimp only
  generalize ((List.range 2000).foldl (fun c (i : Nat) => putCell c i 32)
    (vidMem c c.displayTerminal)).setXY 0 0 = d at hwipe ⊢
  have hcur : d.currentTid = c.currentTid := hwipe.cur
  have hx : d.screenX = 0 := hwipe.screenX
  have hy : d.screenY = 0 := hwipe.screenY
  have hdisplay := operated_display (e := .clear) (o := .clear) hpages hothers
    hstored hwipe (Screen.inBounds_wiped blankCell) rfl rfl rfl
  rw [hx, hy] at hdisplay
  show Operated c .clear (vidMem (updateCursor d 0 0) d.currentTid)
  rw [hcur]
  exact hdisplay

/-! ## `terminal_switch` -/

/-- While the video page maps to itself, one byte of `memcpy` copies physical
memory. -/
theorem copyByte {c : Console} (hmap : c.pageTableVideo = VIDEO / PAGE)
    (a b : Int) :
    c.poke a (c.load b) =
      { c with mem := Function.update c.mem a (c.mem b) } := by
  have hidentity : ∀ va, c.translate va = va := by
    intro va
    unfold Console.translate
    rw [hmap]
    unfold VIDEO PAGE
    split <;> omega
  rw [Console.poke, Console.load, hidentity, hidentity]

/-- The copy loop over `n` bytes, between areas that do not overlap. -/
theorem memcpy_loop {c : Console} (hmap : c.pageTableVideo = VIDEO / PAGE)
    {dest src : Int} {n : Nat} (hn : n ≤ 4096)
    (hdisjoint : dest + PAGE ≤ src ∨ src + PAGE ≤ dest) :
    (List.range n).foldl
        (fun c (i : Nat) => c.poke (dest + i) (c.load (src + i))) c =
      { c with mem := fun a =>
          if dest ≤ a ∧ a < dest + n then c.mem (src + (a - dest))
          else c.mem a } := by
  unfold PAGE at hdisjoint
  induction n with
  | zero =>
      have hsame : (fun a => if dest ≤ a ∧ a < dest + (0 : Nat) then
          c.mem (src + (a - dest)) else c.mem a) = c.mem := by
        funext a
        exact if_neg (by omega)
      rw [hsame]
      rfl
  | succ n ih =>
      rw [List.range_succ, List.foldl_append, ih (by omega)]
      rw [List.foldl_cons, List.foldl_nil, copyByte (by exact hmap)]
      congr 1
      funext a
      rw [Function.update_apply]
      dsimp only
      by_cases hlast : a = dest + n
      · subst hlast
        rw [if_pos rfl, if_neg (by omega), if_pos ⟨by omega, by omega⟩]
        congr 1
        omega
      · rw [if_neg hlast]
        by_cases hin : dest ≤ a ∧ a < dest + n
        · rw [if_pos hin, if_pos ⟨hin.1, by omega⟩]
        · rw [if_neg hin, if_neg (by omega)]

theorem memcpyPage_eq {c : Console} (hmap : c.pageTableVideo = VIDEO / PAGE)
    {dest src : Int} (hdisjoint : dest + PAGE ≤ src ∨ src + PAGE ≤ dest) :
    memcpyPage c dest src =
      { c with mem := fun a =>
          if dest ≤ a ∧ a < dest + PAGE then c.mem (src + (a - dest))
          else c.mem a } :=
  memcpy_loop hmap (Nat.le_refl 4096) hdisjoint

/-- Memory after `terminal_switch`: the video memory is saved to the page of
the terminal that was displayed, and the page of `t` is shown. -/
def swapped (c : Console) (t : Tid) : Int → Byte := fun a =>
  let saved := (c.multiTerminal c.displayTerminal).videoCurPos
  if VIDEO ≤ a ∧ a < VIDEO + PAGE then
    c.mem ((c.multiTerminal t).videoCurPos + (a - VIDEO))
  else if saved ≤ a ∧ a < saved + PAGE then c.mem (VIDEO + (a - saved))
  else c.mem a

theorem terminalSwitch_eq {c : Console} (hp : Pages c) {t : Tid}
    (hne : t ≠ c.displayTerminal) :
    terminalSwitch c t =
      vidMem
        { c with
          mem := swapped c t
          cursorPos := cursorOf c t % 2 ^ 16
          displayTerminal := t }
        c.currentTid := by
  have hval : t.val ≠ c.displayTerminal.val := fun hval => hne (Fin.ext hval)
  have hsaved := hp c.displayTerminal
  have hpage := hp t
  have hmap : ∀ d : Console, (vidMem d d.displayTerminal).pageTableVideo =
      VIDEO / PAGE := fun d => if_neg (not_not.2 rfl)
  unfold terminalSwitch
  rw [if_neg hne]
  dsimp only
  rw [memcpyPage_eq (hmap _) (by rw [hsaved]; unfold VIDEO PAGE; omega),
    memcpyPage_eq (by exact hmap _)
      (by dsimp only [vidMem, updateCursor]; rw [hpage]; unfold VIDEO PAGE; omega)]
  have hmem : (fun a => if VIDEO ≤ a ∧ a < VIDEO + PAGE then
        (if (c.multiTerminal c.displayTerminal).videoCurPos ≤
              (c.multiTerminal t).videoCurPos + (a - VIDEO) ∧
            (c.multiTerminal t).videoCurPos + (a - VIDEO) <
              (c.multiTerminal c.displayTerminal).videoCurPos + PAGE then
          c.mem (VIDEO + ((c.multiTerminal t).videoCurPos + (a - VIDEO) -
            (c.multiTerminal c.displayTerminal).videoCurPos))
        else c.mem ((c.multiTerminal t).videoCurPos + (a - VIDEO)))
      else
        if (c.multiTerminal c.displayTerminal).videoCurPos ≤ a ∧
            a < (c.multiTerminal c.displayTerminal).videoCurPos + PAGE then
          c.mem (VIDEO + (a - (c.multiTerminal c.displayTerminal).videoCurPos))
        else c.mem a) = swapped c t := by
    funext a
    unfold swapped
    dsimp only
    by_cases hvideo : VIDEO ≤ a ∧ a < VIDEO + PAGE
    · -- the first copy has not touched the page of `t`
      rw [if_pos hvideo, if_pos hvideo, if_neg]
      rw [hsaved, hpage]
      unfold VIDEO PAGE at *
      omega
    · rw [if_neg hvideo, if_neg hvideo]
  rw [← hmem]
  unfold vidMem updateCursor
  simp only [Function.update_idem]
  rfl

/-- Swapping the pages together with the displayed terminal leaves every
logical screen as it is. -/
theorem logical_swapped {c : Console} (hp : Pages c) {t : Tid}
    (hne : t ≠ c.displayTerminal) (p : Int) (u : Tid) :
    Screen.Agree vga
      (logical
        { c with mem := swapped c t, cursorPos := p, displayTerminal := t } u)
      (logical c u) := by
  have hval : t.val ≠ c.displayTerminal.val := fun hval => hne (Fin.ext hval)
  have hsaved := hp c.displayTerminal
  have hpage := hp t
  have hold := hp u
  -- byte by byte, on the logical page of `u`
  have hbyte : ∀ o, 0 ≤ o → o < PAGE →
      swapped c t ((if u = t then VIDEO else (c.multiTerminal u).videoCurPos) + o) =
        c.mem (pageOf c u + o) := by
    intro o ho ho'
    unfold swapped pageOf
    dsimp only
    rw [hsaved, hpage, hold]
    unfold PAGE at ho' ⊢
    by_cases hut : u = t
    · -- shown now, from its saved page
      subst hut
      rw [if_pos rfl, if_neg hne, if_pos ⟨by omega, by omega⟩]
      congr 1
      omega
    · rw [if_neg hut]
      have hut' : u.val ≠ t.val := fun hval => hut (Fin.ext hval)
      by_cases hud : u = c.displayTerminal
      · -- saved now, from the video memory
        subst hud
        unfold VIDEO
        rw [if_pos rfl, if_neg (by omega), if_pos ⟨by omega, by omega⟩]
        congr 1
        omega
      · have hud' : u.val ≠ c.displayTerminal.val := fun hval => hud (Fin.ext hval)
        unfold VIDEO
        rw [if_neg hud, if_neg (by omega), if_neg (by omega)]
  refine { x := rfl, y := rfl, cell := ?_ }
  intro i hi hi'
  have hi' : i < 2000 := hi'
  have hchar := hbyte (2 * i) (by omega) (by unfold PAGE; omega)
  have hattr := hbyte (2 * i + 1) (by omega) (by unfold PAGE; omega)
  rw [← Int.add_assoc, ← Int.add_assoc] at hattr
  exact Prod.ext hchar hattr

theorem operated_terminal {c : Console} (h : Multiplexed c) (t : Tid) :
    Operated c (.terminal t) (terminalSwitch c t) := by
  by_cases hne : t = c.displayTerminal
  · have hsame : terminalSwitch c t = c := if_pos hne
    rw [hsame]
    exact { multiplexed := h, cur := rfl, display := hne.symm
            screens := fun _ => .refl _ }
  · rw [terminalSwitch_eq h.pages hne]
    have hlogical := logical_swapped h.pages hne (cursorOf c t % 2 ^ 16)
    have hpages : Pages { c with
        mem := swapped c t
        cursorPos := cursorOf c t % 2 ^ 16
        displayTerminal := t } := h.pages
    refine
      { multiplexed := ?multiplexed, cur := rfl, display := rfl
        screens := hlogical }
    have htargets := targets_vidMem hpages c.currentTid
    exact
      { pages := hpages
        targets := { cursor := rfl, page := htargets.page }
        onScreen := fun u => (hlogical u).symm.inBounds (h.onScreen u)
        cursor := cursorOf_mod (h.onScreen t)
        stored := h.stored }

/-- One operation on the invariant. -/
theorem operated {c : Console} (h : Multiplexed c) {e : ScreenEvent}
    (hplace : InPlace c e) : Operated c e (screenStep c e) := by
  cases e with
  | switch t => exact operated_switch h t
  | putc ch => exact operated_putc h hplace
  | echo ch => exact operated_echo h hplace
  | clear => exact operated_clear h.pages (fun t _ => h.onScreen t) h.stored
  | terminal t => exact operated_terminal h t

/-- The console is multiplexed from boot on. -/
theorem operated_boot (mem : Int → Byte) :
    Operated (unclearedConsole mem) .clear (initTerminal mem) := by
  refine operated_clear ?pages ?others ?stored
  case pages => exact fun t => rfl
  case others =>
    intro t _
    exact ⟨Int.le_refl 0, vga.cols_pos, Int.le_refl 0, vga.rows_pos⟩
  case stored => exact fun va hva => nomatch hva

/-! ## Three separate terminals -/

/-- Which terminal runs, which is displayed, and what each one has received. -/
structure Mux where
  cur : Tid
  display : Tid
  received : Tid → List Output

namespace Mux

/-- Before any operation. -/
def boot : Mux := { cur := 0, display := 0, received := fun _ => [] }

def step (m : Mux) (e : ScreenEvent) : Mux :=
  { cur := curAfter m.cur e
    display := displayAfter m.display e
    received :=
      match delivery m.cur m.display e with
      | some (u, o) => Function.update m.received u (m.received u ++ [o])
      | none => m.received }

end Mux

/-- A terminal of its own, from screen `s` on. -/
def after (s : Screen Cell) (received : List Output) : Screen Cell :=
  received.foldl receive s

/-- The display shows what three separate terminals would. -/
structure Refines (c₀ c : Console) (m : Mux) : Prop where
  cur : c.currentTid = m.cur
  display : c.displayTerminal = m.display
  screens : ∀ t, Screen.Agree vga (logical c t) (after (logical c₀ t) (m.received t))
  mapping : base c = pageOf c c.currentTid
  target : c.screenT = c.currentTid
  cursor : c.cursorPos = cursorOf c c.displayTerminal

/-- Terminals that look the same look the same after the same output. -/
theorem agree_receive {s s' : Screen Cell} (h : Screen.Agree vga s s')
    (o : Output) : Screen.Agree vga (receive s o) (receive s' o) := by
  cases o with
  | clear => exact .refl _
  | char ch =>
      show Screen.Agree vga (receiveChar s ch) (receiveChar s' ch)
      unfold receiveChar
      split
      · exact h.erase blankCell
      · split
        · exact h.newline blankCell
        · exact h.write blankCell _

theorem after_step (m : Mux) (e : ScreenEvent) (s : Screen Cell) (t : Tid) :
    after s ((m.step e).received t) =
      delivered (after s (m.received t)) t (delivery m.cur m.display e) := by
  unfold Mux.step
  dsimp only
  cases delivery m.cur m.display e with
  | none => rfl
  | some uo =>
      obtain ⟨u, o⟩ := uo
      show after s (Function.update m.received u (m.received u ++ [o]) t) =
        if t = u then receive (after s (m.received t)) o
        else after s (m.received t)
      by_cases htu : t = u
      · subst htu
        rw [if_pos rfl, Function.update_self, after, List.foldl_append]
        rfl
      · rw [if_neg htu, Function.update_of_ne htu]

theorem agree_delivered {s s' : Screen Cell} (h : Screen.Agree vga s s')
    (t : Tid) (d : Option (Tid × Output)) :
    Screen.Agree vga (delivered s t d) (delivered s' t d) := by
  cases d with
  | none => exact h
  | some uo =>
      show Screen.Agree vga (if _ then _ else _) (if _ then _ else _)
      split
      · exact agree_receive h _
      · exact h

/-- What the invariant says about the mapping and the cursors. -/
theorem Multiplexed.refines {c₀ c : Console} {m : Mux} (h : Multiplexed c)
    (hcur : c.currentTid = m.cur) (hdisplay : c.displayTerminal = m.display)
    (hscreens : ∀ t,
      Screen.Agree vga (logical c t) (after (logical c₀ t) (m.received t))) :
    Refines c₀ c m where
  cur := hcur
  display := hdisplay
  screens := hscreens
  mapping := h.targets.page
  target := h.targets.cursor
  cursor := h.cursor

/-- One operation is one step of the three terminals. -/
theorem refines_step {c₀ c : Console} {m : Mux} {e : ScreenEvent}
    (h : Multiplexed c) (hr : Refines c₀ c m) (hplace : InPlace c e) :
    Refines c₀ (screenStep c e) (m.step e) := by
  have hop := operated h hplace
  refine hop.multiplexed.refines ?cur ?display ?screens
  case cur =>
    rw [hop.cur, hr.cur]
    rfl
  case display =>
    rw [hop.display, hr.display]
    rfl
  case screens =>
    intro t
    rw [after_step, ← hr.cur, ← hr.display]
    exact (hop.screens t).trans (agree_delivered (hr.screens t) t _)

theorem run_refines {mem : Int → Byte} {es : List ScreenEvent} {c : Console}
    (h : Run (Guarded InPlace ScreenStep) (initTerminal mem) es c) :
    Multiplexed c ∧ Refines (initTerminal mem) c (es.foldl Mux.step Mux.boot) := by
  induction h with
  | nil =>
      have hboot := (operated_boot mem).multiplexed
      have hcur : (initTerminal mem).currentTid = 0 := cur_of_input (input_clear _)
      have hdisplay : (initTerminal mem).displayTerminal = 0 := display_of_input (input_clear _)
      exact ⟨hboot, hboot.refines hcur hdisplay fun _ => .refl _⟩
  | snoc _ hstep ih =>
      obtain ⟨hplace, rfl⟩ := hstep
      rw [List.foldl_append]
      exact ⟨(operated ih.1 hplace).multiplexed,
        refines_step ih.1 ih.2 hplace⟩

/-- After every sequence of operations the display shows three separate screens,
each with exactly the output addressed to it; a change of the displayed terminal
changes none of them. -/
theorem display_refines_screens {mem : Int → Byte} {es : List ScreenEvent}
    {c : Console}
    (h : Run (Guarded InPlace ScreenStep) (initTerminal mem) es c) :
    Refines (initTerminal mem) c (es.foldl Mux.step Mux.boot) ∧
      ∀ t u, Screen.Agree vga (logical (terminalSwitch c t) u) (logical c u) := by
  obtain ⟨hmux, hrefines⟩ := run_refines h
  exact ⟨hrefines, fun t u => (operated_terminal hmux t).screens u⟩

/-- Terminal 1 runs in the background, writes, and is then displayed. -/
def sampleEvents : List ScreenEvent := [.switch 1, .putc 65, .terminal 1]

def sampleEnd : Console :=
  sampleEvents.foldl screenStep (initTerminal fun _ => 0)

theorem guarded_step {c : Console} {e : ScreenEvent} (h : InPlace c e) :
    Guarded InPlace ScreenStep c e (screenStep c e) := ⟨h, rfl⟩

theorem sampleEvents_run (c : Console) :
    Run (Guarded InPlace ScreenStep) c sampleEvents
      (sampleEvents.foldl screenStep c) := by
  have hswitch := Run.single (guarded_step (c := c) (e := .switch 1) trivial)
  have hputc := hswitch.snoc
    (guarded_step (e := .putc 65) fun h => absurd h (by decide))
  unfold sampleEvents
  rw [List.foldl_cons, List.foldl_cons, List.foldl_cons, List.foldl_nil]
  exact hputc.snoc (guarded_step (e := .terminal 1) trivial)

theorem sampleEvents_refine :
    Refines (initTerminal fun _ => 0) sampleEnd
        (sampleEvents.foldl Mux.step Mux.boot) ∧
      ∀ t u, Screen.Agree vga (logical (terminalSwitch sampleEnd t) u)
        (logical sampleEnd u) :=
  display_refines_screens (sampleEvents_run _)

/-! ## Output stays on the screen -/

/-- All cursors are on the screen, and so is everything that was stored. -/
structure OnScreen (c : Console) : Prop where
  x_range : ∀ t, 0 ≤ (c.multiTerminal t).screenX ∧
    (c.multiTerminal t).screenX < NUM_COLS
  y_range : ∀ t, 0 ≤ (c.multiTerminal t).screenY ∧
    (c.multiTerminal t).screenY < NUM_ROWS
  stores : ∀ va ∈ c.stored, VIDEO ≤ va ∧ va < VIDEO + 4000

theorem Multiplexed.offEdge {c : Console} (h : Multiplexed c) : OnScreen c where
  x_range t := ⟨(h.onScreen t).x_nonneg, (h.onScreen t).x_lt⟩
  y_range t := ⟨(h.onScreen t).y_nonneg, (h.onScreen t).y_lt⟩
  stores := h.stored

/-- A backspace at the origin is not caught while the running terminal is in
the background: the cursor leaves the screen, and a blank is stored below the
text area. -/
theorem putc_leaves_screen {c : Console} (hx : c.screenX = 0)
    (hy : c.screenY = 0) (hbackground : c.displayTerminal ≠ c.currentTid) :
    ((putc c 8).multiTerminal c.screenT).screenY = -1 ∧
      VIDEO - 2 ∈ (putc c 8).stored := by
  have hputc : putc c 8 = showCursor (eraseBack (stepBack c)) :=
    putc_backspace c fun h => hbackground h.2.2
  have hback : stepBack c = c.setXY NUM_COLS (c.screenY - 1) := if_pos hx
  have hstays : showCursor (eraseBack (stepBack c)) =
      eraseBack (stepBack c) := by
    have hinput : input (eraseBack (stepBack c)) = input c := by
      rw [input_eraseBack, input_stepBack]
    unfold showCursor
    rw [display_of_input hinput, cur_of_input hinput, if_neg hbackground]
  rw [hputc, hstays, hback, hy]
  unfold eraseBack
  dsimp only
  rw [screenX_setXY, screenY_setXY]
  refine ⟨?_, ?_⟩
  · show Console.screenY (Console.setXY _ _ (Console.screenY (c.setXY _ _))) = -1
    rw [screenY_setXY, screenY_setXY]
    rfl
  · exact List.mem_cons_of_mem _ List.mem_cons_self

/-- So the condition is needed. -/
theorem inPlace_of_onScreen {c : Console} (h : Multiplexed c) {e : ScreenEvent}
    (hscreen : OnScreen (screenStep c e)) : InPlace c e := by
  cases e with
  | switch t => exact trivial
  | clear => exact trivial
  | terminal t => exact trivial
  | putc ch =>
      rintro rfl hx hy
      by_contra hbackground
      rw [← h.targets.cursor] at hx hy
      have hleaves := (putc_leaves_screen hx hy hbackground).1
      have hrange := (hscreen.y_range c.screenT).1
      rw [show screenStep c (.putc 8) = putc c 8 from rfl, hleaves] at hrange
      exact absurd hrange (by decide)
  | echo ch =>
      rintro rfl hx hy
      by_contra hbackground
      have hleaves := (putc_leaves_screen (c := vidMem c c.displayTerminal)
        hx hy hbackground).1
      have hrange := (hscreen.y_range c.displayTerminal).1
      have hsame : ((screenStep c (.echo 8)).multiTerminal
          c.displayTerminal).screenY = -1 := hleaves
      rw [hsame] at hrange
      exact absurd hrange (by decide)

/-- Cursors and stores stay on the screen in every run in which no backspace is
output at the origin of a terminal while the running terminal is in the
background, and an operation keeps them there only if it meets this condition. -/
theorem output_on_screen {mem : Int → Byte} {es : List ScreenEvent}
    {c : Console}
    (h : Run (Guarded InPlace ScreenStep) (initTerminal mem) es c) :
    OnScreen c ∧ ∀ e, OnScreen (screenStep c e) ↔ InPlace c e := by
  have hmux := (run_refines h).1
  refine ⟨hmux.offEdge, fun e => ⟨inPlace_of_onScreen hmux, ?_⟩⟩
  intro hplace
  exact (operated hmux hplace).multiplexed.offEdge

theorem sampleEvents_onScreen :
    OnScreen sampleEnd ∧
      ∀ e, OnScreen (screenStep sampleEnd e) ↔ InPlace sampleEnd e :=
  output_on_screen (sampleEvents_run _)

/-- All cursors start at the origin. -/
theorem initTerminal_origin (mem : Int → Byte) (t : Tid) :
    ((initTerminal mem).multiTerminal t).screenX = 0 ∧
      ((initTerminal mem).multiTerminal t).screenY = 0 := by
  have hscreen := (operated_boot mem).screens t
  have hx := hscreen.x
  have hy := hscreen.y
  unfold delivered delivery at hx hy
  dsimp only at hx hy
  split at hx
  · rw [if_pos ‹_›] at hy
    exact ⟨hx, hy⟩
  · rw [if_neg ‹_›] at hy
    exact ⟨hx, hy⟩

/-- A process in the background whose first output is a backspace. -/
theorem backspace_leaves_screen :
    ∃ c, Run ScreenStep (initTerminal fun _ => 0) [.switch 1, .putc 8] c ∧
      (c.multiTerminal 1).screenY = -1 ∧ VIDEO - 2 ∈ c.stored ∧ ¬OnScreen c := by
  have hdisplay : (initTerminal fun _ => 0).displayTerminal = 0 :=
    display_of_input (input_clear _)
  obtain ⟨hx, hy⟩ := initTerminal_origin (fun _ => 0) 1
  generalize initTerminal (fun _ => 0) = c at hdisplay hx hy ⊢
  have hbackground : (switchConsole c 1).displayTerminal ≠
      (switchConsole c 1).currentTid := by
    show c.displayTerminal ≠ 1
    rw [hdisplay]
    decide
  have hleaves := putc_leaves_screen (c := switchConsole c 1) hx hy hbackground
  have hswitch : Run ScreenStep c [.switch 1] (screenStep c (.switch 1)) :=
    .single rfl
  refine ⟨putc (switchConsole c 1) 8, hswitch.snoc rfl, hleaves.1, hleaves.2, ?_⟩
  intro hscreen
  have hrange := (hscreen.y_range 1).1
  rw [show ((putc (switchConsole c 1) 8).multiTerminal 1).screenY = -1 from
    hleaves.1] at hrange
  exact absurd hrange (by decide)

end MongOS.Proofs.Display
