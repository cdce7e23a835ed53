import MongOS.Verified.Scrollback
import MongOS.Proofs.KeyEcho
import MongOS.Proofs.KeyLines

/-!
# The echo of a line

The scrollback of the displayed screen is a tape, on which the line occupies the
cells from its start on, four for a tab and one for any other character.

* `Tracks` — the cursor is some cells behind the start of the line, and what the
  echo has written behind the cursor is blank again; the step lemmas are
  `Tracks.char` and `Tracks.back`, for a key `Tracks.echo`.
* `echo_matches_line` — the cursor is as far from the start as the line is wide;
  once the line is empty it is back, what was echoed is blank, and another
  backspace does nothing.
-/

namespace MongOS.Proofs.EchoLine

open MongOS.Model
open MongOS.Verified
open MongOS.Verified.TextScreen
open MongOS.Verified.LineEditor
open MongOS.Proofs.ScreenFrame
open MongOS.Proofs.Painting
open MongOS.Proofs.Display
open MongOS.Proofs.LineDiscipline
open MongOS.Proofs.KeyBounds
open MongOS.Proofs.KeyLines
open MongOS.Proofs.KeyEcho

/-! ## Output to the displayed screen -/

/-- A console, with the number of scrolls of the displayed screen since the line
was started, and the cells `display_putc` has written since then; their rows are
counted from the row that was the first one at the start. -/
structure Echo where
  con : Console
  scrolls : Int
  written : List Int

/-- The cell that `display_putc` writes. -/
def cellWritten (c : Console) (key : Byte) : Int :=
  let c := vidMem c c.displayTerminal
  if key = 8 then
    NUM_COLS * (stepBack c).screenY + (stepBack c).screenX - 1
  else NUM_COLS * c.screenY + c.screenX

/-- How often `display_putc` calls `scroll_down`. -/
def scrollsBy (c : Console) (key : Byte) : Int :=
  if key ≠ 8 ∧
      (advance (vidMem c c.displayTerminal) key).screenY = NUM_ROWS then 1
  else 0

/-- `display_putc`, noted down. -/
def Echo.put (E : Echo) (key : Byte) : Echo :=
  { con := displayPutc E.con key
    scrolls := E.scrolls + scrollsBy E.con key
    written := (cellWritten E.con key + NUM_COLS * E.scrolls) :: E.written }

theorem cellWritten_back (c : Console) :
    cellWritten c 8 = (logical c c.displayTerminal).index vga - 1 := by
  unfold cellWritten ScreenFrame.stepBack
  dsimp only
  rw [if_pos rfl]
  show _ = 80 * (vidMem c c.displayTerminal).screenY +
    (vidMem c c.displayTerminal).screenX - 1
  unfold NUM_COLS
  split
  case isTrue hx =>
    rw [screenX_setXY, screenY_setXY]
    omega
  case isFalse => rfl

theorem cellWritten_char (c : Console) {key : Byte} (h : key ≠ 8) :
    cellWritten c key = (logical c c.displayTerminal).index vga :=
  if_neg h

theorem scrollsBy_back (c : Console) : scrollsBy c 8 = 0 :=
  if_neg fun h => h.1 rfl

/-- The characters that are written into a cell. -/
def Prints (ch : Byte) : Prop := ch ≠ 8 ∧ ch ≠ 10 ∧ ch ≠ 13

instance decidable_prints (ch : Byte) : Decidable (Prints ch) :=
  inferInstanceAs (Decidable (_ ∧ _))

section Displayed

variable {c : Console}

theorem scrollsBy_char (hp : Pages c)
    (hin : Screen.InBounds vga (logical c c.displayTerminal)) {ch : Byte}
    (hch : Prints ch) :
    scrollsBy c ch = (logical c c.displayTerminal).rolls vga := by
  have hshown := shown_displayed hp
  have hpaint := painted_advance (vidMem c c.displayTerminal) ch (hshown ▸ hin)
  have hbreak : ¬(ch = 10 ∨ ch = 13) := by
    rw [not_or]
    exact hch.2
  rw [if_neg hbreak, hshown] at hpaint
  have hrow := hpaint.screenY
  have hleaves := Screen.forward_leaves
    (s := (logical c c.displayTerminal).put
      ((logical c c.displayTerminal).index vga) (ch, ATTRIB)) { hin with }
  unfold scrollsBy Screen.rolls
  rw [hrow]
  by_cases hroll : (logical c c.displayTerminal).x + 1 = vga.cols ∧
      (logical c c.displayTerminal).y + 1 = vga.rows
  · rw [if_pos hroll, if_pos ⟨hch.1, hleaves.2 hroll⟩]
  · rw [if_neg hroll, if_neg fun h => hroll (hleaves.1 h.2)]

/-- What `display_putc` does to the displayed screen. -/
theorem displayPutc_logical (hp : Pages c)
    (hin : Screen.InBounds vga (logical c c.displayTerminal)) {ch : Byte}
    (hkeep : KeepsOff c c.displayTerminal ch) :
    Screen.Agree vga (logical (displayPutc c ch) c.displayTerminal)
      (receiveChar (logical c c.displayTerminal) ch) := by
  obtain ⟨d, hputc, hd⟩ := displayPutc_painted hp hin hkeep
  have hself := painted_self hd hp (targets_vidMem hp c.displayTerminal)
  rw [hputc]
  exact hself

theorem displayPutc_targets (hp : Pages c) (ch : Byte) :
    Targets (displayPutc c ch) c.currentTid := by
  have hinput : input (updateCursor (putc (vidMem c c.displayTerminal) ch)
      (putc (vidMem c c.displayTerminal) ch).screenX
      (putc (vidMem c c.displayTerminal) ch).screenY) = input c := by
    rw [input_updateCursor, input_putc, input_vidMem]
  have hpages := hp.congr hinput
  have hcur := cur_of_input hinput
  unfold displayPutc
  dsimp only
  rw [hcur]
  exact targets_vidMem hpages c.currentTid

end Displayed

/-! ## The line on the scrollback -/

/-- Where the line starts. -/
def startOf (c : Console) : Int := (logical c c.displayTerminal).index vga

/-- The displayed screen, continued with blanks. -/
def tapeOf (c : Console) (a : Int) : Cell :=
  if a < 2000 then (logical c c.displayTerminal).cell a else blankCell

/-- The cursor is `k` cells behind the start of a line that began on `c₀`; the
echo has written only behind the start, and behind the cursor it has left only
blanks. -/
structure Tracks (c₀ : Console) (E : Echo) (tape : Int → Cell) (k : Int) :
    Prop where
  pages : Pages E.con
  display : E.con.displayTerminal = c₀.displayTerminal
  window : Screen.Window vga blankCell (logical E.con E.con.displayTerminal)
    tape E.scrolls
  place : (logical E.con E.con.displayTerminal).place vga E.scrolls =
    startOf c₀ + k
  scrolled : 0 ≤ E.scrolls
  room : 80 * E.scrolls ≤ startOf c₀
  behind : ∀ a ∈ E.written, startOf c₀ ≤ a ∧ a < 2000 + 80 * E.scrolls
  frame : ∀ a, a ∉ E.written → tape a = tapeOf c₀ a
  clean : ∀ a ∈ E.written, startOf c₀ + k ≤ a → tape a = blankCell

namespace Tracks

variable {c₀ d : Console} {E : Echo} {tape : Int → Cell} {k : Int}

/-- Only the displayed screen counts. -/
theorem congr (h : Tracks c₀ E tape k) (hpages : Pages d)
    (hdisplay : d.displayTerminal = E.con.displayTerminal)
    (hsame : Screen.Agree vga (logical d E.con.displayTerminal)
      (logical E.con E.con.displayTerminal)) :
    Tracks c₀ { E with con := d } tape k :=
  { h with
    pages := hpages
    display := hdisplay.trans h.display
    window := by
      dsimp only
      rw [hdisplay]
      exact h.window.agree hsame
    place := by
      dsimp only
      rw [hdisplay, Screen.place_agree hsame]
      exact h.place }

theorem same (h : Tracks c₀ E tape k) (hs : SameScreens E.con d) :
    Tracks c₀ { E with con := d } tape k := by
  apply h.congr (hs.pages h.pages) hs.display
  rw [hs.screen]
  exact .refl _

/-- The cell `q` is written behind the start, and the screen scrolls by `r`. -/
theorem put (h : Tracks c₀ E tape k) {key : Byte} {q r k' : Int} {v : Cell}
    (hcell : cellWritten E.con key + NUM_COLS * E.scrolls = q)
    (hscrolls : scrollsBy E.con key = r)
    (hwindow : Screen.Window vga blankCell
      (logical (displayPutc E.con key) E.con.displayTerminal)
      (Function.update tape q v) (E.scrolls + r))
    (hplace : (logical (displayPutc E.con key) E.con.displayTerminal).place vga
      (E.scrolls + r) = startOf c₀ + k')
    (hr : 0 ≤ r) (hroom : 80 * (E.scrolls + r) ≤ startOf c₀)
    (hq : startOf c₀ ≤ q ∧ q < 2000 + 80 * E.scrolls)
    (hclean : ∀ a, startOf c₀ + k' ≤ a →
      a = q ∧ v = blankCell ∨ a ≠ q ∧ startOf c₀ + k ≤ a) :
    Tracks c₀ (E.put key) (Function.update tape q v) k' := by
  have hinput := input_displayPutc E.con key
  have hdisplay : (displayPutc E.con key).displayTerminal =
      E.con.displayTerminal := display_of_input hinput
  unfold Echo.put
  rw [hcell, hscrolls]
  refine
    { pages := h.pages.congr hinput, display := hdisplay.trans h.display
      window := ?window, place := ?place, scrolled := ?scrolled, room := hroom
      behind := ?behind, frame := ?frame, clean := ?clean }
  case scrolled =>
    have hscrolled := h.scrolled
    dsimp only
    omega
  case window =>
    dsimp only
    rw [hdisplay]
    exact hwindow
  case place =>
    dsimp only
    rw [hdisplay]
    exact hplace
  case behind =>
    intro a ha
    dsimp only
    rcases List.mem_cons.1 ha with rfl | hold
    · omega
    · have hbehind := h.behind a hold
      omega
  case frame =>
    intro a ha
    obtain ⟨hne, hold⟩ := List.ne_and_not_mem_of_not_mem_cons ha
    rw [Function.update_of_ne hne]
    exact h.frame a hold
  case clean =>
    intro a ha hbehind
    rcases hclean a hbehind with ⟨rfl, rfl⟩ | ⟨hne, hafter⟩
    · exact Function.update_self ..
    · rw [Function.update_of_ne hne]
      exact h.clean a ((List.mem_cons.1 ha).resolve_left hne) hafter

/-- A character goes to the cell of the cursor. -/
theorem char (h : Tracks c₀ E tape k) {ch : Byte} (hch : Prints ch)
    (hk : 0 ≤ k) (hlong : k < 1920) :
    ∃ tape', Tracks c₀ (E.put ch) tape' (k + 1) := by
  have hkeep : KeepsOff E.con E.con.displayTerminal ch :=
    fun heq => absurd heq hch.1
  have hsame := displayPutc_logical h.pages h.window.inBounds hkeep
  have hreceive : receiveChar (logical E.con E.con.displayTerminal) ch =
      (logical E.con E.con.displayTerminal).write vga blankCell (ch, ATTRIB) := by
    rw [receiveChar, if_neg hch.1, if_neg (by rw [not_or]; exact hch.2)]
  rw [hreceive] at hsame
  obtain ⟨hwindow, hplace⟩ := h.window.write (ch, ATTRIB)
  rw [← Screen.place_agree hsame, h.place] at hplace
  have hcell : cellWritten E.con ch + NUM_COLS * E.scrolls =
      (logical E.con E.con.displayTerminal).place vga E.scrolls := by
    rw [cellWritten_char E.con hch.1]
    rfl
  have hlast := Screen.place_of_rolls (z := vga)
    (s := logical E.con E.con.displayTerminal)
  have hrange := Screen.rolls_range (z := vga)
    (logical E.con E.con.displayTerminal)
  have hin := h.window.place_range
  have hrows : vga.cols * vga.rows = 2000 := rfl
  have hcols : vga.cols = 80 := rfl
  rw [h.place, hrows, hcols] at hin
  have hroom := h.room
  refine ⟨_, h.put hcell (scrollsBy_char h.pages h.window.inBounds hch)
    (hwindow.agree hsame) (by rw [hplace]; omega) ?scrolls ?room ?place ?clean⟩
  case scrolls =>
    rcases hrange with hr | hr <;> omega
  case room =>
    rcases hrange with hr | hr
    · rw [hr]
      omega
    · -- the cursor was in the last cell, and the line is not as long as a screen
      have hend := hlast (by rw [hr]; decide) E.scrolls
      rw [h.place, hrows, hcols] at hend
      rw [hr]
      omega
  case place =>
    rw [h.place]
    omega
  case clean =>
    intro a ha
    rw [h.place]
    exact .inr (by omega)

/-- A backspace blanks the cell before the cursor. -/
theorem back (h : Tracks c₀ E tape k) (hk : 0 < k) :
    ∃ tape', Tracks c₀ (E.put 8) tape' (k - 1) := by
  have hroom := h.room
  have hin := h.window.place_range
  have hrows : vga.cols * vga.rows = 2000 := rfl
  have hcols : vga.cols = 80 := rfl
  rw [h.place, hrows, hcols] at hin
  have horigin : vga.cols * E.scrolls <
      (logical E.con E.con.displayTerminal).place vga E.scrolls := by
    rw [h.place, hcols]
    omega
  have hkeep : KeepsOff E.con E.con.displayTerminal 8 := by
    intro _ hx hy
    have hzero : (logical E.con E.con.displayTerminal).place vga E.scrolls =
        80 * (E.con.multiTerminal E.con.displayTerminal).screenY +
          (E.con.multiTerminal E.con.displayTerminal).screenX +
          80 * E.scrolls := rfl
    rw [hx, hy, h.place] at hzero
    omega
  have hsame := displayPutc_logical h.pages h.window.inBounds hkeep
  have hreceive : receiveChar (logical E.con E.con.displayTerminal) 8 =
      (logical E.con E.con.displayTerminal).erase vga blankCell := if_pos rfl
  rw [hreceive] at hsame
  obtain ⟨hwindow, hplace⟩ := h.window.erase horigin
  rw [← Screen.place_agree hsame, h.place] at hplace
  have hcell : cellWritten E.con 8 + NUM_COLS * E.scrolls =
      (logical E.con E.con.displayTerminal).place vga E.scrolls - 1 := by
    rw [cellWritten_back]
    show _ - 1 + 80 * E.scrolls = _ + 80 * E.scrolls - 1
    omega
  have hnext : Screen.Window vga blankCell
      (logical (displayPutc E.con 8) E.con.displayTerminal)
      (Function.update tape
        ((logical E.con E.con.displayTerminal).place vga E.scrolls - 1) blankCell)
      (E.scrolls + 0) := by
    rw [Int.add_zero]
    exact hwindow.agree hsame
  refine ⟨_, h.put hcell (scrollsBy_back E.con) hnext ?back (Int.le_refl 0)
    (by omega) ?place ?clean⟩
  case back =>
    rw [Int.add_zero, hplace]
    omega
  case place =>
    rw [h.place]
    omega
  case clean =>
    intro a ha
    rw [h.place]
    by_cases heq : a = startOf c₀ + k - 1
    · exact .inl ⟨heq, rfl⟩
    · exact .inr (by omega)

/-- A character some times over. -/
theorem chars {ch : Byte} (hch : Prints ch) (n : Nat) :
    ∀ {E tape k}, Tracks c₀ E tape k → 0 ≤ k → k + n ≤ 1920 →
      ∃ tape', Tracks c₀ ((List.replicate n ch).foldl Echo.put E) tape'
        (k + n) := by
  induction n with
  | zero =>
      intro E tape k h _ _
      refine ⟨tape, ?_⟩
      rw [Int.natCast_zero, Int.add_zero]
      exact h
  | succ n ih =>
      intro E tape k h hk hlong
      rw [Int.natCast_succ] at hlong ⊢
      obtain ⟨tape₁, hfirst⟩ := h.char hch hk (by omega)
      obtain ⟨tape₂, hrest⟩ := ih hfirst (by omega) (by omega)
      refine ⟨tape₂, ?_⟩
      have hsum : k + ((n : Int) + 1) = k + 1 + n := by omega
      rw [List.replicate_succ, List.foldl_cons, hsum]
      exact hrest

/-- Some backspaces. -/
theorem backs (n : Nat) :
    ∀ {E tape k}, Tracks c₀ E tape k → (n : Int) ≤ k →
      ∃ tape', Tracks c₀ ((List.replicate n 8).foldl Echo.put E) tape'
        (k - n) := by
  induction n with
  | zero =>
      intro E tape k h _
      refine ⟨tape, ?_⟩
      rw [Int.natCast_zero, Int.sub_zero]
      exact h
  | succ n ih =>
      intro E tape k h hk
      rw [Int.natCast_succ] at hk ⊢
      obtain ⟨tape₁, hfirst⟩ := h.back (by omega)
      obtain ⟨tape₂, hrest⟩ := ih hfirst (by omega)
      refine ⟨tape₂, ?_⟩
      have hdiff : k - ((n : Int) + 1) = k - 1 - n := by omega
      rw [List.replicate_succ, List.foldl_cons, hdiff]
      exact hrest

end Tracks

/-! ## Lines -/

/-- The cells a character of a line takes on the screen. -/
def width (sch : Byte) : Nat := if sch = TAB then 4 else 1

def lineWidth (l : List Byte) : Nat := (l.map width).sum

theorem lineWidth_concat (l : List Byte) (sch : Byte) :
    lineWidth (l ++ [sch]) = lineWidth l + width sch := by
  simp [lineWidth]

theorem width_le (sch : Byte) : width sch ≤ 4 := by
  unfold width
  split <;> decide

theorem lineWidth_le (l : List Byte) : lineWidth l ≤ 4 * l.length := by
  induction l with
  | nil => exact Nat.le_refl 0
  | cons sch l ih =>
      have hwidth := width_le sch
      have hcons : lineWidth (sch :: l) = width sch + lineWidth l := List.sum_cons
      rw [hcons, List.length_cons]
      omega

/-- A line that is not empty ends with its last character. -/
theorem heldLine_last {b : LineBuffer} (h : b.size ≠ 0) :
    heldLine b = heldLine b.shorten ++ [b.buffer (b.size - 1)] := by
  obtain ⟨buffer, size, ready⟩ := b
  cases size with
  | zero => exact absurd rfl h
  | succ n =>
      show (List.range (n + 1)).map buffer = (List.range n).map buffer ++ [buffer n]
      rw [List.range_succ, List.map_append, List.map_singleton]

/-- No row of the table has a newline in it. -/
theorem selectChar_ne_newline (keys : Modifiers) (n : Nat) :
    selectChar keys (scancodeTable.getD n (0, 0)) ≠ 10 := by
  have htable : ∀ row ∈ scancodeTable, row.1 ≠ 10 ∧ row.2 ≠ 10 := by
    have hall : scancodeTable.all (fun row => row.1 != 10 && row.2 != 10) =
        true := by decide
    simpa using hall
  have hrow : (scancodeTable.getD n (0, 0)).1 ≠ 10 ∧
      (scancodeTable.getD n (0, 0)).2 ≠ 10 := by
    rw [List.getD_eq_getElem?_getD]
    by_cases hn : n < scancodeTable.length
    · rw [List.getElem?_eq_getElem hn, Option.getD_some]
      exact htable _ (List.getElem_mem hn)
    · rw [List.getElem?_eq_none (Nat.not_lt.1 hn), Option.getD_none]
      decide
  unfold selectChar
  split
  · split
    · exact hrow.2
    · exact hrow.1
  · split
    · exact hrow.2
    · exact hrow.1

theorem keyAt_prints {c : Console} {ch sch : Byte}
    (h : keyAt c ch = some (.char sch)) : Prints sch := by
  have hnewline := selectChar_ne_newline c.keys ch.toNat
  obtain ⟨-, -, hkey⟩ := keyAt_some h
  unfold keyOf BACKSPACE ENTER_ASCII at hkey
  dsimp only at hkey
  generalize selectChar c.keys (scancodeTable.getD ch.toNat (0, 0)) = b
    at hkey hnewline
  unfold Prints
  grind

namespace Tracks

variable {c₀ : Console} {E : Echo} {tape : Int → Cell} {b : LineBuffer}

/-- The echo of a key follows the edit of the line. -/
theorem echo {k : Key Byte} (h : Tracks c₀ E tape (lineWidth (heldLine b)))
    (hshort : b.size ≤ FULL_BUFFER) (hk : Typed k)
    (hprints : ∀ sch, k = .char sch → Prints sch) :
    ∃ tape', Tracks c₀ ((echoOf b k).foldl Echo.put E) tape'
      (lineWidth (heldLine (lineAfter b k))) := by
  have hwide := lineWidth_le (heldLine b)
  rw [heldLine_length] at hwide
  unfold FULL_BUFFER at hshort
  -- a character is echoed as many times as it is wide
  have happend : ∀ sch ch, Prints ch → ∃ tape', Tracks c₀
      ((List.replicate (width sch) ch).foldl Echo.put E) tape'
      (lineWidth (heldLine (b.append sch))) := by
    intro sch ch hch
    have hwidth := width_le sch
    obtain ⟨tape', hnext⟩ := chars hch (width sch) h (by omega) (by omega)
    refine ⟨tape', ?_⟩
    rw [heldLine_append, lineWidth_concat, Int.natCast_add]
    exact hnext
  cases k with
  | char sch =>
      unfold echoOf lineAfter
      dsimp only
      split
      case isTrue => exact ⟨tape, h⟩
      case isFalse =>
        split
        case isTrue htab =>
          subst htab
          exact happend TAB 32 (by decide)
        case isFalse htab =>
          have hone : [sch] = List.replicate (width sch) sch := by
            rw [width, if_neg htab]
            rfl
          rw [hone]
          exact happend sch sch (hprints sch rfl)
  | silent =>
      unfold echoOf lineAfter
      dsimp only
      split
      case isTrue => exact ⟨tape, h⟩
      case isFalse => exact happend 0 0 (by decide)
  | backspace =>
      unfold echoOf lineAfter
      dsimp only
      by_cases hempty : b.size = 0
      · have hline : heldLine b.shorten = heldLine b := by
          unfold heldLine LineBuffer.shorten
          dsimp only
          rw [hempty]
        rw [if_pos hempty, hline]
        exact ⟨tape, h⟩
      · have hbytes : (if b.buffer (b.size - 1) = TAB then
            [BACKSPACE, BACKSPACE, BACKSPACE, BACKSPACE] else [BACKSPACE]) =
            List.replicate (width (b.buffer (b.size - 1))) 8 := by
          unfold width
          split <;> rfl
        have hline : lineWidth (heldLine b) = lineWidth (heldLine b.shorten) +
            width (b.buffer (b.size - 1)) := by
          rw [heldLine_last hempty, lineWidth_concat]
        rw [if_neg hempty, hbytes]
        obtain ⟨tape', hback⟩ := backs (width (b.buffer (b.size - 1))) h
          (by omega)
        refine ⟨tape', ?_⟩
        have hrest : (lineWidth (heldLine b.shorten) : Int) =
            lineWidth (heldLine b) - width (b.buffer (b.size - 1)) := by omega
        rw [hrest]
        exact hback
  | enter => exact hk.elim
  | wipe => exact hk.elim

end Tracks

/-! ## Runs -/

/-- `keyboard_irq`, noted down. -/
def Echo.key (E : Echo) (ch : Byte) : Echo :=
  match keyAt E.con ch with
  | some k =>
      { (echoOf (lineOf E.con E.con.displayTerminal) k).foldl Echo.put
          { E with con := beforeEcho E.con k } with
        con := keyboardIrq E.con ch }
  | none => { E with con := keyboardIrq E.con ch }

theorem Echo.key_con (E : Echo) (ch : Byte) :
    (E.key ch).con = keyboardIrq E.con ch := by
  unfold Echo.key
  split <;> rfl

/-- Only keys echo. -/
def echoStep (E : Echo) : InputEvent → Option Echo
  | .key ch => some (E.key ch)
  | e => (consoleStep E.con e).map fun c => { E with con := c }

def EchoStep (E : Echo) (e : InputEvent) (E' : Echo) : Prop :=
  echoStep E e = some E'

/-- The line is being typed: the keys are neither Enter nor Ctrl-L, the
displayed terminal stays, and processes write only to other terminals. -/
def Typing (E : Echo) : InputEvent → Prop
  | .key ch => (∀ k, keyAt E.con ch = some k → Typed k) ∧
      ∀ d, getCommandChar E.con ch = some d →
        d.displayTerminal = E.con.displayTerminal
  | .terminal t => t = E.con.displayTerminal
  | .write _ => E.con.currentTid ≠ E.con.displayTerminal
  | _ => True

/-- A line is started on `c`. -/
def Echo.start (c : Console) : Echo := { con := c, scrolls := 0, written := [] }

/-- A console at the start of a line. -/
structure Prompt (c : Console) : Prop where
  pages : Pages c
  targets : Targets c c.currentTid
  onScreen : Screen.InBounds vga (logical c c.displayTerminal)
  empty : (lineOf c c.displayTerminal).size = 0

/-- What typing keeps. -/
structure Kept (c₀ : Console) (E : Echo) : Prop where
  tracks : ∃ tape, Tracks c₀ E tape
    (lineWidth (heldLine (lineOf E.con E.con.displayTerminal)))
  targets : Targets E.con E.con.currentTid
  short : (lineOf E.con E.con.displayTerminal).size ≤ FULL_BUFFER

theorem foldl_put_con (bs : List Byte) (E : Echo) :
    (bs.foldl Echo.put E).con = bs.foldl displayPutc E.con := by
  induction bs generalizing E with
  | nil => rfl
  | cons b bs ih => exact ih (E.put b)

theorem foldl_displayPutc_targets (bs : List Byte) {c : Console}
    (hp : Pages c) (ht : Targets c c.currentTid) :
    Targets (bs.foldl displayPutc c) c.currentTid := by
  induction bs generalizing c with
  | nil => exact ht
  | cons b bs ih =>
      have hinput := input_displayPutc c b
      have hcur : (displayPutc c b).currentTid = c.currentTid :=
        cur_of_input hinput
      rw [List.foldl_cons, ← hcur]
      apply ih (hp.congr hinput)
      rw [hcur]
      exact displayPutc_targets hp b

namespace Kept

variable {c₀ d : Console} {E : Echo}

theorem start (h : Prompt c₀) : Kept c₀ (.start c₀) where
  tracks := by
    have hline : heldLine (lineOf c₀ c₀.displayTerminal) = [] := by
      rw [heldLine, h.empty]
      rfl
    have hwindow : Screen.Window vga blankCell (logical c₀ c₀.displayTerminal)
        (tapeOf c₀) 0 := .start h.onScreen
    refine ⟨tapeOf c₀,
      { pages := h.pages, display := rfl, window := hwindow, place := ?place
        scrolled := Int.le_refl 0, room := ?room, behind := ?behind
        frame := fun _ _ => rfl, clean := ?clean }⟩
    case place =>
      show (logical c₀ c₀.displayTerminal).index vga + vga.cols * 0 =
        startOf c₀ + (lineWidth (heldLine (lineOf c₀ c₀.displayTerminal)) : Int)
      rw [hline, Int.mul_zero]
      rfl
    case room => exact h.onScreen.index_range.1
    case behind => exact fun a ha => absurd ha List.not_mem_nil
    case clean => exact fun a ha => absurd ha List.not_mem_nil
  targets := h.targets
  short := by
    show (lineOf c₀ c₀.displayTerminal).size ≤ FULL_BUFFER
    rw [h.empty]
    exact Nat.zero_le _

/-- Another line and the same screens. -/
theorem same (h : Kept c₀ E) (hs : SameScreens E.con d)
    (hline : ∀ t, (lineOf d t).buffer = (lineOf E.con t).buffer ∧
      (lineOf d t).size = (lineOf E.con t).size) :
    Kept c₀ { E with con := d } := by
  have hheld : heldLine (lineOf d d.displayTerminal) =
      heldLine (lineOf E.con E.con.displayTerminal) := by
    rw [heldLine, (hline _).1, (hline _).2, hs.display]
    rfl
  obtain ⟨tape, htracks⟩ := h.tracks
  refine { tracks := ⟨tape, ?_⟩, targets := ?_, short := ?_ }
  · dsimp only
    rw [hheld]
    exact htracks.same hs
  · dsimp only
    rw [hs.cur]
    exact hs.targets h.targets
  · dsimp only
    rw [(hline _).2, hs.display]
    exact h.short

/-- A key of the line. -/
theorem type (h : Kept c₀ E) {ch : Byte} {k : Key Byte}
    (hkey : keyAt E.con ch = some k) (hk : Typed k) : Kept c₀ (E.key ch) := by
  obtain ⟨tape, htracks⟩ := h.tracks
  have hedit := keyboardIrq_some hkey
  have hecho := keyboardIrq_echo hkey hk
  have hbefore := sameScreens_before E.con k
  have hprints : ∀ sch, k = .char sch → Prints sch := by
    rintro sch rfl
    exact keyAt_prints hkey
  obtain ⟨tape', hnext⟩ := (htracks.same hbefore).echo h.short hk hprints
  have hcon := foldl_put_con (echoOf (lineOf E.con E.con.displayTerminal) k)
    { E with con := beforeEcho E.con k }
  have hafter : SameScreens
      ((echoOf (lineOf E.con E.con.displayTerminal) k).foldl Echo.put
        { E with con := beforeEcho E.con k }).con (keyboardIrq E.con ch) := by
    rw [hcon, hecho]
    exact sameScreens_after _ _ k
  have hline : lineOf (keyboardIrq E.con ch)
      (keyboardIrq E.con ch).displayTerminal =
      lineAfter (lineOf E.con E.con.displayTerminal) k := by
    rw [hedit.display]
    exact hedit.line
  unfold Echo.key
  rw [hkey]
  refine { tracks := ⟨tape', ?_⟩, targets := ?_, short := ?_ }
  · dsimp only
    rw [hline]
    exact hnext.same hafter
  · have htargets := foldl_displayPutc_targets
      (echoOf (lineOf E.con E.con.displayTerminal) k)
      (hbefore.pages htracks.pages) (hbefore.cur ▸ hbefore.targets h.targets)
    dsimp only
    rw [hcon] at hafter
    rw [hedit.cur, ← hbefore.cur]
    exact hafter.targets htargets
  · dsimp only
    rw [hline]
    exact lineAfter_size h.short k

/-- One event. -/
theorem step (h : Kept c₀ E) {e : InputEvent} {E' : Echo} (he : Typing E e)
    (hstep : EchoStep E e E') : Kept c₀ E' := by
  obtain ⟨tape, htracks⟩ := h.tracks
  unfold EchoStep echoStep at hstep
  cases e with
  | key ch =>
      cases hstep
      obtain ⟨htyped, hstays⟩ := he
      cases hkey : keyAt E.con ch with
      | some k => exact h.type hkey (htyped k hkey)
      | none =>
          have hlines := (keyboardIrq_none hkey).1
          unfold Echo.key
          rw [hkey]
          refine h.same (keyboardIrq_screens hkey hstays) fun t => ?_
          rw [hlines t]
          exact ⟨rfl, rfl⟩
  | terminal t =>
      cases hstep
      have hsame : terminalSwitch E.con t = E.con := if_pos he
      rw [hsame]
      exact h
  | switch t =>
      cases hstep
      have htargets := targets_vidMem htracks.pages t
      exact
        { tracks := ⟨tape, htracks.congr htracks.pages rfl (.refl _)⟩
          targets := { cursor := rfl, page := htargets.page }
          short := h.short }
  | write ch =>
      cases hstep
      have hinput := input_putc E.con ch
      have hdisplay := display_of_input hinput
      have hlines := lineOf_of_input hinput
      obtain ⟨hscreen, htargets⟩ :=
        putc_background htracks.pages h.targets he ch
      refine { tracks := ⟨tape, ?_⟩, targets := ?_, short := ?_ }
      · dsimp only
        rw [hdisplay, hlines]
        exact htracks.congr (htracks.pages.congr hinput) hdisplay hscreen
      · dsimp only
        rw [cur_of_input hinput]
        exact htargets
      · dsimp only
        rw [hdisplay, hlines]
        exact h.short
  | read buf nbytes =>
      obtain ⟨d, hread, rfl⟩ := Option.map_eq_some_iff.1 hstep
      have hread : ConsoleStep E.con (.read buf nbytes) d := hread
      obtain ⟨r, hr, rfl⟩ := Option.map_eq_some_iff.1 hread
      refine h.same ?_ fun t => hread.line_kept (fun hkey => hkey) t
      rw [(readTerminal_ready hr).2]
      exact .modify E.con _ fun _ => ⟨rfl, rfl, rfl⟩

end Kept

/-- The echo agrees with the line that was started on `c₀`. -/
structure Echoes (c₀ : Console) (E : Echo) : Prop where
  display : E.con.displayTerminal = c₀.displayTerminal
  /-- the cursor is on the screen -/
  onScreen : Screen.InBounds vga (logical E.con c₀.displayTerminal)
  /-- it has advanced by the width of the line -/
  advanced :
    NUM_COLS * ((E.con.multiTerminal c₀.displayTerminal).screenY + E.scrolls) +
        (E.con.multiTerminal c₀.displayTerminal).screenX =
      NUM_COLS * (c₀.multiTerminal c₀.displayTerminal).screenY +
        (c₀.multiTerminal c₀.displayTerminal).screenX +
        lineWidth (heldLine (lineOf E.con c₀.displayTerminal))
  /-- the cells before the start are as they were -/
  prompt : ∀ i, 0 ≤ i → i + NUM_COLS * E.scrolls < startOf c₀ →
    (logical E.con c₀.displayTerminal).cell i =
      (logical c₀ c₀.displayTerminal).cell (i + NUM_COLS * E.scrolls)
  /-- with an empty line the cursor is back at the start -/
  home : (lineOf E.con c₀.displayTerminal).size = 0 →
    (E.con.multiTerminal c₀.displayTerminal).screenX =
        (c₀.multiTerminal c₀.displayTerminal).screenX ∧
      (E.con.multiTerminal c₀.displayTerminal).screenY + E.scrolls =
        (c₀.multiTerminal c₀.displayTerminal).screenY
  /-- everything that was written is blank -/
  blank : (lineOf E.con c₀.displayTerminal).size = 0 → ∀ a ∈ E.written,
    0 ≤ a - NUM_COLS * E.scrolls ∧ a - NUM_COLS * E.scrolls < 2000 ∧
      (logical E.con c₀.displayTerminal).cell (a - NUM_COLS * E.scrolls) =
        blankCell
  /-- and a backspace changes nothing -/
  stays : (lineOf E.con c₀.displayTerminal).size = 0 → ∀ ch,
    keyAt E.con ch = some .backspace → keyboardIrq E.con ch = E.con

theorem Kept.echoes {c₀ : Console} {E : Echo} (h₀ : Prompt c₀)
    (h : Kept c₀ E) : Echoes c₀ E := by
  obtain ⟨tape, htracks⟩ := h.tracks
  have hdisplay := htracks.display
  have hwindow := htracks.window
  have hplace := htracks.place
  rw [hdisplay] at hwindow hplace
  have hscrolled := htracks.scrolled
  have hroom := htracks.room
  have hstart := h₀.onScreen.index_range.2
  have hcells : startOf c₀ < 2000 := hstart
  have hrow : NUM_COLS * E.scrolls = 80 * E.scrolls := rfl
  -- an empty line has no width
  have hempty : (lineOf E.con c₀.displayTerminal).size = 0 →
      lineWidth (heldLine (lineOf E.con c₀.displayTerminal)) = 0 := by
    intro hzero
    rw [heldLine, hzero]
    rfl
  refine
    { display := hdisplay, onScreen := hwindow.inBounds, advanced := ?advanced
      prompt := ?prompt, home := ?home, blank := ?blank, stays := ?stays }
  case advanced =>
    have hfrom : (logical E.con c₀.displayTerminal).place vga E.scrolls =
        80 * (E.con.multiTerminal c₀.displayTerminal).screenY +
          (E.con.multiTerminal c₀.displayTerminal).screenX +
          80 * E.scrolls := rfl
    have hto : startOf c₀ =
        80 * (c₀.multiTerminal c₀.displayTerminal).screenY +
          (c₀.multiTerminal c₀.displayTerminal).screenX := rfl
    unfold NUM_COLS
    omega
  case prompt =>
    intro i hi hbefore
    rw [hrow] at hbefore ⊢
    have hfresh : i + 80 * E.scrolls ∉ E.written := by
      intro hmem
      have hbehind := (htracks.behind _ hmem).1
      omega
    have hcell := hwindow.cell i hi (show i < 2000 by omega)
    have htape := htracks.frame _ hfresh
    rw [tapeOf, if_pos (by omega)] at htape
    exact hcell.trans htape
  case home =>
    intro hzero
    rw [hempty hzero, Int.natCast_zero, Int.add_zero] at hplace
    refine Screen.home h₀.onScreen hwindow.inBounds (hplace.trans ?_)
    unfold Screen.place
    rw [Int.mul_zero, Int.add_zero]
    rfl
  case blank =>
    intro hzero a ha
    obtain ⟨hlow, hhigh⟩ := htracks.behind a ha
    have hclean := htracks.clean a ha
    rw [hdisplay, hempty hzero, Int.natCast_zero, Int.add_zero] at hclean
    have hcell := hwindow.cell (a - 80 * E.scrolls) (by omega)
      (show a - 80 * E.scrolls < 2000 by omega)
    have hsum : a - 80 * E.scrolls + vga.cols * E.scrolls = a := by
      show a - 80 * E.scrolls + 80 * E.scrolls = a
      omega
    rw [hsum, hclean hlow] at hcell
    rw [hrow]
    exact ⟨by omega, by omega, hcell⟩
  case stays =>
    intro hzero ch hkey
    rw [← hdisplay] at hzero
    rw [keyboardIrq_echo hkey trivial, echo_empty hzero]

/-- Whatever is typed at a prompt, and whichever terminals run meanwhile, the
echo agrees with the line. -/
theorem echo_matches_line {c₀ : Console} {es : List InputEvent} {E : Echo}
    (h₀ : Prompt c₀) (h : Run (Guarded Typing EchoStep) (.start c₀) es E) :
    Echoes c₀ E := by
  have hkept : Kept c₀ E :=
    h.invariant (Kept c₀) (.start h₀) fun _ _ _ hE hstep =>
      hE.step hstep.1 hstep.2
  exact hkept.echoes h₀

theorem prompt_boot (mem : Int → Byte) : Prompt (initTerminal mem) := by
  have hmux := (operated_boot mem).multiplexed
  have hline : lineOf (initTerminal mem) (initTerminal mem).displayTerminal =
      lineOf (unclearedConsole mem) (initTerminal mem).displayTerminal :=
    lineOf_of_input (input_clear _) _
  refine
    { pages := hmux.pages, targets := hmux.targets
      onScreen := hmux.onScreen _, empty := ?_ }
  rw [hline]
  rfl

theorem typing_key {E : Echo} {ch : Byte} {k : Key Byte}
    (h : keyAt E.con ch = some k) (hk : Typed k) : Typing E (.key ch) := by
  have hnone := (keyAt_some h).1
  constructor
  · intro k' hk'
    rw [h] at hk'
    cases hk'
    exact hk
  · intro d hd
    rw [hnone] at hd
    cases hd

theorem stands_tab : Stands 0x0F (.char TAB) := by
  intro c h
  unfold keyAt
  rw [h]
  rfl

theorem stands_backspace : Stands 0x0E .backspace := by
  intro c h
  unfold keyAt
  rw [h]
  rfl

/-- A tab, and a backspace that takes it back. -/
theorem echo_matches_line_tab :
    ∃ E, Run (Guarded Typing EchoStep) (.start (initTerminal fun _ => 0))
        [.key 0x0F, .key 0x0E] E ∧
      Echoes (initTerminal fun _ => 0) E := by
  have hprompt := prompt_boot fun _ => 0
  have hkeys : (initTerminal fun _ => 0).keys =
      { capsLock := 0, lrShift := 0, lCtrl := 0, lAlt := 0, capsOn := 0 } :=
    (AtTerminal0.boot fun _ => 0).keys
  generalize initTerminal (fun _ => 0) = c₀ at hprompt hkeys ⊢
  have htab : keyAt (Echo.start c₀).con 0x0F = some (.char TAB) :=
    stands_tab c₀ hkeys
  have hback : keyAt ((Echo.start c₀).key 0x0F).con 0x0E = some .backspace := by
    rw [Echo.key_con]
    exact stands_backspace _ ((keyboardIrq_some htab).keys.trans hkeys)
  have hfirst : Run (Guarded Typing EchoStep) (.start c₀) [.key 0x0F]
      ((Echo.start c₀).key 0x0F) :=
    .single ⟨typing_key htab trivial, rfl⟩
  have hrun := hfirst.snoc ⟨typing_key hback trivial, rfl⟩
  exact ⟨_, hrun, echo_matches_line hprompt hrun⟩

end MongOS.Proofs.EchoLine
