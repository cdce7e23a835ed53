import MongOS.Model.Keyboard

/-!
# What screen output leaves alone

The output functions move cursors, write to video memory and retarget the video
page.  They keep everything else of the console: the line buffers and ready
flags, the running pids, the saved-page addresses, the modifiers and the two
current terminals.  `input` collects these fields, and each function has one
equation about it.
-/

namespace MongOS.Proofs.ScreenFrame

open MongOS.Model

/-- The console without its screens. -/
@[ext] structure Input where
  buffer : Tid → Nat → Byte
  size : Tid → Nat
  ready : Tid → Bool
  videoCurPos : Tid → Int
  vidmap : Tid → Nat
  running : Tid → Int
  cur : Tid
  display : Tid
  keys : Modifiers

def input (c : Console) : Input :=
  { buffer := fun t => (c.multiTerminal t).keyboardBuffer
    size := fun t => (c.multiTerminal t).bufferSize
    ready := fun t => (c.multiTerminal t).terminalEnable
    videoCurPos := fun t => (c.multiTerminal t).videoCurPos
    vidmap := fun t => (c.multiTerminal t).vidmap
    running := fun t => (c.multiTerminal t).runningPid
    cur := c.currentTid
    display := c.displayTerminal
    keys := c.keys }

/-- A loop keeps what its body keeps. -/
theorem foldl_keeps {α β γ : Type} (view : β → γ) (f : β → α → β)
    (h : ∀ b a, view (f b a) = view b) (l : List α) (b : β) :
    view (l.foldl f b) = view b := by
  induction l generalizing b with
  | nil => rfl
  | cons a l ih => rw [List.foldl_cons, ih, h]

@[simp] theorem input_setXY (c : Console) (x y : Int) :
    input (c.setXY x y) = input c := by
  have hfield : ∀ {γ : Type} (proj : Terminal → γ) (t : Tid),
      (∀ r : Terminal, proj { r with screenX := x, screenY := y } = proj r) →
      proj ((c.setXY x y).multiTerminal t) = proj (c.multiTerminal t) := by
    intro γ proj t hproj
    by_cases ht : t = c.screenT
    · subst ht
      simp [Console.setXY, hproj]
    · simp [Console.setXY, Function.update_of_ne ht]
  refine Input.ext ?_ ?_ ?_ ?_ ?_ ?_ rfl rfl rfl
  · exact funext fun t => hfield Terminal.keyboardBuffer t fun _ => rfl
  · exact funext fun t => hfield Terminal.bufferSize t fun _ => rfl
  · exact funext fun t => hfield Terminal.terminalEnable t fun _ => rfl
  · exact funext fun t => hfield Terminal.videoCurPos t fun _ => rfl
  · exact funext fun t => hfield Terminal.vidmap t fun _ => rfl
  · exact funext fun t => hfield Terminal.runningPid t fun _ => rfl

@[simp] theorem input_poke (c : Console) (va : Int) (b : Byte) :
    input (c.poke va b) = input c := (rfl)

@[simp] theorem input_store (c : Console) (va : Int) (b : Byte) :
    input (c.store va b) = input c := (rfl)

@[simp] theorem input_updateCursor (c : Console) (x y : Int) :
    input (updateCursor c x y) = input c := (rfl)

@[simp] theorem input_putCell (c : Console) (i : Int) (ch : Byte) :
    input (putCell c i ch) = input c := (rfl)

@[simp] theorem input_moveCell (c : Console) (i : Int) :
    input (moveCell c i) = input c := (rfl)

@[simp] theorem input_scrollDown (c : Console) :
    input (scrollDown c) = input c := by
  unfold scrollDown
  dsimp only
  rw [foldl_keeps input _ (fun c (i : Nat) => input_putCell c i 32),
    foldl_keeps input _ (fun c (i : Nat) => input_moveCell c i), input_setXY]

/-! ## The steps of `putc` -/

/-- Backspace in the first column goes behind the end of the line above. -/
def stepBack (c : Console) : Console :=
  if c.screenX = 0 then c.setXY NUM_COLS (c.screenY - 1) else c

/-- Blank the cell before the cursor and go there. -/
def eraseBack (c : Console) : Console :=
  let c := putCell c (NUM_COLS * c.screenY + c.screenX - 1) 32
  c.setXY (c.screenX - 1) c.screenY

/-- Store a character and advance the cursor. -/
def advance (c : Console) (ch : Byte) : Console :=
  if ch = 10 ∨ ch = 13 then c.setXY 0 (c.screenY + 1)
  else
    let c := putCell c (NUM_COLS * c.screenY + c.screenX) ch
    let c := c.setXY (c.screenX + 1) c.screenY
    if c.screenX ≥ NUM_COLS then
      c.setXY (c.screenX % NUM_COLS) (c.screenY + 1)
    else c

/-- Scroll when the cursor has left the last row. -/
def rollUp (c : Console) : Console :=
  if c.screenY = NUM_ROWS then scrollDown c else c

/-- The cursor registers follow the running terminal while it is displayed. -/
def showCursor (c : Console) : Console :=
  if c.displayTerminal = c.currentTid then updateCursor c c.screenX c.screenY
  else c

theorem putc_backspace (c : Console)
    (h : ¬(c.screenX = 0 ∧ c.screenY = 0 ∧ c.displayTerminal = c.currentTid)) :
    putc c 8 = showCursor (eraseBack (stepBack c)) := by
  rw [putc, if_pos rfl, if_neg h]
  rfl

theorem putc_backspace_origin (c : Console)
    (h : c.screenX = 0 ∧ c.screenY = 0 ∧ c.displayTerminal = c.currentTid) :
    putc c 8 = showCursor c := by
  rw [putc, if_pos rfl, if_pos h, showCursor, if_pos h.2.2]

theorem putc_char (c : Console) {ch : Byte} (h : ch ≠ 8) :
    putc c ch = showCursor (rollUp (advance c ch)) := by
  rw [putc, if_neg h]
  simp only [ne_eq, ite_not]
  rfl

@[simp] theorem input_stepBack (c : Console) : input (stepBack c) = input c := by
  unfold stepBack
  split <;> simp

@[simp] theorem input_eraseBack (c : Console) :
    input (eraseBack c) = input c := by
  simp [eraseBack]

@[simp] theorem input_advance (c : Console) (ch : Byte) :
    input (advance c ch) = input c := by
  unfold advance
  dsimp only
  split
  · simp
  · split <;> simp

@[simp] theorem input_rollUp (c : Console) : input (rollUp c) = input c := by
  unfold rollUp
  split <;> simp

@[simp] theorem input_showCursor (c : Console) :
    input (showCursor c) = input c := by
  unfold showCursor
  split <;> simp

@[simp] theorem input_putc (c : Console) (ch : Byte) :
    input (putc c ch) = input c := by
  by_cases hch : ch = 8
  · subst hch
    by_cases horigin : c.screenX = 0 ∧ c.screenY = 0 ∧
        c.displayTerminal = c.currentTid
    · rw [putc_backspace_origin c horigin, input_showCursor]
    · rw [putc_backspace c horigin, input_showCursor, input_eraseBack,
        input_stepBack]
  · rw [putc_char c hch, input_showCursor, input_rollUp, input_advance]

/-! ## The other functions -/

@[simp] theorem input_vidMem (c : Console) (t : Tid) :
    input (vidMem c t) = input c := (rfl)

@[simp] theorem input_clear (c : Console) : input (clear c) = input c := by
  unfold clear
  dsimp only
  rw [input_vidMem, input_updateCursor, input_setXY,
    foldl_keeps input _ (fun c (i : Nat) => input_putCell c i 32), input_vidMem]

@[simp] theorem input_memcpyPage (c : Console) (dest src : Int) :
    input (memcpyPage c dest src) = input c :=
  foldl_keeps input _ (fun c _ => input_poke c _ _) _ c

theorem input_setDisplay (c : Console) (t : Tid) :
    input { c with displayTerminal := t } = { input c with display := t } := rfl

theorem input_setScreenT (c : Console) (t : Tid) :
    input { c with screenT := t } = input c := rfl

/-- `terminal_switch` changes the displayed terminal. -/
@[simp] theorem input_terminalSwitch (c : Console) (t : Tid) :
    input (terminalSwitch c t) = { input c with display := t } := by
  unfold terminalSwitch
  by_cases ht : t = c.displayTerminal
  · rw [if_pos ht, ht]
    rfl
  · rw [if_neg ht, input_vidMem, input_setDisplay, input_memcpyPage,
      input_memcpyPage, input_vidMem, input_updateCursor, input_setScreenT]

@[simp] theorem input_displayPutc (c : Console) (key : Byte) :
    input (displayPutc c key) = input c := by
  unfold displayPutc
  dsimp only
  rw [input_vidMem, input_updateCursor, input_putc, input_vidMem]

/-- A switch changes the running terminal. -/
@[simp] theorem input_switchConsole (c : Console) (t : Tid) :
    input (switchConsole c t) = { input c with cur := t } := rfl

@[simp] theorem input_writeTerminal (c : Console) (buf : Nat → Byte)
    (nbytes : Int) : input (writeTerminal c buf nbytes).1 = input c :=
  foldl_keeps input _ (fun c _ => input_putc c _) _ c

end MongOS.Proofs.ScreenFrame
