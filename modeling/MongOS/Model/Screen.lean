import MongOS.Model.Types

/-!
# Screen output and terminal multiplexing (`lib.c`, `keyboard.c`, `cursor.c`)

All output goes through the virtual video page at `VIDEO`, which
`page_table[0xB8]` maps either to the video memory or to the saved page of a
terminal; `screen_xt` and `screen_yt` point to the cursor the output moves.
`vid_mem` retargets both.  The other pages below 4 MB are mapped to
themselves.
-/

namespace MongOS.Model

def VIDEO : Int := 0xB8000
def PAGE : Int := 0x1000
def NUM_COLS : Int := 80
def NUM_ROWS : Int := 25
def ATTRIB : Byte := 0x7
/-- Index of the user's video page in `page_table_usermapping`. -/
def OUR_VID_MAP : Int := 0x22

namespace Console

/-- The physical address behind a virtual address of the first 4 MB. -/
def translate (c : Console) (va : Int) : Int :=
  if VIDEO ≤ va ∧ va < VIDEO + PAGE then c.pageTableVideo * PAGE + (va - VIDEO)
  else va

def load (c : Console) (va : Int) : Byte := c.mem (c.translate va)

def poke (c : Console) (va : Int) (b : Byte) : Console :=
  { c with mem := Function.update c.mem (c.translate va) b }

/-- A byte store of the output functions. -/
def store (c : Console) (va : Int) (b : Byte) : Console :=
  { c.poke va b with stored := va :: c.stored }

/-- `*screen_xt`. -/
def screenX (c : Console) : Int := (c.multiTerminal c.screenT).screenX

/-- `*screen_yt`. -/
def screenY (c : Console) : Int := (c.multiTerminal c.screenT).screenY

/-- `*screen_xt = x; *screen_yt = y;` -/
def setXY (c : Console) (x y : Int) : Console :=
  let cursor := { c.multiTerminal c.screenT with screenX := x, screenY := y }
  { c with multiTerminal := Function.update c.multiTerminal c.screenT cursor }

end Console

/-- `update_cursor`: the `uint16_t` position goes to the cursor registers. -/
def updateCursor (c : Console) (x y : Int) : Console :=
  { c with cursorPos := (y * NUM_COLS + x) % 2 ^ 16 }

/-- Store a character with the standard attribute into cell `i`. -/
def putCell (c : Console) (i : Int) (ch : Byte) : Console :=
  (c.store (VIDEO + 2 * i) ch).store (VIDEO + 2 * i + 1) ATTRIB

/-- The first loop of `scroll_down` on cell `i`. -/
def moveCell (c : Console) (i : Int) : Console :=
  let c := c.store (VIDEO + 2 * i) (c.load (VIDEO + 2 * (i + NUM_COLS)))
  c.store (VIDEO + 2 * i + 1) (c.load (VIDEO + 2 * (i + NUM_COLS) + 1))

/-- `scroll_down`. -/
def scrollDown (c : Console) : Console :=
  let c := c.setXY 0 (NUM_ROWS - 1)
  let c := (List.range 1920).foldl (fun c (i : Nat) => moveCell c i) c
  (List.range' 1920 80).foldl (fun c (i : Nat) => putCell c i 32) c

/-- `putc`. -/
def putc (c : Console) (ch : Byte) : Console :=
  if ch = 8 then
    if c.screenX = 0 ∧ c.screenY = 0 ∧ c.displayTerminal = c.currentTid then
      updateCursor c c.screenX c.screenY
    else
      let c := if c.screenX = 0 then c.setXY NUM_COLS (c.screenY - 1) else c
      let c := putCell c (NUM_COLS * c.screenY + c.screenX - 1) 32
      let c := c.setXY (c.screenX - 1) c.screenY
      if c.displayTerminal = c.currentTid then
        updateCursor c c.screenX c.screenY
      else c
  else
    let c :=
      if ch = 10 ∨ ch = 13 then c.setXY 0 (c.screenY + 1)
      else
        let c := putCell c (NUM_COLS * c.screenY + c.screenX) ch
        let c := c.setXY (c.screenX + 1) c.screenY
        if c.screenX ≥ NUM_COLS then
          c.setXY (c.screenX % NUM_COLS) (c.screenY + 1)
        else c
    let c := if c.screenY = NUM_ROWS then scrollDown c else c
    if c.displayTerminal ≠ c.currentTid then c
    else updateCursor c c.screenX c.screenY

/-- `vid_mem`: the kernel's and the user's video page and the cursor pointers
follow terminal `tid`. -/
def vidMem (c : Console) (tid : Tid) : Console :=
  let page :=
    if tid ≠ c.displayTerminal then (c.multiTerminal tid).videoCurPos / PAGE
    else VIDEO / PAGE
  { c with
    userMapping := Function.update c.userMapping OUR_VID_MAP
      { present := (c.multiTerminal tid).vidmap, address := page }
    pageTableVideo := page
    screenT := tid }

/-- `clear`. -/
def clear (c : Console) : Console :=
  let c := vidMem c c.displayTerminal
  let c := (List.range 2000).foldl (fun c (i : Nat) => putCell c i 32) c
  let c := c.setXY 0 0
  let c := updateCursor c 0 0
  vidMem c c.currentTid

/-- `memcpy` between two video pages. -/
def memcpyPage (c : Console) (dest src : Int) : Console :=
  (List.range 4096).foldl
    (fun c (i : Nat) => c.poke (dest + i) (c.load (src + i))) c

/-- `terminal_switch`. -/
def terminalSwitch (c : Console) (tid : Tid) : Console :=
  if tid = c.displayTerminal then c
  else
    let disTerminal := c.multiTerminal c.displayTerminal
    let c := { c with screenT := tid }
    let c := updateCursor c c.screenX c.screenY
    let c := vidMem c c.displayTerminal
    let c := memcpyPage c disTerminal.videoCurPos VIDEO
    let c := memcpyPage c VIDEO (c.multiTerminal tid).videoCurPos
    let c := { c with displayTerminal := tid }
    vidMem c c.currentTid

/-- `display_putc`. -/
def displayPutc (c : Console) (key : Byte) : Console :=
  let c := vidMem c c.displayTerminal
  let c := putc c key
  let c := updateCursor c c.screenX c.screenY
  vidMem c c.currentTid

/-- The part of `pit_irq` that concerns the console: the video page follows the
terminal that is switched to, and then `process_switch` makes it current. -/
def switchConsole (c : Console) (tid : Tid) : Console :=
  { vidMem c tid with currentTid := tid }

/-- `init_terminal` and the boot value of `page_table[0xB8]` (`paging_init`);
memory holds whatever it held. -/
def unclearedConsole (mem : Int → Byte) : Console :=
  { multiTerminal := fun i =>
      { keyboardBuffer := fun _ => 0, bufferSize := 0, terminalEnable := false
        screenX := 0, screenY := 0
        videoCurPos := VIDEO + (i.val + 1) * PAGE
        vidmap := 0, runningPid := -1 }
    currentTid := 0
    displayTerminal := 0
    pageTableVideo := VIDEO / PAGE
    userMapping := fun i =>
      { present := if i = OUR_VID_MAP then 1 else 0
        address := if i = OUR_VID_MAP then VIDEO / PAGE else i }
    screenT := 0
    mem := mem
    cursorPos := 0
    keys := { capsLock := 0, lrShift := 0, lCtrl := 0, lAlt := 0, capsOn := 0 }
    stored := [] }

/-- The console after the last `clear` of `entry`. -/
def initTerminal (mem : Int → Byte) : Console := clear (unclearedConsole mem)

end MongOS.Model
