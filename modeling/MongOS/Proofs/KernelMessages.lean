import MongOS.Proofs.Display
import MongOS.Proofs.Printf

/-!
# Messages of the kernel on the display

`printf` writes to the terminal of the running process, and `display_printf` to
the terminal that is displayed.  A message is the same as its characters written
or echoed one at a time: for `display_printf`, which retargets the video page
once for the whole message, this is `displayPrintf_eq`.  So a display with
messages in between refines three separate screens as well
(`messages_refine_screens`).
-/

namespace MongOS.Proofs.KernelMessages

open MongOS.Model
open MongOS.Verified
open MongOS.Proofs.ScreenFrame
open MongOS.Proofs.Display
open MongOS.Proofs.Printf

/-! ## The cursor registers do not matter to the output -/

/-- The console with other contents of the cursor registers. -/
def withCursor (x : Int) (c : Console) : Console := { c with cursorPos := x }

theorem foldl_withCursor {x : Int} {f : Console → Nat → Console}
    (hf : ∀ c i, f (withCursor x c) i = withCursor x (f c i)) (l : List Nat)
    (c : Console) : l.foldl f (withCursor x c) = withCursor x (l.foldl f c) :=
  List.foldl_hom (withCursor x) hf

theorem scrollDown_withCursor (x : Int) (c : Console) :
    scrollDown (withCursor x c) = withCursor x (scrollDown c) := by
  have hmove : ∀ c (i : Nat),
      moveCell (withCursor x c) i = withCursor x (moveCell c i) := fun _ _ => rfl
  have hclear : ∀ c (i : Nat),
      putCell (withCursor x c) i 32 = withCursor x (putCell c i 32) := fun _ _ => rfl
  unfold scrollDown
  dsimp only
  rw [← foldl_withCursor (f := fun c i => putCell c i 32) hclear,
    ← foldl_withCursor hmove]
  rfl

theorem rollUp_withCursor (x : Int) (c : Console) :
    rollUp (withCursor x c) = withCursor x (rollUp c) := by
  unfold rollUp
  show (if c.screenY = NUM_ROWS then _ else _) = _
  split
  · exact scrollDown_withCursor x c
  · rfl

theorem advance_withCursor (x : Int) (c : Console) (ch : Byte) :
    advance (withCursor x c) ch = withCursor x (advance c ch) := by
  have hwrap : ∀ d : Console,
      (if (withCursor x d).screenX ≥ NUM_COLS then
        (withCursor x d).setXY ((withCursor x d).screenX % NUM_COLS)
          ((withCursor x d).screenY + 1)
      else withCursor x d) =
      withCursor x (if d.screenX ≥ NUM_COLS then
        d.setXY (d.screenX % NUM_COLS) (d.screenY + 1) else d) := by
    intro d
    show (if d.screenX ≥ NUM_COLS then _ else _) = _
    split <;> rfl
  unfold advance
  split
  · rfl
  · exact hwrap ((putCell c (NUM_COLS * c.screenY + c.screenX) ch).setXY
      (c.screenX + 1) c.screenY)

theorem stepBack_withCursor (x : Int) (c : Console) :
    stepBack (withCursor x c) = withCursor x (stepBack c) := by
  unfold stepBack
  show (if c.screenX = 0 then _ else _) = _
  split <;> rfl

theorem showCursor_withCursor (x : Int) (c : Console) :
    ∃ y, showCursor (withCursor x c) = withCursor y (showCursor c) := by
  unfold showCursor
  show ∃ y, (if c.displayTerminal = c.currentTid then _ else _) = _
  split
  · exact ⟨_, rfl⟩
  · exact ⟨x, rfl⟩

/-- `putc` draws the same whatever the cursor registers hold. -/
theorem putc_withCursor (x : Int) (c : Console) (ch : Byte) :
    ∃ y, putc (withCursor x c) ch = withCursor y (putc c ch) := by
  by_cases hch : ch = 8
  · subst hch
    by_cases horigin : c.screenX = 0 ∧ c.screenY = 0 ∧ c.displayTerminal = c.currentTid
    · rw [putc_backspace_origin c horigin,
        putc_backspace_origin (withCursor x c) horigin]
      exact showCursor_withCursor x c
    · rw [putc_backspace c horigin, putc_backspace (withCursor x c) horigin,
        stepBack_withCursor]
      exact showCursor_withCursor x (eraseBack (stepBack c))
  · rw [putc_char c hch, putc_char _ hch, advance_withCursor, rollUp_withCursor]
    exact showCursor_withCursor x _

/-! ## Output keeps its target -/

/-- What `vid_mem` sets. -/
def aim (c : Console) : Int × (Int → Pte) × Tid :=
  (c.pageTableVideo, c.userMapping, c.screenT)

theorem aim_putc (c : Console) (ch : Byte) : aim (putc c ch) = aim c := by
  have hscroll : ∀ c, aim (scrollDown c) = aim c := by
    intro c
    unfold scrollDown
    dsimp only
    rw [foldl_keeps aim (fun c (i : Nat) => putCell c i 32) (fun _ _ => rfl),
      foldl_keeps aim (fun c (i : Nat) => moveCell c i) (fun _ _ => rfl)]
    rfl
  have hshow : ∀ c, aim (showCursor c) = aim c := by
    intro c
    unfold showCursor
    split <;> rfl
  have hroll : ∀ c, aim (rollUp c) = aim c := by
    intro c
    unfold rollUp
    split
    · exact hscroll c
    · rfl
  have hadvance : ∀ c, aim (advance c ch) = aim c := by
    intro c
    unfold advance
    split
    · rfl
    · dsimp only
      split <;> rfl
  have hback : ∀ c, aim (eraseBack (stepBack c)) = aim c := by
    intro c
    unfold stepBack
    split <;> rfl
  by_cases hch : ch = 8
  · subst hch
    by_cases horigin : c.screenX = 0 ∧ c.screenY = 0 ∧ c.displayTerminal = c.currentTid
    · rw [putc_backspace_origin c horigin, hshow]
    · rw [putc_backspace c horigin, hshow, hback]
  · rw [putc_char c hch, hshow, hroll, hadvance]

/-- A console whose output goes where `vid_mem(t)` sends it. -/
def Aimed (c : Console) (t : Tid) : Prop := aim (vidMem c t) = aim c

theorem Aimed.vidMem_eq {c : Console} {t : Tid} (h : Aimed c t) : vidMem c t = c := by
  obtain ⟨hpage, hrest⟩ := Prod.mk.inj h
  obtain ⟨huser, htarget⟩ := Prod.mk.inj hrest
  calc vidMem c t = { c with
          pageTableVideo := (vidMem c t).pageTableVideo
          userMapping := (vidMem c t).userMapping
          screenT := (vidMem c t).screenT } := rfl
    _ = { c with
          pageTableVideo := c.pageTableVideo
          userMapping := c.userMapping
          screenT := c.screenT } := by rw [hpage, huser, htarget]
    _ = c := rfl

theorem aimed_vidMem (c : Console) (t : Tid) : Aimed (vidMem c t) t := by
  unfold Aimed aim vidMem
  simp only [Function.update_idem]

theorem Aimed.of_same {c d : Console} {t : Tid} (h : Aimed c t) (haim : aim d = aim c)
    (hinput : input d = input c) : Aimed d t := by
  have hvid : ∀ u, (d.multiTerminal u).vidmap = (c.multiTerminal u).vidmap :=
    congrFun (congrArg Input.vidmap hinput)
  have hpos : ∀ u, (d.multiTerminal u).videoCurPos = (c.multiTerminal u).videoCurPos :=
    congrFun (congrArg Input.videoCurPos hinput)
  have hdisplay : d.displayTerminal = c.displayTerminal := display_of_input hinput
  obtain ⟨-, hrest⟩ := Prod.mk.inj haim
  obtain ⟨huser, -⟩ := Prod.mk.inj hrest
  unfold Aimed at h ⊢
  rw [haim, ← h]
  unfold aim vidMem
  simp only [hvid, hpos, hdisplay, huser]

theorem Aimed.putc {c : Console} {t : Tid} (h : Aimed c t) (ch : Byte) :
    Aimed (putc c ch) t := h.of_same (aim_putc c ch) (input_putc c ch)

theorem Aimed.foldl_putc {c : Console} {t : Tid} (h : Aimed c t) (text : List Byte) :
    Aimed (text.foldl Model.putc c) t := by
  induction text generalizing c with
  | nil => exact h
  | cons b text ih => exact ih (h.putc b)

/-! ## One message -/

/-- The end of `display_putc` and of `display_printf`. -/
def endDisplay (c : Console) : Console :=
  vidMem (updateCursor c c.screenX c.screenY) c.currentTid

theorem endDisplay_withCursor (x : Int) (c : Console) :
    endDisplay (withCursor x c) = endDisplay c := rfl

/-- The displayed terminal is the target again. -/
theorem vidMem_endDisplay {c : Console} {t : Tid} (h : Aimed c t) :
    ∃ x, vidMem (endDisplay c) t = withCursor x c := by
  refine ⟨(c.screenY * NUM_COLS + c.screenX) % 2 ^ 16, ?_⟩
  have hagain : vidMem (endDisplay c) t =
      vidMem (updateCursor c c.screenX c.screenY) t := by
    unfold endDisplay vidMem
    simp only [Function.update_idem]
  have haim : Aimed (updateCursor c c.screenX c.screenY) t := h.of_same rfl rfl
  rw [hagain, haim.vidMem_eq]
  rfl

/-- Echoing a text switches to the displayed terminal and back for every
character, which comes to the same as once for the whole text. -/
theorem foldl_displayPutc (c : Console) {text : List Byte} (htext : text ≠ []) :
    text.foldl displayPutc c =
      endDisplay (text.foldl putc (vidMem c c.displayTerminal)) := by
  induction text using List.reverseRecOn with
  | nil => exact absurd rfl htext
  | append_singleton text b ih =>
      rw [List.foldl_append, List.foldl_append, List.foldl_cons, List.foldl_nil,
        List.foldl_cons, List.foldl_nil]
      rcases eq_or_ne text [] with rfl | hne
      · rfl
      · rw [ih hne]
        have haim := (aimed_vidMem c c.displayTerminal).foldl_putc text
        have hdisplay : (text.foldl putc (vidMem c c.displayTerminal)).displayTerminal =
            c.displayTerminal :=
          display_of_input (foldl_keeps input putc input_putc text _)
        generalize text.foldl putc (vidMem c c.displayTerminal) = r at haim hdisplay
        obtain ⟨x, hx⟩ := vidMem_endDisplay haim
        obtain ⟨y, hy⟩ := putc_withCursor x r b
        show endDisplay (putc (vidMem (endDisplay r) r.displayTerminal) b) = _
        rw [hdisplay, hx, hy, endDisplay_withCursor]

/-- A message through `display_printf` is its text echoed. -/
theorem displayPrintf_eq {ps : List Piece} (hps : ∀ p ∈ ps, p.Valid)
    (strings : UInt32 → List Byte) (convBuf : Nat → Byte) (rest : List Byte)
    (esp : Nat → UInt32) (c : Console) (htext : render strings esp ps 0 ≠ []) :
    displayPrintf strings convBuf (format ps ++ 0 :: rest) esp c =
      some ((render strings esp ps 0).foldl displayPutc c) := by
  rw [displayPrintf, printf_pieces hps, foldl_displayPutc c htext]
  rfl

/-! ## Messages between the other operations -/

/-- An operation of the display, or a message of the kernel. -/
inductive PrintEvent
  | screen (e : ScreenEvent)
  | printf (ps : List Piece) (esp : Nat → UInt32)
  | displayPrintf (ps : List Piece) (esp : Nat → UInt32)

/-- The text of a message. -/
def messageText (strings : UInt32 → List Byte) (ps : List Piece)
    (esp : Nat → UInt32) : List Byte := render strings esp ps 0

/-- One operation; a message that ran off its format would have no step. -/
def PrintStep (strings : UInt32 → List Byte) (c : Console) (e : PrintEvent)
    (c' : Console) : Prop :=
  match e with
  | .screen e => ScreenStep c e c'
  | .printf ps esp => ∃ convBuf rest,
      (printf strings convBuf (format ps ++ 0 :: rest) esp c).map Prod.fst = some c'
  | .displayPrintf ps esp => ∃ convBuf rest,
      displayPrintf strings convBuf (format ps ++ 0 :: rest) esp c = some c'

/-- The text of a message has characters and no backspace, and its format no cut
off conversion. -/
structure CleanText (strings : UInt32 → List Byte) (ps : List Piece)
    (esp : Nat → UInt32) : Prop where
  whole : ∀ p ∈ ps, p.Valid
  text : messageText strings ps esp ≠ []
  forward : 8 ∉ messageText strings ps esp

/-- The condition on an operation. -/
def Clean (strings : UInt32 → List Byte) (c : Console) : PrintEvent → Prop
  | .screen e => InPlace c e
  | .printf ps esp => CleanText strings ps esp
  | .displayPrintf ps esp => CleanText strings ps esp

/-- A message as operations of the display. -/
def spelled (strings : UInt32 → List Byte) : PrintEvent → List ScreenEvent
  | .screen e => [e]
  | .printf ps esp => (messageText strings ps esp).map .putc
  | .displayPrintf ps esp => (messageText strings ps esp).map .echo

/-- Characters other than a backspace are always in place. -/
theorem text_run (event : Byte → ScreenEvent)
    (hplace : ∀ c b, b ≠ 8 → InPlace c (event b)) {text : List Byte}
    (htext : 8 ∉ text) (c : Console) :
    Run (Guarded InPlace ScreenStep) c (text.map event)
      (text.foldl (fun c b => screenStep c (event b)) c) := by
  induction text generalizing c with
  | nil => exact .nil
  | cons b text ih =>
      obtain ⟨hb, hrest⟩ := not_or.1 (fun h => htext (List.mem_cons.2 h))
      have hfirst := Run.single (guarded_step (hplace c b (Ne.symm hb)))
      exact hfirst.append (ih hrest _)

/-- A message takes the steps it is spelled with. -/
theorem message_run {strings : UInt32 → List Byte} {c c' : Console} {e : PrintEvent}
    (hclean : Clean strings c e) (hstep : PrintStep strings c e c') :
    Run (Guarded InPlace ScreenStep) c (spelled strings e) c' := by
  cases e with
  | screen e => exact .single ⟨hclean, hstep⟩
  | printf ps esp =>
      obtain ⟨convBuf, rest, hprint⟩ := hstep
      rw [printf_pieces hclean.whole, Option.map_some, Option.some.injEq] at hprint
      subst hprint
      exact text_run .putc (fun c b hb h => absurd h hb) hclean.forward c
  | displayPrintf ps esp =>
      obtain ⟨convBuf, rest, hprint⟩ := hstep
      rw [displayPrintf_eq hclean.whole _ _ _ _ _ hclean.text,
        Option.some.injEq] at hprint
      subst hprint
      exact text_run .echo (fun c b hb h => absurd h hb) hclean.forward c

theorem messages_run {strings : UInt32 → List Byte} {c₀ c : Console}
    {es : List PrintEvent}
    (h : Run (Guarded (Clean strings) (PrintStep strings)) c₀ es c) :
    Run (Guarded InPlace ScreenStep) c₀ (es.flatMap (spelled strings)) c := by
  induction h with
  | nil => exact .nil
  | snoc _ hstep ih =>
      rw [List.flatMap_append, List.flatMap_singleton]
      exact ih.append (message_run hstep.1 hstep.2)

/-- With messages of the kernel in between, to the running and to the displayed
terminal, the display shows three separate screens, each with exactly the
characters addressed to it. -/
theorem messages_refine_screens {strings : UInt32 → List Byte} {mem : Int → Byte}
    {es : List PrintEvent} {c : Console}
    (h : Run (Guarded (Clean strings) (PrintStep strings)) (initTerminal mem) es c) :
    Refines (initTerminal mem) c
      ((es.flatMap (spelled strings)).foldl Mux.step Mux.boot) :=
  (run_refines (messages_run h)).2

/-- Terminal 1 runs in the background and prints `%u`, and the displayed terminal
gets a message. -/
def twoMessages : List PrintEvent :=
  [.screen (.switch 1), .printf [.conv 0 117] fun _ => 7,
    .displayPrintf [.char 33] fun _ => 0]

def afterTwoMessages : Console :=
  displayPutc (putc (switchConsole (initTerminal fun _ => 0) 1) 55) 33

theorem twoMessages_run (c : Console) :
    Run (Guarded (Clean fun _ => []) (PrintStep fun _ => [])) c twoMessages
      (displayPutc (putc (switchConsole c 1) 55) 33) := by
  have hseven : messageText (fun _ => []) [.conv 0 117] (fun _ => 7) = [55] := by
    simp [messageText, render, Piece.text, convText, Numerals.numeral, lookup, str]
  have hswitch : Run (Guarded (Clean fun _ => []) (PrintStep fun _ => [])) c
      [.screen (.switch 1)] (switchConsole c 1) := .single ⟨trivial, rfl⟩
  have hprint := hswitch.snoc (e := .printf [.conv 0 117] fun _ => 7)
    (u := putc (switchConsole c 1) 55) ⟨?clean, ?step⟩
  case clean =>
    refine { whole := ?_, text := ?_, forward := ?_ }
    · simp [Piece.Valid]
    · rw [hseven]
      exact List.cons_ne_nil 55 []
    · rw [hseven]
      decide
  case step =>
    refine ⟨fun _ => 0, [], ?_⟩
    rw [printf_pieces (by simp [Piece.Valid])]
    show some ((messageText _ _ _).foldl putc _) = _
    rw [hseven]
    rfl
  refine hprint.snoc
    ⟨{ whole := ?_, text := List.cons_ne_nil 33 [], forward := ?_ }, fun _ => 0, [], ?_⟩
  · simp [Piece.Valid]
  · simp [messageText, render, Piece.text]
  · exact displayPrintf_eq (by simp [Piece.Valid]) _ _ _ _ _ (List.cons_ne_nil 33 [])

theorem twoMessages_refine :
    Run (Guarded (Clean fun _ => []) (PrintStep fun _ => []))
        (initTerminal fun _ => 0) twoMessages afterTwoMessages ∧
      Refines (initTerminal fun _ => 0) afterTwoMessages
        ((twoMessages.flatMap (spelled fun _ => [])).foldl Mux.step Mux.boot) :=
  ⟨twoMessages_run _, messages_refine_screens (twoMessages_run _)⟩

end MongOS.Proofs.KernelMessages
