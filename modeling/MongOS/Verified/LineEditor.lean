import Mathlib.Data.List.Basic

/-!
# Line editors

A line editor collects characters into a line; Enter ends the line and keeps it.
A reader that is handed the ended lines one after another has read them `InStep`
with the editor when what it was handed is a prefix of what was ended: no line
lost, none altered, none out of order.
-/

namespace MongOS.Verified.LineEditor

universe u v

/-- What a key means to a line editor; a `silent` key means nothing. -/
inductive Key (α : Type u)
  | char (a : α)
  | backspace
  | enter
  | wipe
  | silent

/-- The line that is being typed, and the lines that have been ended. -/
structure Editor (α : Type u) where
  line : List α
  lines : List (List α)

variable {α : Type u} {β : Type v}

namespace Editor

/-- Nothing has been typed. -/
def empty : Editor α := { line := [], lines := [] }

def press (e : Editor α) : Key α → Editor α
  | .char a => { e with line := e.line ++ [a] }
  | .backspace => { e with line := e.line.dropLast }
  | .enter => { line := [], lines := e.lines ++ [e.line] }
  | .wipe => { e with line := [] }
  | .silent => e

/-- The same with room for `cap` characters: no more are taken. -/
def pressWithin (cap : Nat) (e : Editor α) : Key α → Editor α
  | .char a => if e.line.length < cap then e.press (.char a) else e
  | .backspace => e.press .backspace
  | .enter => e.press .enter
  | .wipe => e.press .wipe
  | .silent => e.press .silent

end Editor

/-- The reader was handed `got`: the ended lines in order, each as `f` delivers
it, and possibly not yet all. -/
def InStep (f : List α → β) (e : Editor α) (got : List β) : Prop :=
  got <+: e.lines.map f

/-- The reader has been handed all lines. -/
def CaughtUp (f : List α → β) (e : Editor α) (got : List β) : Prop :=
  got = e.lines.map f

/-- The reader has been handed all lines but `l`, the last one. -/
def Behind (f : List α → β) (e : Editor α) (got : List β) (l : List α) : Prop :=
  ∃ ls, e.lines = ls ++ [l] ∧ got = ls.map f

variable {f : List α → β} {e : Editor α} {got : List β}

theorem CaughtUp.inStep (h : CaughtUp f e got) : InStep f e got := by
  obtain rfl : got = e.lines.map f := h
  exact List.prefix_rfl

theorem Behind.inStep {l : List α} (h : Behind f e got l) : InStep f e got := by
  obtain ⟨ls, hlines, rfl⟩ := h
  unfold InStep
  rw [hlines, List.map_append]
  exact List.prefix_append _ _

/-- After Enter the reader that had all lines is behind by one. -/
theorem CaughtUp.enter (h : CaughtUp f e got) :
    Behind f (e.press .enter) got e.line :=
  ⟨e.lines, rfl, h⟩

/-- When that line is handed over, the reader has them all again. -/
theorem Behind.deliver {l : List α} (h : Behind f e got l) :
    CaughtUp f e (got ++ [f l]) := by
  obtain ⟨ls, hlines, rfl⟩ := h
  unfold CaughtUp
  rw [hlines, List.map_append]
  rfl

end MongOS.Verified.LineEditor
