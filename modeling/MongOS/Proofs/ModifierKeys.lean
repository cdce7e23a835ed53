import MongOS.Proofs.LineDiscipline

/-!
# Modifier flags and the keys that are held

`get_command_char` keeps one flag for both shift keys, one for Ctrl, one for Alt
and the caps-lock toggle.  Against the flags stands a record of the keys that
are held, and of how often caps-lock has gone down.

* `modifiersAfter` — what a scancode does to the flags.
* `flags_match_keys` — the flags match the keys in exactly those runs in which
  no shift key is released while the other is held, and caps-lock does not
  repeat its press code.
* `flags_differ_from_keys` — one scancode sequence for each.
-/

namespace MongOS.Proofs.ModifierKeys

open MongOS.Model
open MongOS.Verified
open MongOS.Proofs.ScreenFrame
open MongOS.Proofs.LineDiscipline

/-! ## Flags -/

/-- The assignments of `get_command_char`, apart from `terminal_switch`. -/
def modifiersAfter (keys : Modifiers) (input : Byte) : Modifiers :=
  match input.toNat with
  | 0x2A => { keys with lrShift := 1 }
  | 0x36 => { keys with lrShift := 1 }
  | 0xAA => { keys with lrShift := 0 }
  | 0xB6 => { keys with lrShift := 0 }
  | 0x1D => { keys with lCtrl := 1 }
  | 0x9D => { keys with lCtrl := 0 }
  | 0x3A => { keys with capsOn := 1, capsLock := 1 - keys.capsLock }
  | 0xBA => { keys with capsOn := 0 }
  | 0x38 => { keys with lAlt := 1 }
  | 0xB8 => { keys with lAlt := 0 }
  | _ => keys

theorem terminalSwitch_keys (c : Console) (t : Tid) :
    (terminalSwitch c t).keys = c.keys :=
  congrArg Input.keys (input_terminalSwitch c t)

/-- `get_command_char` does to the flags what `modifiersAfter` says. -/
theorem getCommandChar_keys (c : Console) (ch : Byte) :
    ((getCommandChar c ch).getD c).keys = modifiersAfter c.keys ch := by
  have hfunction : ∀ u,
      (if c.keys.lAlt ≠ 0 then terminalSwitch c u else c).keys = c.keys := by
    intro u
    split
    · exact terminalSwitch_keys c u
    · rfl
  unfold getCommandChar modifiersAfter
  dsimp only
  split
  case h_11 h => rw [h]; exact hfunction 0
  case h_12 h => rw [h]; exact hfunction 1
  case h_13 h => rw [h]; exact hfunction 2
  case h_15 => split <;> first | rfl | contradiction
  all_goals simp [*]

/-- Typing and clearing leave the flags alone. -/
theorem keyboardIrq_keys (c : Console) (ch : Byte) :
    (keyboardIrq c ch).keys = modifiersAfter c.keys ch := by
  have hcommand := getCommandChar_keys c ch
  cases hkey : keyAt c ch with
  | some k =>
      rw [(keyAt_some hkey).1, Option.getD_none] at hcommand
      exact (keyboardIrq_some hkey).keys.trans hcommand
  | none =>
      rw [keyboardIrq_off hkey]
      exact hcommand

/-! ## Keys -/

/-- The modifier keys that are held, and how often caps-lock has gone from
released to pressed. -/
structure Held where
  leftShift : Bool
  rightShift : Bool
  ctrl : Bool
  alt : Bool
  caps : Bool
  capsPresses : Nat
  deriving DecidableEq

/-- No key is held, and none has been. -/
def Held.none : Held :=
  { leftShift := false, rightShift := false, ctrl := false, alt := false
    caps := false, capsPresses := 0 }

/-- What a scancode says about the keys: a held key repeats its press code. -/
def Held.after (h : Held) (ch : Byte) : Held :=
  match ch.toNat with
  | 0x2A => { h with leftShift := true }
  | 0xAA => { h with leftShift := false }
  | 0x36 => { h with rightShift := true }
  | 0xB6 => { h with rightShift := false }
  | 0x1D => { h with ctrl := true }
  | 0x9D => { h with ctrl := false }
  | 0x38 => { h with alt := true }
  | 0xB8 => { h with alt := false }
  | 0x3A =>
      { h with
        caps := true
        capsPresses := if h.caps then h.capsPresses else h.capsPresses + 1 }
  | 0xBA => { h with caps := false }
  | _ => h

/-- The flags say which keys are held, and caps-lock has been toggled once for
each time its key went down. -/
structure Match (keys : Modifiers) (h : Held) : Prop where
  shift : keys.lrShift = 1 ↔ h.leftShift = true ∨ h.rightShift = true
  ctrl : keys.lCtrl = 1 ↔ h.ctrl = true
  alt : keys.lAlt = 1 ↔ h.alt = true
  caps : keys.capsLock = (h.capsPresses % 2 : Nat)

/-- The flags that are only tested for zero are 0 or 1. -/
structure Binary (keys : Modifiers) : Prop where
  shift : keys.lrShift = 0 ∨ keys.lrShift = 1
  ctrl : keys.lCtrl = 0 ∨ keys.lCtrl = 1

theorem binary_after {keys : Modifiers} (h : Binary keys) (ch : Byte) :
    Binary (modifiersAfter keys ch) := by
  obtain ⟨hshift, hctrl⟩ := h
  unfold modifiersAfter
  split <;> constructor <;> first | exact hshift | exact hctrl | simp

/-- No shift key is released while the other is held, and caps-lock does not
repeat its press code. -/
def Distinct (h : Held) (ch : Byte) : Prop :=
  match ch.toNat with
  | 0xAA => h.rightShift = false
  | 0xB6 => h.leftShift = false
  | 0x3A => h.caps = false
  | _ => True

/-- The flags keep matching the keys. -/
theorem match_after {keys : Modifiers} {h : Held} {ch : Byte}
    (hmatch : Match keys h) (hch : Distinct h ch) :
    Match (modifiersAfter keys ch) (h.after ch) := by
  obtain ⟨hshift, hctrl, halt, hcaps⟩ := hmatch
  unfold Distinct at hch
  unfold modifiersAfter Held.after
  generalize ch.toNat = n at hch ⊢
  split
  case h_1 => exact ⟨by simp, hctrl, halt, hcaps⟩
  case h_2 => exact ⟨by simp, hctrl, halt, hcaps⟩
  case h_3 => exact ⟨by simpa using hch, hctrl, halt, hcaps⟩
  case h_4 => exact ⟨by simpa using hch, hctrl, halt, hcaps⟩
  case h_5 => exact ⟨hshift, by simp, halt, hcaps⟩
  case h_6 => exact ⟨hshift, by simp, halt, hcaps⟩
  case h_7 =>
    have hup : h.caps = false := hch
    have htoggled : 1 - keys.capsLock =
        ((if h.caps then h.capsPresses else h.capsPresses + 1) % 2 : Nat) := by
      rw [hcaps, hup, if_neg (by decide)]
      omega
    exact ⟨hshift, hctrl, halt, htoggled⟩
  case h_8 => exact ⟨hshift, hctrl, halt, hcaps⟩
  case h_9 => exact ⟨hshift, hctrl, by simp, hcaps⟩
  case h_10 => exact ⟨hshift, hctrl, by simp, hcaps⟩
  case h_11 =>
    split <;> first | exact ⟨hshift, hctrl, halt, hcaps⟩ | contradiction

/-- Otherwise they match no longer: the shift flag is cleared, or caps-lock is
toggled once too often. -/
theorem not_match_after {keys : Modifiers} {h : Held} {ch : Byte}
    (hmatch : Match keys h) (hch : ¬Distinct h ch) :
    ¬Match (modifiersAfter keys ch) (h.after ch) := by
  intro hafter
  unfold Distinct at hch
  unfold modifiersAfter Held.after at hafter
  generalize ch.toNat = n at hch hafter
  split at hch
  case h_1 =>
    have hheld : h.rightShift = true := by simpa using hch
    have hset : (0 : Int) = 1 := hafter.shift.2 (.inr hheld)
    exact absurd hset (by decide)
  case h_2 =>
    have hheld : h.leftShift = true := by simpa using hch
    have hset : (0 : Int) = 1 := hafter.shift.2 (.inl hheld)
    exact absurd hset (by decide)
  case h_3 =>
    have hdown : h.caps = true := by simpa using hch
    have htoggled : 1 - keys.capsLock =
        ((if h.caps then h.capsPresses else h.capsPresses + 1) % 2 : Nat) :=
      hafter.caps
    rw [hdown, if_pos rfl, hmatch.caps] at htoggled
    omega
  case h_4 => exact hch trivial

/-! ## Runs -/

/-- The console, and the keys. -/
structure Board where
  con : Console
  held : Held

def Board.boot (mem : Int → Byte) : Board :=
  { con := initTerminal mem, held := .none }

/-- A scancode arrives. -/
def boardStep (B : Board) (ch : Byte) : Option Board :=
  some { con := keyboardIrq B.con ch, held := B.held.after ch }

def BoardStep (B : Board) (ch : Byte) (B' : Board) : Prop :=
  boardStep B ch = some B'

def Matched (B : Board) : Prop := Match B.con.keys B.held

theorem boot_keys {c : Console} {mem : Int → Byte}
    (h : input c = input (unclearedConsole mem)) :
    c.keys = (unclearedConsole mem).keys := congrArg Input.keys h

theorem binary_boot {c : Console} {mem : Int → Byte}
    (h : input c = input (unclearedConsole mem)) : Binary c.keys := by
  rw [boot_keys h]
  exact { shift := .inl rfl, ctrl := .inl rfl }

theorem match_boot {c : Console} {mem : Int → Byte}
    (h : input c = input (unclearedConsole mem)) : Match c.keys .none := by
  rw [boot_keys h]
  exact
    { shift := by simp [unclearedConsole, Held.none]
      ctrl := by simp [unclearedConsole, Held.none]
      alt := by simp [unclearedConsole, Held.none]
      caps := rfl }

theorem BoardStep.effect {B B' : Board} {ch : Byte} (h : BoardStep B ch B') :
    B'.con.keys = modifiersAfter B.con.keys ch ∧ B'.held = B.held.after ch := by
  cases h
  exact ⟨keyboardIrq_keys B.con ch, rfl⟩

/-- After every code the flags match the keys exactly if no shift key is
released while the other is held and caps-lock does not repeat. -/
theorem flags_match_keys {mem : Int → Byte} {codes : List Byte} {B : Board} :
    Run (Within Matched BoardStep) (.boot mem) codes B ↔
      Run (Guarded (fun B => Distinct B.held) BoardStep) (.boot mem) codes B := by
  have hboot : Matched (.boot mem) := match_boot (input_clear _)
  refine Run.within_iff_guarded (I := Matched) hboot ?kept ?broken
  case kept =>
    intro B ch B' hmatch hstep hch
    obtain ⟨hkeys, hheld⟩ := hstep.effect
    have hafter : Matched B' := by
      rw [Matched, hkeys, hheld]
      exact match_after hmatch hch
    exact ⟨hafter, hafter⟩
  case broken =>
    intro B ch B' hmatch hstep hch
    obtain ⟨hkeys, hheld⟩ := hstep.effect
    rw [Matched, hkeys, hheld]
    exact not_match_after hmatch hch

/-! ## The two sequences -/

/-- The flags and the keys after some codes. -/
theorem run_codes (mem : Int → Byte) (codes : List Byte) :
    ∃ B, Run BoardStep (.boot mem) codes B ∧
      B.con.keys = codes.foldl modifiersAfter (unclearedConsole mem).keys ∧
      B.held = codes.foldl Held.after .none := by
  induction codes using List.reverseRecOn with
  | nil => exact ⟨.boot mem, .nil, boot_keys (input_clear _), rfl⟩
  | append_singleton codes ch ih =>
      obtain ⟨B, hrun, hkeys, hheld⟩ := ih
      obtain ⟨B', hstep⟩ : ∃ B', BoardStep B ch B' := ⟨_, rfl⟩
      refine ⟨B', hrun.snoc hstep, ?_, ?_⟩
      · rw [hstep.effect.1, hkeys, List.foldl_append]
        rfl
      · rw [hstep.effect.2, hheld, List.foldl_append]
        rfl

/-- Both shift keys go down and the right one is released: the left one is held,
and the flag is 0.  Caps-lock goes down once and repeats: it is toggled back. -/
theorem flags_differ_from_keys :
    (∃ B, Run BoardStep (.boot fun _ => 0) [0x2A, 0x36, 0xB6] B ∧
        B.held.leftShift = true ∧ B.con.keys.lrShift = 0 ∧ ¬Matched B) ∧
      ∃ B, Run BoardStep (.boot fun _ => 0) [0x3A, 0x3A] B ∧
        B.held.capsPresses = 1 ∧ B.con.keys.capsLock = 0 ∧ ¬Matched B := by
  constructor
  · obtain ⟨B, hrun, hkeys, hheld⟩ := run_codes (fun _ => 0) [0x2A, 0x36, 0xB6]
    have hleft : B.held.leftShift = true := by
      rw [hheld]
      rfl
    have hflag : B.con.keys.lrShift = 0 := by
      rw [hkeys]
      rfl
    refine ⟨B, hrun, hleft, hflag, fun hmatch => ?_⟩
    have hone := hmatch.shift.2 (.inl hleft)
    omega
  · obtain ⟨B, hrun, hkeys, hheld⟩ := run_codes (fun _ => 0) [0x3A, 0x3A]
    have hpresses : B.held.capsPresses = 1 := by
      rw [hheld]
      rfl
    have hlock : B.con.keys.capsLock = 0 := by
      rw [hkeys]
      rfl
    refine ⟨B, hrun, hpresses, hlock, fun hmatch => ?_⟩
    have hone := hmatch.caps
    rw [hpresses] at hone
    omega

end MongOS.Proofs.ModifierKeys
