import MongOS.Proofs.BlinkList

/-!
# Phases of the blinking characters

A structure is on while the low bit of its status is 1, and off otherwise.  The
screen shows the character of its phase, and a phase lasts as many ticks as its
length says, except that

* `mp1_ioctl_sync` always draws the off character, because `testb` never sets
  the flags that `cmovl` asks for;
* a countdown of 32769 and more is negative to the test of the tasklet, so such
  a phase ends with its next tick;
* a slot at location 0 counts as free, so the next structure may be put into a
  slot that is on the list, which then has no end.

`blinkers_in_phase_iff` says that nothing else goes wrong; `phases_lapse` has a
run for each.
-/

namespace MongOS.Proofs.BlinkPhases

open MongOS.Model
open MongOS.Verified
open MongOS.Proofs.BlinkList

/-! ## One structure -/

/-- The structure is on. -/
def On (s : BlinkStruct) : Prop := s.status &&& 1 ≠ 0

instance (s : BlinkStruct) : Decidable (On s) :=
  inferInstanceAs (Decidable (_ ≠ _))

/-- The character of its phase. -/
def phaseChar (s : BlinkStruct) : Byte := if On s then s.onChar else s.offChar

/-- The length of its phase. -/
def phaseLength (s : BlinkStruct) : UInt16 :=
  if On s then s.onLength else s.offLength

/-- The length of the phase that follows. -/
def nextLength (s : BlinkStruct) : UInt16 :=
  if On s then s.offLength else s.onLength

/-- The tasklet ends its phase at the next tick. -/
def Ends (s : BlinkStruct) : Prop := ¬0 < toInt16 (s.countdown - 1)

instance (s : BlinkStruct) : Decidable (Ends s) :=
  inferInstanceAs (Decidable (¬_))

/-- The structure in its other phase. -/
def turned (s : BlinkStruct) : BlinkStruct :=
  { s with
    countdown := nextLength s
    status := s.status ^^^ 1 }

/-- The structure after a tick. -/
def ticked (s : BlinkStruct) : BlinkStruct :=
  if Ends s then turned s else { s with countdown := s.countdown - 1 }

theorem on_iff_mod (s : BlinkStruct) : On s ↔ s.status.toNat % 2 = 1 := by
  have hbit : (s.status &&& 1).toNat = s.status.toNat % 2 := by
    rw [UInt16.toNat_and]
    exact Nat.and_one_is_mod _
  have hzero : s.status &&& 1 = 0 ↔ s.status.toNat % 2 = 0 := by
    rw [← hbit, ← UInt16.toNat_inj]
    rfl
  unfold On
  rw [ne_eq, hzero]
  omega

theorem on_turned (s : BlinkStruct) : On (turned s) ↔ ¬On s := by
  rw [on_iff_mod, on_iff_mod]
  show (s.status ^^^ 1).toNat % 2 = 1 ↔ _
  rw [UInt16.toNat_xor, Nat.xor_mod_two_eq_one]
  have hone : (1 : UInt16).toNat % 2 = 1 := rfl
  rw [hone]
  tauto

theorem phaseLength_turned (s : BlinkStruct) :
    phaseLength (turned s) = nextLength s := by
  have hturned := on_turned s
  unfold phaseLength nextLength
  by_cases hon : On s
  · rw [if_neg (by rwa [hturned, not_not]), if_pos hon]
    rfl
  · rw [if_pos (hturned.2 hon), if_neg hon]
    rfl

theorem phaseChar_turned (s : BlinkStruct) :
    phaseChar (turned s) = if On s then s.offChar else s.onChar := by
  have hturned := on_turned s
  unfold phaseChar
  by_cases hon : On s
  · rw [if_neg (by rwa [hturned, not_not]), if_pos hon]
    rfl
  · rw [if_pos (hturned.2 hon), if_neg hon]
    rfl

/-- A tick turns the structure exactly if it ends the phase. -/
theorem ticked_turns (s : BlinkStruct) :
    ¬(On (ticked s) ↔ On s) ↔ Ends s := by
  unfold ticked
  by_cases hends : Ends s
  · rw [if_pos hends, on_turned]
    tauto
  · rw [if_neg hends]
    have hsame : On { s with countdown := s.countdown - 1 } ↔ On s := Iff.rfl
    tauto

theorem toNat_pred {n : UInt16} (h : 1 ≤ n.toNat) :
    (n - 1).toNat = n.toNat - 1 :=
  UInt16.toNat_sub_of_le _ _ (UInt16.le_iff_toNat_le.2 h)

/-- With `a` ticks of a phase behind it and at most 32768 ahead, the phase ends at
the next tick if that is its last. -/
theorem ends_iff {s : BlinkStruct} {a : Nat} (ha : a < (phaseLength s).toNat)
    (hshort : s.countdown.toNat ≤ 32768)
    (hcount : s.countdown.toNat = (phaseLength s).toNat - a) :
    Ends s ↔ a + 1 = (phaseLength s).toNat := by
  have hdown := toNat_pred (n := s.countdown) (by omega)
  unfold Ends toInt16
  rw [hdown, if_pos (by omega)]
  omega

/-- A phase with more than 32768 ticks ahead ends at once. -/
theorem ends_at_once {s : BlinkStruct} (hlong : 32768 < s.countdown.toNat) :
    Ends s := by
  have hdown := toNat_pred (n := s.countdown) (by omega)
  have hlt := s.countdown.toNat_lt
  unfold Ends toInt16
  rw [hdown, if_neg (by omega)]
  omega

/-- `cmovl` after `testb` never moves. -/
theorem syncChar_off (s : BlinkStruct) : syncChar s = s.offChar := by
  have hbit : (1 &&& s.status.toUInt8).toNat ≤ 1 := by
    rw [UInt8.toNat_and]
    exact Nat.and_le_left
  unfold syncChar
  dsimp only
  rw [if_neg (by omega)]

/-! ## The tasklet -/

/-- The tasklet on one structure: its slot, and the character of the new
phase. -/
theorem taskletNode_eq (b : Fish) (i : Slot) :
    taskletNode b i =
      { b with
        blinkArray :=
          Function.update b.blinkArray i (ticked (b.blinkArray i))
        vmem :=
          if Ends (b.blinkArray i) then
            Function.update b.vmem ((b.blinkArray i).location.toNat * 2)
              (phaseChar (turned (b.blinkArray i)))
          else b.vmem } := by
  rw [phaseChar_turned]
  unfold taskletNode ticked
  dsimp only
  by_cases hends : Ends (b.blinkArray i)
  · rw [if_neg hends, if_pos hends, if_pos hends]
    by_cases hon : On (b.blinkArray i)
    · have hstatus : (b.blinkArray i).status &&& 1 ≠ 0 := hon
      rw [if_pos hstatus, if_pos hon, turned, nextLength, if_pos hon]
      simp only [Fish.setSlot, mp1Poke, Function.update_idem]
    · have hstatus : ¬(b.blinkArray i).status &&& 1 ≠ 0 := hon
      rw [if_neg hstatus, if_neg hon, turned, nextLength, if_neg hon]
      simp only [Fish.setSlot, mp1Poke, Function.update_idem]
  · rw [if_pos (not_not.1 hends), if_neg hends, if_neg hends]
    rfl

theorem taskletNode_self (b : Fish) (i : Slot) :
    (taskletNode b i).blinkArray i = ticked (b.blinkArray i) := by
  rw [taskletNode_eq]
  exact Function.update_self ..

theorem taskletNode_ne (b : Fish) {i j : Slot} (h : i ≠ j) :
    (taskletNode b j).blinkArray i = b.blinkArray i := by
  rw [taskletNode_eq]
  exact Function.update_of_ne h ..

theorem foldl_taskletNode_others {i : Slot} {l : List Slot} (hi : i ∉ l)
    (b : Fish) : (l.foldl taskletNode b).blinkArray i = b.blinkArray i := by
  induction l generalizing b with
  | nil => rfl
  | cons j l ih =>
      have hij : i ≠ j := List.ne_of_not_mem_cons hi
      have hrest : i ∉ l := List.not_mem_of_not_mem_cons hi
      rw [List.foldl_cons, ih hrest, taskletNode_ne b hij]

/-- The structures of the list tick once. -/
theorem foldl_taskletNode_slot {i : Slot} {l : List Slot} (h : l.Nodup)
    (hi : i ∈ l) (b : Fish) :
    (l.foldl taskletNode b).blinkArray i = ticked (b.blinkArray i) := by
  induction l generalizing b with
  | nil => exact nomatch hi
  | cons j l ih =>
      obtain ⟨hnot, hrest⟩ := List.nodup_cons.1 h
      rw [List.foldl_cons]
      rcases List.mem_cons.1 hi with rfl | hmem
      · rw [foldl_taskletNode_others hnot, taskletNode_self]
      · have hij : i ≠ j := fun heq => hnot (heq ▸ hmem)
        rw [ih hrest hmem, taskletNode_ne b hij]

/-- The locations of a list are distinct. -/
def Places (b : Fish) (l : List Slot) : Prop :=
  (l.map fun i => (b.blinkArray i).location).Nodup

/-- The screen shows the phase of each structure of a list. -/
def Shown (b : Fish) (l : List Slot) : Prop :=
  ∀ i ∈ l, b.vmem ((b.blinkArray i).location.toNat * 2) =
    phaseChar (b.blinkArray i)

theorem Places.ne {b : Fish} {l : List Slot} (h : Places b l) {i j : Slot}
    (hi : i ∈ l) (hj : j ∈ l) (hij : i ≠ j) :
    (b.blinkArray i).location.toNat * 2 ≠
      (b.blinkArray j).location.toNat * 2 := by
  intro heq
  have hlocation : (b.blinkArray i).location = (b.blinkArray j).location := by
    rw [← UInt16.toNat_inj]
    omega
  exact hij (List.inj_on_of_nodup_map h hi hj hlocation)

theorem Places.same {b b' : Fish} {l : List Slot} (h : Places b l)
    (hsame : SameLinks b b') : Places b' l := by
  unfold Places at h ⊢
  rwa [List.map_congr_left fun i _ => hsame.location i]

/-- One structure treated by the tasklet stays shown, and the others too. -/
theorem Shown.node {b : Fish} {l : List Slot} (h : Shown b l)
    (hplaces : Places b l) {j : Slot} (hj : j ∈ l) :
    Shown (taskletNode b j) l := by
  intro i hi
  rw [taskletNode_eq]
  dsimp only
  by_cases hij : i = j
  · subst hij
    rw [Function.update_self, ticked]
    by_cases hends : Ends (b.blinkArray i)
    · rw [if_pos hends, if_pos hends]
      exact Function.update_self ..
    · rw [if_neg hends, if_neg hends]
      exact h i hi
  · rw [Function.update_of_ne hij]
    by_cases hends : Ends (b.blinkArray j)
    · rw [if_pos hends, Function.update_of_ne (hplaces.ne hi hj hij)]
      exact h i hi
    · rw [if_neg hends]
      exact h i hi

/-- After the tasklet the screen shows the new phases. -/
theorem Shown.tasklet {b : Fish} {l l' : List Slot} (h : Shown b l)
    (hplaces : Places b l) (hsub : ∀ j ∈ l', j ∈ l) :
    Shown (l'.foldl taskletNode b) l := by
  induction l' generalizing b with
  | nil => exact h
  | cons j l' ih =>
      have hj := hsub j List.mem_cons_self
      exact ih (h.node hplaces hj)
        (hplaces.same (taskletNode_sameLinks b j))
        fun k hk => hsub k (List.mem_cons_of_mem _ hk)

/-! ## Histories -/

/-- The program, and for each slot the ticks since its phase began. -/
structure Blinking where
  fish : Fish
  age : Slot → Nat

/-- The ticks after a call that has led to the state `b'`: a structure that is
synchronised is in the phase of the other one. -/
def ageAfter (fuel : Nat) (B : Blinking) (b' : Fish) : FishCall → Slot → Nat
  | .add arg =>
      match newSlot B.fish arg with
      | some i => Function.update B.age i 0
      | none => B.age
  | .sync arg =>
      match mp1FindHelper fuel B.fish (arg >>> 16).toUInt16,
        mp1FindHelper fuel B.fish arg.toUInt16 with
      | some (some i), some (some j) => Function.update B.age j (B.age i)
      | _, _ => B.age
  | .tasklet => fun i =>
      if On (b'.blinkArray i) ↔ On (B.fish.blinkArray i) then B.age i + 1 else 0
  | _ => B.age

def blinkingStep (fuel : Nat) (B : Blinking) (e : FishCall) : Option Blinking :=
  (fishCall fuel B.fish e).map fun b' =>
    { fish := b', age := ageAfter fuel B b' e }

/-- A structure is added with lengths other than 0, and at a location of its
own. -/
def Blinks (b : Fish) : FishCall → Prop
  | .add arg => arg.onLength ≠ 0 ∧ arg.offLength ≠ 0 ∧
      ∀ l, Chain b l → newSlot b arg ≠ none →
        ∀ j ∈ l, (b.blinkArray j).location ≠ arg.location
  | _ => True

/-- A call that returns. -/
def BlinkingStep (B : Blinking) (e : FishCall) (B' : Blinking) : Prop :=
  Blinks B.fish e ∧ ∃ fuel, blinkingStep fuel B e = some B'

/-- A list whose structures are in the middle of their phases: the countdown says
how many ticks are left. -/
def Blinking.start (b : Fish) : Blinking :=
  { fish := b
    age := fun i =>
      (phaseLength (b.blinkArray i)).toNat - (b.blinkArray i).countdown.toNat }

/-- The screen shows the phase of every structure of the list, the tasklet
returns, and it turns a structure exactly when its phase has lasted as long as
it should. -/
structure InPhase (B : Blinking) : Prop where
  shown : ∀ l, Chain B.fish l → Shown B.fish l
  ticks : ∃ n, (fishCall n B.fish .tasklet).isSome
  turns : ∀ l n b', Chain B.fish l → fishCall n B.fish .tasklet = some b' →
    ∀ i ∈ l, (¬(On (b'.blinkArray i) ↔ On (B.fish.blinkArray i)) ↔
      B.age i + 1 = (phaseLength (B.fish.blinkArray i)).toNat)

/-- A structure is not put into a slot of the list, a call does not bring about
a phase of more than 32768 ticks, and it copies an on status only to a structure
whose two characters are the same. -/
def NoLapse (B : Blinking) : FishCall → Prop
  | .add arg => ∀ l i, Chain B.fish l → newSlot B.fish arg = some i →
      i ∉ l ∧ arg.onLength.toNat ≤ 32768
  | .sync arg => ∀ l i j, Chain B.fish l →
      l.find? (At B.fish (arg >>> 16).toUInt16) = some i →
      l.find? (At B.fish arg.toUInt16) = some j →
      On (B.fish.blinkArray i) →
      (B.fish.blinkArray j).onChar = (B.fish.blinkArray j).offChar
  | .tasklet => ∀ l i, Chain B.fish l → i ∈ l → Ends (B.fish.blinkArray i) →
      (nextLength (B.fish.blinkArray i)).toNat ≤ 32768
  | _ => True

/-- A structure in the middle of one of its phases. -/
structure Running (s : BlinkStruct) : Prop where
  onLength : s.onLength ≠ 0
  offLength : s.offLength ≠ 0
  begun : s.countdown ≠ 0
  within : s.countdown.toNat ≤ (phaseLength s).toNat

/-- The countdown of a structure fits the ticks since its phase began, and is not
negative to the tasklet. -/
structure Counts (s : BlinkStruct) (age : Nat) : Prop where
  onLength : s.onLength ≠ 0
  offLength : s.offLength ≠ 0
  young : age < (phaseLength s).toNat
  short : s.countdown.toNat ≤ 32768
  left : s.countdown.toNat = (phaseLength s).toNat - age

/-- What the calls keep. -/
structure Steady (B : Blinking) (l : List Slot) : Prop where
  chain : Chain B.fish l
  places : Places B.fish l
  shown : Shown B.fish l
  counts : ∀ i ∈ l, Counts (B.fish.blinkArray i) (B.age i)

variable {B B' : Blinking} {l : List Slot}

theorem Steady.inPhase (h : Steady B l) : InPhase B := by
  have honly : ∀ l', Chain B.fish l' → l' = l := fun l' h' =>
    ChainFrom.unique h' h.chain
  refine { shown := ?shown, ticks := tasklet_returns h.chain, turns := ?turns }
  case shown =>
    intro l' h'
    rw [honly l' h']
    exact h.shown
  case turns =>
    intro l' n b' h' hcall i hi
    rw [honly l' h'] at hi
    have hslot := foldl_taskletNode_slot (ChainFrom.nodup h.chain) hi B.fish
    rw [tasklet_chain h.chain hcall, hslot, ticked_turns]
    have hcounts := h.counts i hi
    exact ends_iff hcounts.young hcounts.short hcounts.left

/-- A structure that runs, with at most 32768 ticks to go. -/
theorem Running.counts {s : BlinkStruct} (h : Running s)
    (hshort : s.countdown.toNat ≤ 32768) :
    Counts s ((phaseLength s).toNat - s.countdown.toNat) := by
  have hwithin := h.within
  have hpos : 0 < s.countdown.toNat := by
    have hne := h.begun
    rw [ne_eq, ← UInt16.toNat_inj] at hne
    exact Nat.pos_of_ne_zero hne
  exact
    { onLength := h.onLength, offLength := h.offLength, young := by omega
      short := hshort, left := by omega }

/-- A structure at the start of a phase. -/
theorem Running.begin {s : BlinkStruct} (hon : s.onLength ≠ 0)
    (hoff : s.offLength ≠ 0) (hcount : s.countdown = phaseLength s) :
    Running s := by
  have hne : phaseLength s ≠ 0 := by
    unfold phaseLength
    split
    · exact hon
    · exact hoff
  refine { onLength := hon, offLength := hoff, begun := ?_, within := ?_ }
  · rw [hcount]
    exact hne
  · rw [hcount]

/-- The same with at most 32768 ticks to go. -/
theorem Counts.begin {s : BlinkStruct} (hon : s.onLength ≠ 0)
    (hoff : s.offLength ≠ 0) (hcount : s.countdown = phaseLength s)
    (hshort : (phaseLength s).toNat ≤ 32768) : Counts s 0 := by
  have hcounts := (Running.begin hon hoff hcount).counts (by rw [hcount]; exact hshort)
  rw [hcount, Nat.sub_self] at hcounts
  exact hcounts

/-- A tick. -/
theorem Counts.tick {s : BlinkStruct} {age : Nat} (h : Counts s age)
    (hnext : Ends s → (nextLength s).toNat ≤ 32768) :
    Counts (ticked s) (if On (ticked s) ↔ On s then age + 1 else 0) := by
  have hturns := ticked_turns s
  by_cases hends : Ends s
  · rw [if_neg (hturns.2 hends), ticked, if_pos hends]
    refine .begin h.onLength h.offLength ?_ ?_
    · rw [phaseLength_turned]
      rfl
    · rw [phaseLength_turned]
      exact hnext hends
  · have hstay : On (ticked s) ↔ On s := not_not.1 fun hno => hends (hturns.1 hno)
    rw [if_pos hstay, ticked, if_neg hends]
    obtain ⟨hon, hoff, hyoung, hshort, hleft⟩ := h
    have hlast : ¬age + 1 = (phaseLength s).toNat := fun heq =>
      hends ((ends_iff hyoung hshort hleft).2 heq)
    have hdown := toNat_pred (n := s.countdown) (by omega)
    have hlength : phaseLength { s with countdown := s.countdown - 1 } =
        phaseLength s := rfl
    refine { onLength := hon, offLength := hoff, young := ?_, short := ?_
             left := ?_ }
    · rw [hlength]
      omega
    · dsimp only
      omega
    · rw [hlength]
      dsimp only
      omega

/-! ## The calls -/

/-- A structure is added at the start of its on phase. -/
theorem on_added (b : Fish) (arg : BlinkStruct) : On (added b arg) := by
  show (1 : UInt16) &&& 1 ≠ 0
  decide

theorem phaseLength_added (b : Fish) (arg : BlinkStruct) :
    phaseLength (added b arg) = arg.onLength :=
  if_pos (on_added b arg)

theorem Steady.add (h : Steady B l) {arg : BlinkStruct} {i : Slot}
    (hslot : newSlot B.fish arg = some i) (hnew : i ∉ l)
    (hblinks : Blinks B.fish (.add arg)) (hshort : arg.onLength.toNat ≤ 32768) :
    Steady { fish := (mp1IoctlAdd B.fish arg).1
             age := Function.update B.age i 0 } (i :: l) := by
  obtain ⟨honLength, hoffLength, happart⟩ := hblinks
  have htaken : newSlot B.fish arg ≠ none := by
    rw [hslot]
    exact Option.some_ne_none i
  have hplace := happart l h.chain htaken
  have hchain := chain_add h.chain hslot hnew
  have hsame : ∀ j ∈ l, ((mp1IoctlAdd B.fish arg).1.blinkArray j).location =
      (B.fish.blinkArray j).location := by
    intro j hj
    have hne : j ≠ i := fun heq => hnew (heq ▸ hj)
    rw [add_others hslot hne]
  have hplaces : Places (mp1IoctlAdd B.fish arg).1 (i :: l) := by
    unfold Places
    rw [List.map_cons, List.map_congr_left hsame, add_slot hslot,
      List.nodup_cons]
    refine ⟨fun hmem => ?_, h.places⟩
    obtain ⟨j, hj, heq⟩ := List.mem_map.1 hmem
    exact hplace j hj heq
  have hon := on_added B.fish arg
  have hlength := phaseLength_added B.fish arg
  have hvmem : (mp1IoctlAdd B.fish arg).1.vmem =
      Function.update B.fish.vmem (arg.location.toNat * 2) arg.onChar := by
    rw [add_some hslot]
    rfl
  refine { chain := hchain, places := hplaces, shown := ?shown
           counts := ?counts }
  case shown =>
    intro j hj
    dsimp only
    by_cases hij : j = i
    · subst hij
      rw [add_slot hslot, hvmem, phaseChar, if_pos hon]
      exact Function.update_self ..
    · have hmem : j ∈ l := (List.mem_cons.1 hj).resolve_left hij
      have hne : (B.fish.blinkArray j).location.toNat * 2 ≠
          arg.location.toNat * 2 := by
        have hplace := hplaces.ne hj List.mem_cons_self hij
        rw [add_slot hslot, add_others hslot hij] at hplace
        exact hplace
      rw [add_others hslot hij, hvmem, Function.update_of_ne hne]
      exact h.shown j hmem
  case counts =>
    intro j hj
    dsimp only
    by_cases hij : j = i
    · subst hij
      rw [add_slot hslot, Function.update_self]
      refine .begin honLength hoffLength ?_ ?_
      · rw [hlength]
        rfl
      · rw [hlength]
        exact hshort
    · rw [add_others hslot hij, Function.update_of_ne hij]
      exact h.counts j ((List.mem_cons.1 hj).resolve_left hij)

theorem Steady.remove {xs ys : List Slot} {i : Slot}
    (h : Steady B (xs ++ i :: ys)) :
    Steady { fish := unlinked B.fish xs i, age := B.age } (xs ++ ys) := by
  have hperm := (ChainFrom.nodup h.chain).perm List.perm_middle
  have hgone : i ∉ xs ++ ys := (List.nodup_cons.1 hperm).1
  have hsub : (xs ++ ys).Sublist (xs ++ i :: ys) :=
    List.Sublist.append_left (List.sublist_cons_self i ys) xs
  have hslot : ∀ j ∈ xs ++ ys, ∃ p, (unlinked B.fish xs i).blinkArray j =
      { B.fish.blinkArray j with next := p } := by
    intro j hj
    apply unlinked_slot B.fish xs
    rintro rfl
    exact hgone hj
  have hvmem : (unlinked B.fish xs i).vmem = B.fish.vmem := by
    unfold unlinked
    cases lastCell none xs <;> rfl
  refine { chain := chain_unlinked h.chain, places := ?places, shown := ?shown
           counts := ?counts }
  case places =>
    have hsame : ∀ j ∈ xs ++ ys,
        ((unlinked B.fish xs i).blinkArray j).location =
          (B.fish.blinkArray j).location := by
      intro j hj
      obtain ⟨p, hp⟩ := hslot j hj
      rw [hp]
    unfold Places
    rw [List.map_congr_left hsame]
    exact h.places.sublist (hsub.map _)
  case shown =>
    intro j hj
    obtain ⟨p, hp⟩ := hslot j hj
    dsimp only
    rw [hp, hvmem]
    exact h.shown j (hsub.subset hj)
  case counts =>
    intro j hj
    obtain ⟨p, hp⟩ := hslot j hj
    have hold := h.counts j (hsub.subset hj)
    dsimp only
    rw [hp]
    exact
      { onLength := hold.onLength, offLength := hold.offLength
        young := hold.young, short := hold.short, left := hold.left }

/-- The structure that is synchronised is drawn as it should if the off
character is the right one. -/
theorem Steady.sync (h : Steady B l) {i j : Slot} (hi : i ∈ l) (hj : j ∈ l)
    (hchar : On (B.fish.blinkArray i) →
      (B.fish.blinkArray j).onChar = (B.fish.blinkArray j).offChar) :
    Steady
      { fish :=
          mp1Poke (B.fish.setSlot j
              (syncCopy (B.fish.blinkArray i) (B.fish.blinkArray j)))
            (syncChar (syncCopy (B.fish.blinkArray i) (B.fish.blinkArray j)))
            ((B.fish.blinkArray j).location.toNat * 2)
        age := Function.update B.age j (B.age i) } l := by
  have hset : SameLinks B.fish (B.fish.setSlot j
      (syncCopy (B.fish.blinkArray i) (B.fish.blinkArray j))) :=
    .setSlot B.fish rfl rfl
  have hsame := hset.trans (.poke _
    (syncChar (syncCopy (B.fish.blinkArray i) (B.fish.blinkArray j)))
    ((B.fish.blinkArray j).location.toNat * 2))
  refine { chain := hsame.chain h.chain, places := h.places.same hsame
           shown := ?shown, counts := ?counts }
  case shown =>
    intro k hk
    show Function.update B.fish.vmem _ _
      (((B.fish.setSlot j _).blinkArray k).location.toNat * 2) =
        phaseChar ((B.fish.setSlot j _).blinkArray k)
    by_cases hkj : k = j
    · subst hkj
      rw [setSlot_self, syncCopy_location, Function.update_self, syncChar_off,
        phaseChar]
      split
      case isTrue hon => exact (hchar hon).symm
      case isFalse => rfl
    · rw [setSlot_ne _ _ hkj, Function.update_of_ne (h.places.ne hk hj hkj)]
      exact h.shown k hk
  case counts =>
    intro k hk
    show Counts ((B.fish.setSlot j _).blinkArray k)
      (Function.update B.age j (B.age i) k)
    by_cases hkj : k = j
    · subst hkj
      rw [setSlot_self, Function.update_self]
      have hsource := h.counts i hi
      exact
        { onLength := hsource.onLength, offLength := hsource.offLength
          young := hsource.young, short := hsource.short, left := hsource.left }
    · rw [setSlot_ne _ _ hkj, Function.update_of_ne hkj]
      exact h.counts k hk

theorem Steady.tasklet (h : Steady B l)
    (hnext : ∀ i ∈ l, Ends (B.fish.blinkArray i) →
      (nextLength (B.fish.blinkArray i)).toNat ≤ 32768) (n : Nat) :
    Steady { fish := l.foldl taskletNode B.fish
             age := ageAfter n B (l.foldl taskletNode B.fish) .tasklet } l := by
  have hsame := foldl_taskletNode_sameLinks B.fish l
  refine
    { chain := hsame.chain h.chain, places := h.places.same hsame
      shown := h.shown.tasklet h.places fun _ hj => hj, counts := ?counts }
  intro i hi
  unfold ageAfter
  dsimp only
  rw [foldl_taskletNode_slot (ChainFrom.nodup h.chain) hi]
  exact (h.counts i hi).tick (hnext i hi)

/-! ## Runs -/

theorem blinkingStep_fish {e : FishCall} (h : BlinkingStep B e B') :
    ∃ fuel b', fishCall fuel B.fish e = some b' ∧
      B' = { fish := b', age := ageAfter fuel B b' e } := by
  obtain ⟨-, fuel, hstep⟩ := h
  obtain ⟨b', hcall, rfl⟩ := Option.map_eq_some_iff.1 hstep
  exact ⟨fuel, b', hcall, rfl⟩

/-- One call keeps the phases. -/
theorem Steady.step (h : Steady B l) {e : FishCall}
    (hstep : BlinkingStep B e B') (he : NoLapse B e) : ∃ l', Steady B' l' := by
  have hblinks := hstep.1
  obtain ⟨fuel, b', hcall, rfl⟩ := blinkingStep_fish hstep
  cases e with
  | add arg =>
      cases hcall
      unfold ageAfter
      dsimp only
      cases hslot : newSlot B.fish arg with
      | none =>
          rw [add_none hslot]
          exact ⟨l, h⟩
      | some i =>
          obtain ⟨hnew, hshort⟩ := he l i h.chain hslot
          exact ⟨i :: l, h.add hslot hnew hblinks hshort⟩
  | remove arg =>
      obtain ⟨-, hremoved⟩ := remove_chain h.chain hcall
      rcases hremoved with ⟨-, rfl⟩ | ⟨xs, i, ys, rfl, -, rfl⟩
      · exact ⟨l, h⟩
      · exact ⟨xs ++ ys, h.remove⟩
  | find location =>
      rw [find_chain hcall]
      exact ⟨l, h⟩
  | sync arg =>
      unfold ageAfter
      dsimp only
      rcases sync_effect hcall with ⟨rfl, hnone | hnone⟩ | ⟨i, j, hi, hj, rfl⟩
      · rw [hnone]
        exact ⟨l, h⟩
      · rw [hnone]
        cases hsource : mp1FindHelper fuel B.fish (arg >>> 16).toUInt16 with
        | none => exact ⟨l, h⟩
        | some r => cases r <;> exact ⟨l, h⟩
      · have hsource := (findHelper_chain h.chain hi).symm
        have hdest := (findHelper_chain h.chain hj).symm
        rw [hi, hj]
        exact ⟨l, h.sync (List.mem_of_find?_eq_some hsource)
          (List.mem_of_find?_eq_some hdest) (he l i j h.chain hsource hdest)⟩
  | tasklet =>
      rw [tasklet_chain h.chain hcall]
      exact ⟨l, h.tasklet (fun i hi => he l i h.chain hi) fuel⟩

/-- With more than 32768 ticks to go a structure is out of phase: the next tick
turns it. -/
theorem long_out_of_phase {i : Slot} (hchain : Chain B.fish l) (hi : i ∈ l)
    (hleft : B.age i + (B.fish.blinkArray i).countdown.toNat =
      (phaseLength (B.fish.blinkArray i)).toNat)
    (hlong : 32768 < (B.fish.blinkArray i).countdown.toNat) : ¬InPhase B := by
  intro hin
  obtain ⟨n, hreturns⟩ := tasklet_returns hchain
  obtain ⟨b', hcall⟩ := Option.isSome_iff_exists.1 hreturns
  have hturns := hin.turns l n b' hchain hcall i hi
  have hslot := foldl_taskletNode_slot (ChainFrom.nodup hchain) hi B.fish
  rw [tasklet_chain hchain hcall, hslot, ticked_turns] at hturns
  have hone := hturns.1 (ends_at_once hlong)
  omega

/-- On a list without an end nothing is in phase. -/
theorem endless_out_of_phase (h : ∀ l, ¬Chain B.fish l) : ¬InPhase B := by
  intro hin
  obtain ⟨n, hreturns⟩ := hin.ticks
  obtain ⟨b', hcall⟩ := Option.isSome_iff_exists.1 hreturns
  obtain ⟨l, hchain⟩ := chain_of_taskletLoop hcall
  exact h l hchain

/-- A call that is not allowed breaks the phases. -/
theorem not_inPhase_step (h : Steady B l) {e : FishCall}
    (hstep : BlinkingStep B e B') (he : ¬NoLapse B e) : ¬InPhase B' := by
  obtain ⟨fuel, b', hcall, rfl⟩ := blinkingStep_fish hstep
  cases e with
  | add arg =>
      unfold NoLapse at he
      simp only [not_forall, exists_prop] at he
      obtain ⟨l', i, hchain', hslot, hlapse⟩ := he
      obtain rfl := ChainFrom.unique hchain' h.chain
      cases hcall
      by_cases hnew : i ∈ l'
      · exact endless_out_of_phase (not_chain_add h.chain hslot hnew)
      · have hlong : ¬arg.onLength.toNat ≤ 32768 := fun hshort =>
          hlapse ⟨hnew, hshort⟩
        have hlength := phaseLength_added B.fish arg
        refine long_out_of_phase (i := i) (chain_add h.chain hslot hnew)
          List.mem_cons_self ?left ?long
        case left =>
          unfold ageAfter
          dsimp only
          rw [hslot, add_slot hslot, hlength]
          dsimp only
          rw [Function.update_self, Nat.zero_add]
          rfl
        case long =>
          dsimp only
          rw [add_slot hslot]
          exact Nat.lt_of_not_le hlong
  | sync arg =>
      unfold NoLapse at he
      simp only [not_forall, exists_prop] at he
      obtain ⟨l', i, j, hchain', hsource, hdest, hon, hchar⟩ := he
      obtain rfl := ChainFrom.unique hchain' h.chain
      have hj := List.mem_of_find?_eq_some hdest
      intro hin
      rcases sync_effect hcall with
        ⟨rfl, hnone | hnone⟩ | ⟨i', j', hi', hj', hafter⟩
      · have hfound := findHelper_chain h.chain hnone
        rw [hsource] at hfound
        cases hfound
      · have hfound := findHelper_chain h.chain hnone
        rw [hdest] at hfound
        cases hfound
      · have hi := findHelper_chain h.chain hi'
        have hj₂ := findHelper_chain h.chain hj'
        rw [hsource] at hi
        rw [hdest] at hj₂
        cases hi
        cases hj₂
        have hlinks := sync_sameLinks hcall
        have hshown := hin.shown l' (hlinks.chain h.chain) j hj
        dsimp only at hshown
        rw [hlinks.location j, hafter] at hshown
        -- the off character is drawn, and the structure is on
        have hdrawn : syncChar (syncCopy (B.fish.blinkArray i)
            (B.fish.blinkArray j)) =
            phaseChar (syncCopy (B.fish.blinkArray i)
              (B.fish.blinkArray j)) := by
          simpa [mp1Poke, Fish.setSlot] using hshown
        rw [syncChar_off] at hdrawn
        have hcopied : On (syncCopy (B.fish.blinkArray i)
          (B.fish.blinkArray j)) := hon
        rw [phaseChar, if_pos hcopied] at hdrawn
        exact hchar hdrawn.symm
  | tasklet =>
      unfold NoLapse at he
      simp only [not_forall, exists_prop] at he
      obtain ⟨l', i, hchain', hi, hends, hlong⟩ := he
      obtain rfl := ChainFrom.unique hchain' h.chain
      have hslot := foldl_taskletNode_slot (ChainFrom.nodup h.chain) hi B.fish
      rw [ticked, if_pos hends] at hslot
      rw [tasklet_chain h.chain hcall]
      have hlinks := foldl_taskletNode_sameLinks B.fish l'
      refine long_out_of_phase (i := i) (hlinks.chain h.chain) hi ?left ?long
      case left =>
        unfold ageAfter
        dsimp only
        have hturn : ¬(On (turned (B.fish.blinkArray i)) ↔
            On (B.fish.blinkArray i)) := by
          rw [on_turned]
          tauto
        rw [hslot, if_neg hturn, Nat.zero_add, phaseLength_turned]
        rfl
      case long =>
        dsimp only
        rw [hslot]
        exact Nat.lt_of_not_le hlong
  | remove | find => exact absurd trivial he

/-- On a well-formed list the screen shows the phases, and they last as long as
they should, at the start and in every state of a run exactly if no phase has
more than 32768 ticks to go at the start, and no call puts a structure into a slot
of the list, brings about a phase of more than 32768 ticks or synchronises with a
structure that is on. -/
theorem blinkers_in_phase_iff {b : Fish} {l : List Slot} (hlist : Chain b l)
    (hplaces : Places b l) (hshown : Shown b l)
    (hrunning : ∀ i ∈ l, Running (b.blinkArray i)) {es : List FishCall}
    {B : Blinking} :
    InPhase (.start b) ∧ Run (Within InPhase BlinkingStep) (.start b) es B ↔
      (∀ i ∈ l, (b.blinkArray i).countdown.toNat ≤ 32768) ∧
        Run (Guarded NoLapse BlinkingStep) (.start b) es B := by
  have hsteady : (∀ i ∈ l, (b.blinkArray i).countdown.toNat ≤ 32768) →
      Steady (.start b) l := fun hshort =>
    { chain := hlist, places := hplaces, shown := hshown
      counts := fun i hi => (hrunning i hi).counts (hshort i hi) }
  have hstart : InPhase (.start b) ↔
      ∀ i ∈ l, (b.blinkArray i).countdown.toNat ≤ 32768 := by
    constructor
    · intro hin i hi
      by_contra hlong
      have hwithin := (hrunning i hi).within
      refine long_out_of_phase (B := .start b) hlist hi ?_ ?_ hin
      · dsimp only [Blinking.start]
        omega
      · exact Nat.lt_of_not_le hlong
    · exact fun hshort => (hsteady hshort).inPhase
  rw [hstart, and_congr_right_iff]
  intro hshort
  refine Run.within_iff_guarded (I := fun B => ∃ l, Steady B l)
    ⟨l, hsteady hshort⟩ ?kept ?broken
  case kept =>
    rintro B e B' ⟨l, hsteady⟩ hstep he
    obtain ⟨l', hnext⟩ := hsteady.step hstep he
    exact ⟨⟨l', hnext⟩, hnext.inPhase⟩
  case broken =>
    rintro B e B' ⟨l, hsteady⟩ hstep he
    exact not_inPhase_step hsteady hstep he

/-! ## Runs from the start -/

theorem steady_start (vmem : Nat → Byte) : Steady (.start (.start vmem)) [] :=
  { chain := rfl, places := List.nodup_nil, shown := nofun, counts := nofun }

/-- A call that is allowed, on a list that is known before and after it. -/
theorem Steady.next {l' : List Slot} (h : Steady B l) {e : FishCall}
    (hstep : BlinkingStep B e B') (he : NoLapse B e)
    (hchain : Chain B'.fish l') : Steady B' l' := by
  obtain ⟨l'', hnext⟩ := h.step hstep he
  rwa [ChainFrom.unique hchain hnext.chain]

theorem blinks_add {b : Fish} {arg : BlinkStruct} (h : Chain b l)
    (hlengths : arg.onLength ≠ 0 ∧ arg.offLength ≠ 0)
    (hplace : ∀ j ∈ l, (b.blinkArray j).location ≠ arg.location) :
    Blinks b (.add arg) := by
  refine ⟨hlengths.1, hlengths.2, fun l' hl' _ => ?_⟩
  obtain rfl := ChainFrom.unique hl' h
  exact hplace

/-- A structure may be added to a slot that is not on the list. -/
theorem noLapse_add {arg : BlinkStruct} {i : Slot} (h : Chain B.fish l)
    (hslot : newSlot B.fish arg = some i) (hnew : i ∉ l)
    (hshort : arg.onLength.toNat ≤ 32768) : NoLapse B (.add arg) := by
  intro l' i' hl' hslot'
  obtain rfl := ChainFrom.unique hl' h
  rw [hslot] at hslot'
  cases hslot'
  exact ⟨hnew, hshort⟩

theorem blinking_add {arg : BlinkStruct} (h : Blinks B.fish (.add arg)) :
    ∃ B', BlinkingStep B (.add arg) B' ∧
      B'.fish = (mp1IoctlAdd B.fish arg).1 :=
  ⟨_, ⟨h, 0, rfl⟩, rfl⟩

/-- The first structure of a run. -/
theorem blinking_first (arg : BlinkStruct)
    (hlocation : arg.location.toNat < 80 * 25)
    (hlengths : arg.onLength ≠ 0 ∧ arg.offLength ≠ 0) :
    newSlot (Fish.start fun _ => 0) arg = some 0 ∧
      ∃ B, BlinkingStep (.start (.start fun _ => 0)) (.add arg) B ∧
        B.fish = (mp1IoctlAdd (.start fun _ => 0) arg).1 :=
  ⟨newSlot_first hlocation rfl,
    blinking_add (blinks_add (steady_start _).chain hlengths nofun)⟩

/-- One structure at location 5 in an on phase of `onLength` ticks, `countdown`
of them to go. -/
def oneBlinker (onLength countdown : UInt16) : Fish :=
  { blinkArray := fun i =>
      if i = 0 then
        { blinkAt 5 with onLength := onLength, countdown := countdown, status := 1 }
      else .zero
    listHead := some 0
    vmem := fun _ => (blinkAt 5).onChar }

theorem on_oneBlinker (onLength countdown : UInt16) :
    On ((oneBlinker onLength countdown).blinkArray 0) := by
  show (1 : UInt16) &&& 1 ≠ 0
  decide

/-- It is alone on its list. -/
theorem oneBlinker_list (onLength countdown : UInt16) :
    Chain (oneBlinker onLength countdown) [0] ∧
      Places (oneBlinker onLength countdown) [0] ∧
      Shown (oneBlinker onLength countdown) [0] := by
  refine ⟨⟨rfl, Option.some_ne_none 0, rfl⟩, List.nodup_singleton _, ?_⟩
  intro i hi
  rw [List.mem_singleton.1 hi, phaseChar, if_pos (on_oneBlinker onLength countdown)]
  rfl

theorem oneBlinker_length (onLength countdown : UInt16) :
    phaseLength ((oneBlinker onLength countdown).blinkArray 0) = onLength :=
  if_pos (on_oneBlinker onLength countdown)

theorem oneBlinker_running {onLength countdown : UInt16} (hon : onLength ≠ 0)
    (hbegun : countdown ≠ 0) (hwithin : countdown.toNat ≤ onLength.toNat) :
    ∀ i ∈ [(0 : Slot)], Running ((oneBlinker onLength countdown).blinkArray i) := by
  intro i hi
  rw [List.mem_singleton.1 hi]
  refine
    { onLength := hon, offLength := (by decide : (blinkAt 5).offLength ≠ 0)
      begun := hbegun, within := ?_ }
  rw [oneBlinker_length]
  exact hwithin

/-- In a phase of 40000 ticks with 20000 to go it is in phase, and another one may
be added. -/
theorem oneBlinker_in_phase :
    ∃ B, InPhase (.start (oneBlinker 40000 20000)) ∧
      Run (Within InPhase BlinkingStep) (.start (oneBlinker 40000 20000))
        [.add (blinkAt 40)] B := by
  obtain ⟨hchain, hplaces, hshown⟩ := oneBlinker_list 40000 20000
  have hslot : newSlot (oneBlinker 40000 20000) (blinkAt 40) = some 1 := by
    rw [newSlot, if_neg (by decide), malloc_second (by decide) rfl]
  have hplace : ∀ j ∈ [(0 : Slot)],
      ((oneBlinker 40000 20000).blinkArray j).location ≠ (blinkAt 40).location := by
    intro j hj
    rw [List.mem_singleton.1 hj]
    exact (by decide : (5 : UInt16) ≠ 40)
  obtain ⟨B, hstep, -⟩ := blinking_add (B := .start (oneBlinker 40000 20000))
    (blinks_add hchain (by decide) hplace)
  have hallowed : NoLapse (.start (oneBlinker 40000 20000)) (.add (blinkAt 40)) :=
    noLapse_add hchain hslot (by decide) (by decide)
  have hshort : ∀ i ∈ [(0 : Slot)],
      ((oneBlinker 40000 20000).blinkArray i).countdown.toNat ≤ 32768 := by
    intro i hi
    rw [List.mem_singleton.1 hi]
    exact (by decide : (20000 : UInt16).toNat ≤ 32768)
  exact ⟨B, (blinkers_in_phase_iff hchain hplaces hshown
    (oneBlinker_running (by decide) (by decide) (by decide))).2
      ⟨hshort, .single ⟨hallowed, hstep⟩⟩⟩

/-- Two structures on the list, both on. -/
theorem two_blinkers :
    ∃ B, Run BlinkingStep (.start (.start fun _ => 0))
        [.add (blinkAt 40), .add (blinkAt 5)] B ∧ Steady B [1, 0] ∧
      B.fish.blinkArray 0 = { blinkAt 40 with status := 1, countdown := 7 } ∧
      B.fish.blinkArray 1 =
        { blinkAt 5 with status := 1, countdown := 7, next := some 0 } := by
  obtain ⟨hslot₁, B₁, hstep₁, hfish₁⟩ :=
    blinking_first (blinkAt 40) (by decide) (by decide)
  have hchain₁ : Chain B₁.fish [0] := by
    rw [hfish₁]
    exact chain_add (steady_start _).chain hslot₁ List.not_mem_nil
  have hsteady₁ : Steady B₁ [0] :=
    (steady_start _).next hstep₁
      (noLapse_add (steady_start _).chain hslot₁ List.not_mem_nil (by decide))
      hchain₁
  have hfirst : B₁.fish.blinkArray 0 =
      { blinkAt 40 with status := 1, countdown := 7 } := by
    rw [hfish₁, add_slot hslot₁]
    rfl
  have hslot₂ : newSlot B₁.fish (blinkAt 5) = some 1 := by
    have hused : (B₁.fish.blinkArray 0).location ≠ 0 := by
      rw [hfirst]
      decide
    have hfree : (B₁.fish.blinkArray 1).location = 0 := by
      rw [hfish₁, add_others hslot₁ (by decide)]
      rfl
    rw [newSlot, if_neg (by decide), malloc_second hused hfree]
  have hplace : ∀ j ∈ [(0 : Slot)],
      (B₁.fish.blinkArray j).location ≠ (blinkAt 5).location := by
    intro j hj
    rw [List.mem_singleton.1 hj, hfirst]
    decide
  obtain ⟨B₂, hstep₂, hfish₂⟩ := blinking_add (B := B₁)
    (blinks_add hchain₁ (by decide) hplace)
  have hchain₂ : Chain B₂.fish [1, 0] := by
    rw [hfish₂]
    exact chain_add hchain₁ hslot₂ (by decide)
  have hrun₁ : Run BlinkingStep (.start (.start fun _ => 0))
      [.add (blinkAt 40)] B₁ := .single hstep₁
  refine ⟨B₂, hrun₁.snoc hstep₂,
    hsteady₁.next hstep₂ (noLapse_add hchain₁ hslot₂ (by decide) (by decide))
      hchain₂, ?_, ?_⟩
  · rw [hfish₂, add_others hslot₂ (by decide), hfirst]
  · rw [hfish₂, add_slot hslot₂, added, hfish₁, head_add hslot₁]
    rfl

/-- A structure that is on is copied to another one, which is then drawn off; a
structure is to be on for 40000 ticks, or is already; and one at location 0 is
overwritten, so that the tasklet goes round. -/
theorem phases_lapse :
    (∃ B, Run BlinkingStep (.start (.start fun _ => 0))
        [.add (blinkAt 40), .add (blinkAt 5), .sync (40 * 65536 + 5)] B ∧
      On (B.fish.blinkArray 1) ∧ B.fish.vmem (5 * 2) = (blinkAt 5).offChar ∧
      ¬InPhase B) ∧
    (∃ B, Run BlinkingStep (.start (.start fun _ => 0))
        [.add { blinkAt 5 with onLength := 40000 }] B ∧ ¬InPhase B) ∧
    (∃ b l, Chain b l ∧ Places b l ∧ Shown b l ∧
      (∀ i ∈ l, Running (b.blinkArray i)) ∧ ¬InPhase (.start b)) ∧
    ∃ B, Run BlinkingStep (.start (.start fun _ => 0))
        [.add (blinkAt 0), .add (blinkAt 5)] B ∧
      (∀ n, fishCall n B.fish .tasklet = none) ∧ ¬InPhase B := by
  refine ⟨?_, ?_, ?_, ?_⟩
  · obtain ⟨B, hrun, hsteady, hfirst, hsecond⟩ := two_blinkers
    have hsource : [1, 0].find? (At B.fish 40) = some (0 : Slot) := by
      simp [At, hfirst, hsecond, blinkAt]
    have hdest : [1, 0].find? (At B.fish 5) = some (1 : Slot) := by
      simp [At, hsecond, blinkAt]
    have hcall : fishCall 3 B.fish (.sync (40 * 65536 + 5)) =
        some (mp1Poke (B.fish.setSlot 1
            (syncCopy (B.fish.blinkArray 0) (B.fish.blinkArray 1)))
          (syncChar (syncCopy (B.fish.blinkArray 0) (B.fish.blinkArray 1)))
          ((B.fish.blinkArray 1).location.toNat * 2)) := by
      have hi := findHelper_returns hsteady.chain 40
      have hj := findHelper_returns hsteady.chain 5
      rw [hsource] at hi
      rw [hdest] at hj
      exact sync_found hi hj
    have hstep : BlinkingStep B (.sync (40 * 65536 + 5)) _ :=
      ⟨trivial, 3, congrArg (Option.map _) hcall⟩
    refine ⟨_, hrun.snoc hstep, ?_, ?_, not_inPhase_step hsteady hstep ?_⟩
    · show On ((Fish.setSlot ..).blinkArray 1)
      rw [setSlot_self, hfirst, hsecond]
      decide
    · show Function.update _ _ _ _ = _
      rw [syncChar_off, hsecond]
      exact Function.update_self ..
    · intro hsame
      have hchars := hsame [1, 0] 0 1 hsteady.chain hsource hdest
      rw [hfirst, hsecond] at hchars
      exact absurd (hchars (by decide)) (by decide)
  · obtain ⟨hslot, B, hstep, -⟩ :=
      blinking_first { blinkAt 5 with onLength := 40000 } (by decide)
        (by decide)
    refine ⟨B, .single hstep, not_inPhase_step (steady_start _) hstep ?_⟩
    intro hallowed
    exact absurd (hallowed [] 0 (steady_start _).chain hslot).2 (by decide)
  · obtain ⟨hchain, hplaces, hshown⟩ := oneBlinker_list 40000 40000
    refine ⟨oneBlinker 40000 40000, [0], hchain, hplaces, hshown,
      oneBlinker_running (by decide) (by decide) (by decide), ?_⟩
    exact long_out_of_phase (B := .start (oneBlinker 40000 40000)) (i := 0) hchain
      List.mem_cons_self (by decide) (by decide)
  · obtain ⟨hslot₁, B₁, hstep₁, hfish₁⟩ :=
      blinking_first (blinkAt 0) (by decide) (by decide)
    have hchain₁ : Chain B₁.fish [0] := by
      rw [hfish₁]
      exact chain_add (steady_start _).chain hslot₁ List.not_mem_nil
    have hzero : (B₁.fish.blinkArray 0).location = 0 := by
      rw [hfish₁, add_slot hslot₁]
      rfl
    have hslot₂ : newSlot B₁.fish (blinkAt 5) = some 0 :=
      newSlot_first (by decide) hzero
    have hplace : ∀ j ∈ [(0 : Slot)],
        (B₁.fish.blinkArray j).location ≠ (blinkAt 5).location := by
      intro j hj
      rw [List.mem_singleton.1 hj, hzero]
      decide
    obtain ⟨B₂, hstep₂, hfish₂⟩ := blinking_add (B := B₁)
      (blinks_add hchain₁ (by decide) hplace)
    have hendless : ∀ l, ¬Chain B₂.fish l := by
      rw [hfish₂]
      exact not_chain_add hchain₁ hslot₂ List.mem_cons_self
    have hrun₁ : Run BlinkingStep (.start (.start fun _ => 0))
        [.add (blinkAt 0)] B₁ := .single hstep₁
    refine ⟨B₂, hrun₁.snoc hstep₂, fun n => ?_, endless_out_of_phase hendless⟩
    by_contra hreturns
    obtain ⟨b', hcall⟩ := Option.ne_none_iff_exists'.1 hreturns
    obtain ⟨l, hchain⟩ := chain_of_taskletLoop hcall
    exact hendless l hchain

end MongOS.Proofs.BlinkPhases
