import MongOS.Verified.Periodic
import MongOS.Proofs.BlinkPhases
import MongOS.Proofs.FishFrames

/-!
# What `fish` draws

The list of blinking characters as an animation: every character has an age, the
ticks since it was added, and its phase is a periodic signal of the age.  What the
program has stored last is the phase of every character, and it stores nothing at
other places.  Others may store to the same page: that is not in the memory here.

* `Animates` — the list, its structures and the stores; `Animates.add`,
  `Animates.tasklet`, `Animates.sync` and `Animates.remove` are its steps.
* `fish_shows_frames` — the two frames take turns of 15 ticks.
* `fish_ends` — the whole program.
-/

namespace MongOS.Proofs.FishScreen

open MongOS.Model
open MongOS.Verified
open MongOS.Proofs.BlinkList
open MongOS.Proofs.BlinkPhases
open MongOS.Proofs.CommandLine
open MongOS.Proofs.DescriptorCalls
open MongOS.Proofs.DirListing
open MongOS.Proofs.FileReads
open MongOS.Proofs.UserCalls
open MongOS.Proofs.FilePrograms
open MongOS.Proofs.FishFrames

variable {σ : Type}

/-! ## One character -/

/-- A character that blinks, with the ticks since it was added. -/
structure Blinker where
  cell : Cell
  onLength : Nat
  offLength : Nat
  age : Nat

namespace Blinker

/-- The character is on. -/
def IsOn (x : Blinker) : Prop := High x.onLength x.offLength x.age

instance (x : Blinker) : Decidable x.IsOn := inferInstanceAs (Decidable (High ..))

/-- What is shown. -/
def char (x : Blinker) : Byte := if x.IsOn then x.cell.onChar else x.cell.offChar

/-- One tick later. -/
def tick (x : Blinker) : Blinker := { x with age := x.age + 1 }

/-- `n` ticks later. -/
def later (n : Nat) (x : Blinker) : Blinker := { x with age := x.age + n }

/-- The character is on the screen, and its phases are not too long for the test of
the tasklet. -/
structure Proper (x : Blinker) : Prop where
  inside : 0 < x.cell.location ∧ x.cell.location < 80 * 25
  on : 0 < x.onLength ∧ x.onLength ≤ 32768
  off : 0 < x.offLength ∧ x.offLength ≤ 32768

/-- The structure of a character. -/
structure Stored (x : Blinker) (s : BlinkStruct) : Prop where
  location : s.location.toNat = x.cell.location
  onChar : s.onChar = x.cell.onChar
  offChar : s.offChar = x.cell.offChar
  onLength : s.onLength.toNat = x.onLength
  offLength : s.offLength.toNat = x.offLength
  on : On s ↔ x.IsOn
  countdown : s.countdown.toNat = roundsLeft x.onLength x.offLength x.age

variable {x : Blinker} {s : BlinkStruct}

theorem Stored.phaseChar (h : Stored x s) : phaseChar s = x.char := by
  unfold BlinkPhases.phaseChar char
  by_cases hon : On s
  · rw [if_pos hon, if_pos (h.on.1 hon), h.onChar]
  · rw [if_neg hon, if_neg fun hx => hon (h.on.2 hx), h.offChar]

/-- The phase ends when no tick is left. -/
theorem Stored.ends (h : Stored x s) (hx : x.Proper) :
    Ends s ↔ roundsLeft x.onLength x.offLength x.age = 1 := by
  have hpos := roundsLeft_pos (b := x.offLength) (n := x.age) hx.on.1
  have hle := roundsLeft_le (a := x.onLength) (b := x.offLength) (n := x.age)
  have hlength : (phaseLength s).toNat = lasts x.onLength x.offLength x.age := by
    unfold phaseLength lasts
    by_cases hon : On s
    · rw [if_pos hon, h.onLength]
      exact (if_pos (h.on.1 hon)).symm
    · rw [if_neg hon, h.offLength]
      exact (if_neg fun hx => hon (h.on.2 hx)).symm
  have hlong : lasts x.onLength x.offLength x.age ≤ 32768 := by
    unfold lasts
    split
    · exact hx.on.2
    · exact hx.off.2
  have hends := ends_iff (s := s) (a := (phaseLength s).toNat - s.countdown.toNat)
    (by rw [hlength, h.countdown]; omega) (by rw [h.countdown]; omega)
    (by rw [hlength, h.countdown]; omega)
  rw [hends, hlength, h.countdown]
  omega

theorem Stored.tick (h : Stored x s) (hx : x.Proper) : Stored x.tick (ticked s) := by
  have hends := h.ends hx
  have hhigh := high_succ (n := x.age) hx.on.1 hx.off.1
  have hleft := roundsLeft_succ (n := x.age) hx.on.1 hx.off.1
  have hpos := roundsLeft_pos (b := x.offLength) (n := x.age) hx.on.1
  unfold ticked
  by_cases hlast : Ends s
  · rw [if_pos (hends.1 hlast)] at hhigh hleft
    rw [if_pos hlast]
    refine { location := h.location, onChar := h.onChar, offChar := h.offChar
             onLength := h.onLength, offLength := h.offLength, on := ?_, countdown := ?_ }
    · rw [on_turned, h.on]
      exact hhigh.symm
    · refine Eq.trans ?_ hleft.symm
      show (nextLength s).toNat = _
      unfold nextLength
      by_cases hon : On s
      · rw [if_pos hon, h.offLength]
        exact (if_pos (h.on.1 hon)).symm
      · rw [if_neg hon, h.onLength]
        exact (if_neg fun hx => hon (h.on.2 hx)).symm
  · have hmore : roundsLeft x.onLength x.offLength x.age ≠ 1 := fun hone =>
      hlast (hends.2 hone)
    rw [if_neg hmore] at hhigh hleft
    rw [if_neg hlast]
    refine { location := h.location, onChar := h.onChar, offChar := h.offChar
             onLength := h.onLength, offLength := h.offLength
             on := h.on.trans hhigh.symm, countdown := ?_ }
    refine Eq.trans ?_ hleft.symm
    show (s.countdown - 1).toNat = _
    rw [toNat_pred (by rw [h.countdown]; omega), h.countdown]

end Blinker

/-! ## The list and the screen -/

/-- The structures on the list `l` are those of the characters `who`, each at a place
of its own, and the screen shows them on top of `vmem`. -/
structure Animates (who : Slot → Blinker) (l : List Slot) (vmem : Nat → Byte)
    (b : Fish) : Prop where
  chain : Chain b l
  stored : ∀ i ∈ l, (who i).Stored (b.blinkArray i)
  proper : ∀ i ∈ l, (who i).Proper
  places : Places b l
  unused : ∀ i, i ∉ l → (b.blinkArray i).location = 0
  shown : Shown b l
  rest : ∀ o, (∀ i ∈ l, o ≠ (b.blinkArray i).location.toNat * 2) → b.vmem o = vmem o

theorem animates_start (who : Slot → Blinker) (vmem : Nat → Byte) :
    Animates who [] vmem (.start vmem) :=
  { chain := rfl, stored := fun _ h => (List.not_mem_nil h).elim
    proper := fun _ h => (List.not_mem_nil h).elim
    places := List.nodup_nil, unused := fun _ _ => rfl
    shown := fun _ h => (List.not_mem_nil h).elim, rest := fun _ _ => rfl }

namespace Animates

variable {who : Slot → Blinker} {vmem : Nat → Byte} {b : Fish} {l : List Slot}

/-- The screen at the place of a character. -/
theorem char (h : Animates who l vmem b) {x : Blinker} (hx : x ∈ l.map who) :
    b.vmem (x.cell.location * 2) = x.char := by
  obtain ⟨i, hi, rfl⟩ := List.mem_map.1 hx
  rw [← (h.stored i hi).location, h.shown i hi, (h.stored i hi).phaseChar]

/-- The screen at the other places. -/
theorem elsewhere (h : Animates who l vmem b) {o : Nat}
    (ho : ∀ x ∈ l.map who, o ≠ x.cell.location * 2) : b.vmem o = vmem o := by
  refine h.rest o fun i hi => ?_
  rw [(h.stored i hi).location]
  exact ho _ (List.mem_map_of_mem hi)

/-- The locations on the list lie on the screen. -/
theorem inside (h : Animates who l vmem b) {i : Slot} (hi : i ∈ l) :
    0 < (b.blinkArray i).location.toNat ∧ (b.blinkArray i).location.toNat < 80 * 25 := by
  rw [(h.stored i hi).location]
  exact (h.proper i hi).inside

/-- No list has a structure at every place of the screen. -/
theorem length_lt (h : Animates who l vmem b) : l.length < 80 * 25 := by
  have hnodup : (l.map fun i => (b.blinkArray i).location.toNat).Nodup := by
    have hmap : (l.map fun i => (b.blinkArray i).location.toNat) =
        (l.map fun i => (b.blinkArray i).location).map UInt16.toNat := by
      rw [List.map_map]
      rfl
    rw [hmap]
    exact h.places.map fun _ _ heq => UInt16.toNat_inj.1 heq
  have hsub : (l.map fun i => (b.blinkArray i).location.toNat) ⊆
      List.range' 1 (80 * 25 - 1) := by
    intro n hn
    obtain ⟨i, hi, rfl⟩ := List.mem_map.1 hn
    have hinside := h.inside hi
    exact List.mem_range'_1.2 (by omega)
  have hle := (List.subperm_of_subset hnodup hsub).length_le
  rw [List.length_map, List.length_range'] at hle
  omega

/-- `mp1_malloc` finds a slot that is not on the list. -/
theorem malloc (h : Animates who l vmem b) : ∃ i, mp1Malloc b = some i ∧ i ∉ l := by
  have hfree : ∃ i, i ∉ l := by
    by_contra hall
    have hsub : List.finRange (80 * 25) ⊆ l := fun i _ => by
      by_contra hi
      exact hall ⟨i, hi⟩
    have hle := (List.subperm_of_subset (List.nodup_finRange _) hsub).length_le
    rw [List.length_finRange] at hle
    have hlt := h.length_lt
    omega
  obtain ⟨j, hj⟩ := hfree
  have hsome : (mp1Malloc b).isSome := by
    unfold mp1Malloc
    rw [List.find?_isSome]
    exact ⟨j, List.mem_finRange j, decide_eq_true (h.unused j hj)⟩
  obtain ⟨i, hi⟩ := Option.isSome_iff_exists.1 hsome
  refine ⟨i, hi, fun hmem => ?_⟩
  have hinside := h.inside hmem
  rw [malloc_location hi] at hinside
  exact absurd hinside.1 (by decide)

end Animates

/-- What the caller of `mp1_ioctl_add` hands over for a character. -/
structure Requests (arg : BlinkStruct) (x : Blinker) : Prop where
  location : arg.location.toNat = x.cell.location
  onChar : arg.onChar = x.cell.onChar
  offChar : arg.offChar = x.cell.offChar
  onLength : arg.onLength.toNat = x.onLength
  offLength : arg.offLength.toNat = x.offLength
  age : x.age = 0

namespace Animates

variable {who : Slot → Blinker} {vmem : Nat → Byte} {b : Fish} {l : List Slot}

theorem map_update {i : Slot} (hi : i ∉ l) (x : Blinker) :
    (i :: l).map (Function.update who i x) = x :: l.map who := by
  rw [List.map_cons, Function.update_self]
  refine congrArg (x :: ·) (List.map_congr_left fun j hj => ?_)
  have hne : j ≠ i := fun heq => hi (heq ▸ hj)
  exact Function.update_of_ne hne _ _

/-- A character at a new place. -/
theorem add (h : Animates who l vmem b) {arg : BlinkStruct} {x : Blinker}
    (hx : x.Proper) (harg : Requests arg x)
    (hnew : ∀ y ∈ l.map who, y.cell.location ≠ x.cell.location) :
    ∃ i, i ∉ l ∧
      Animates (Function.update who i x) (i :: l) vmem (mp1IoctlAdd b arg).1 := by
  obtain ⟨i, hmalloc, hi⟩ := h.malloc
  have hslot : newSlot b arg = some i := by
    have hinside := hx.inside.2
    have hlocation := harg.location
    unfold newSlot
    rw [if_neg (by omega), hmalloc]
  have hne : ∀ j ∈ l, j ≠ i := fun j hj heq => hi (heq ▸ hj)
  have hsame : ∀ j ∈ l, (mp1IoctlAdd b arg).1.blinkArray j = b.blinkArray j :=
    fun j hj => add_others hslot (hne j hj)
  have hself := add_slot hslot
  have hother : ∀ j ∈ l, (b.blinkArray j).location ≠ arg.location := by
    intro j hj heq
    apply hnew _ (List.mem_map_of_mem hj)
    rw [← (h.stored j hj).location, heq, harg.location]
  have hvmem : (mp1IoctlAdd b arg).1.vmem =
      Function.update b.vmem (arg.location.toNat * 2) arg.onChar := by
    rw [add_some hslot]
    rfl
  have honStatus := on_added b arg
  have hstored : x.Stored (added b arg) := by
    refine { location := harg.location, onChar := harg.onChar, offChar := harg.offChar
             onLength := harg.onLength, offLength := harg.offLength
             on := iff_of_true honStatus ?_, countdown := ?_ }
    · unfold Blinker.IsOn
      rw [harg.age]
      exact high_zero hx.on.1
    · rw [harg.age, roundsLeft_zero hx.on.1]
      exact harg.onLength
  refine ⟨i, hi,
    { chain := chain_add h.chain hslot hi
      stored := List.forall_mem_cons.2 ⟨?_, fun j hj => ?_⟩
      proper := List.forall_mem_cons.2 ⟨?_, fun j hj => ?_⟩
      places := List.nodup_cons.2 ⟨?_, ?_⟩
      unused := fun j hj => ?_
      shown := List.forall_mem_cons.2 ⟨?_, fun j hj => ?_⟩
      rest := fun o ho => ?_ }⟩
  · rw [hself, Function.update_self]
    exact hstored
  · rw [hsame j hj, Function.update_of_ne (hne j hj)]
    exact h.stored j hj
  · rw [Function.update_self]
    exact hx
  · rw [Function.update_of_ne (hne j hj)]
    exact h.proper j hj
  · intro hmem
    obtain ⟨j, hj, hplace⟩ := List.mem_map.1 hmem
    dsimp only at hplace
    rw [hsame j hj, hself] at hplace
    exact hother j hj hplace
  · rw [List.map_congr_left fun j hj => congrArg BlinkStruct.location (hsame j hj)]
    exact h.places
  · rw [add_others hslot (List.ne_of_not_mem_cons hj)]
    exact h.unused j (List.not_mem_of_not_mem_cons hj)
  · rw [hvmem, hself, hstored.phaseChar]
    show Function.update b.vmem (arg.location.toNat * 2) _ (arg.location.toNat * 2) = _
    rw [Function.update_self, ← hstored.phaseChar, phaseChar, if_pos honStatus]
    rfl
  · have hplace : (b.blinkArray j).location.toNat * 2 ≠ arg.location.toNat * 2 := by
      intro heq
      exact hother j hj (UInt16.toNat_inj.1 (by omega))
    rw [hvmem, hsame j hj, Function.update_of_ne hplace]
    exact h.shown j hj
  · obtain ⟨hfirst, hrest⟩ := List.forall_mem_cons.1 ho
    rw [hself] at hfirst
    have hfirst : o ≠ arg.location.toNat * 2 := hfirst
    rw [hvmem, Function.update_of_ne hfirst]
    refine h.rest o fun j hj => ?_
    rw [← hsame j hj]
    exact hrest j hj

/-- The tasklet leaves the rest of the screen alone. -/
theorem foldl_taskletNode_rest {o : Nat} (b : Fish) (l : List Slot)
    (ho : ∀ i ∈ l, o ≠ (b.blinkArray i).location.toNat * 2) :
    (l.foldl taskletNode b).vmem o = b.vmem o := by
  induction l generalizing b with
  | nil => rfl
  | cons j l ih =>
      obtain ⟨hj, hl⟩ := List.forall_mem_cons.1 ho
      rw [List.foldl_cons, ih]
      · rw [taskletNode_eq]
        dsimp only
        split
        · exact Function.update_of_ne hj _ _
        · rfl
      · intro i hi
        rw [(taskletNode_sameLinks b j).location]
        exact hl i hi

/-- One tick. -/
theorem tasklet (h : Animates who l vmem b) {fuel : Nat} (hfuel : 80 * 25 ≤ fuel) :
    ∃ b', mp1RtcTasklet fuel b = some b' ∧
      Animates (fun i => (who i).tick) l vmem b' := by
  have hlength := h.length_lt
  have hlinks := foldl_taskletNode_sameLinks b l
  have hcall : mp1RtcTasklet fuel b = some (l.foldl taskletNode b) := by
    rw [mp1RtcTasklet, taskletLoop_chain h.chain, if_pos (by omega)]
  refine ⟨_, hcall,
    { chain := hlinks.chain h.chain
      stored := fun i hi => ?_
      proper := fun i hi => { h.proper i hi with }
      places := h.places.same hlinks
      unused := fun i hi => (hlinks.location i).trans (h.unused i hi)
      shown := h.shown.tasklet h.places fun _ hj => hj
      rest := fun o ho => ?_ }⟩
  · rw [foldl_taskletNode_slot (ChainFrom.nodup h.chain) hi]
    exact (h.stored i hi).tick (h.proper i hi)
  · have ho' : ∀ i ∈ l, o ≠ (b.blinkArray i).location.toNat * 2 := by
      intro i hi
      rw [← hlinks.location i]
      exact ho i hi
    rw [foldl_taskletNode_rest b l ho']
    exact h.rest o ho'

/-- Any number of ticks. -/
theorem tasklets (h : Animates who l vmem b) {fuel : Nat} (hfuel : 80 * 25 ≤ fuel)
    (n : Nat) :
    ∃ b', FishFrames.tasklets fuel n b = some b' ∧
      Animates (fun i => (who i).later n) l vmem b' := by
  induction n generalizing who b with
  | zero => exact ⟨b, rfl, h⟩
  | succ n ih =>
      obtain ⟨b', hcall, hnext⟩ := h.tasklet hfuel
      obtain ⟨b'', hcalls, hlast⟩ := ih hnext
      have hages : (fun i => (who i).tick.later n) = fun i => (who i).later (n + 1) := by
        funext i
        unfold Blinker.later Blinker.tick
        rw [Nat.add_right_comm, Nat.add_assoc]
      rw [hages] at hlast
      refine ⟨b'', ?_, hlast⟩
      rw [FishFrames.tasklets, hcall]
      exact hcalls

/-- `mp1_find_helper` finds the structure at a place. -/
theorem find_some (h : Animates who l vmem b) {i : Slot} (hi : i ∈ l) {ax : UInt16}
    (hax : ax.toNat = (who i).cell.location) {fuel : Nat} (hfuel : 80 * 25 ≤ fuel) :
    mp1FindHelper fuel b ax = some (some i) := by
  have hlength := h.length_lt
  have hprefix := (List.takeWhile_sublist (fun i => !At b ax i) (l := l)).length_le
  have hlocation : (b.blinkArray i).location = ax := by
    rw [← UInt16.toNat_inj, (h.stored i hi).location, hax]
  have hfind : l.find? (At b ax) = some i := by
    cases hfound : l.find? (At b ax) with
    | none =>
        have hnot := List.find?_eq_none.1 hfound i hi
        exact absurd (decide_eq_true hlocation) hnot
    | some j =>
        have hj : (b.blinkArray j).location = ax := by
          simpa [At] using List.find?_some hfound
        have hmem := List.mem_of_find?_eq_some hfound
        have hplace := hj.trans hlocation.symm
        rw [List.inj_on_of_nodup_map h.places hmem hi hplace]
  rw [mp1FindHelper, findLoop_chain ax h.chain, if_pos (by omega), hfind]

theorem find_none (h : Animates who l vmem b) {ax : UInt16}
    (hax : ∀ x ∈ l.map who, ax.toNat ≠ x.cell.location) {fuel : Nat}
    (hfuel : 80 * 25 ≤ fuel) : mp1FindHelper fuel b ax = some none := by
  have hlength := h.length_lt
  have hprefix := (List.takeWhile_sublist (fun i => !At b ax i) (l := l)).length_le
  have hfind : l.find? (At b ax) = none := by
    refine List.find?_eq_none.2 fun i hi hat => ?_
    have hlocation : (b.blinkArray i).location = ax := by simpa [At] using hat
    apply hax _ (List.mem_map_of_mem hi)
    rw [← hlocation, (h.stored i hi).location]
  rw [mp1FindHelper, findLoop_chain ax h.chain, if_pos (by omega), hfind]

/-- A character that is synchronised with another one that is off. -/
theorem sync (h : Animates who l vmem b) {i j : Slot} (hi : i ∈ l) (hj : j ∈ l)
    (hoff : ¬(who i).IsOn) {arg : UInt32}
    (hsource : (arg >>> 16).toUInt16.toNat = (who i).cell.location)
    (hdest : arg.toUInt16.toNat = (who j).cell.location) {fuel : Nat}
    (hfuel : 80 * 25 ≤ fuel) :
    ∃ b', mp1IoctlSync fuel b arg = some (b', 0) ∧
      Animates (Function.update who j { who i with cell := (who j).cell }) l vmem b' := by
  have hcall := h.find_some hi hsource hfuel
  have hcall' := h.find_some hj hdest hfuel
  have hsi := h.stored i hi
  have hsj := h.stored j hj
  have hstored : ({ who i with cell := (who j).cell } : Blinker).Stored
      (syncCopy (b.blinkArray i) (b.blinkArray j)) :=
    { location := hsj.location, onChar := hsj.onChar, offChar := hsj.offChar
      onLength := hsi.onLength, offLength := hsi.offLength, on := hsi.on
      countdown := hsi.countdown }
  have hchar : syncChar (syncCopy (b.blinkArray i) (b.blinkArray j)) =
      phaseChar (syncCopy (b.blinkArray i) (b.blinkArray j)) := by
    have hoff' : ¬On (syncCopy (b.blinkArray i) (b.blinkArray j)) := fun hon =>
      hoff (hsi.on.1 hon)
    rw [syncChar_off, phaseChar, if_neg hoff']
  have hlinks : SameLinks b (mp1Poke
      (b.setSlot j (syncCopy (b.blinkArray i) (b.blinkArray j)))
      (syncChar (syncCopy (b.blinkArray i) (b.blinkArray j)))
      ((b.blinkArray j).location.toNat * 2)) := by
    have hcopied : SameLinks b
        (b.setSlot j (syncCopy (b.blinkArray i) (b.blinkArray j))) := .setSlot b rfl rfl
    exact hcopied.trans (.poke _ _ _)
  refine ⟨_, ?_,
    { chain := hlinks.chain h.chain
      stored := fun k hk => ?_
      proper := fun k hk => ?_
      places := h.places.same hlinks
      unused := fun k hk => (hlinks.location k).trans (h.unused k hk)
      shown := fun k hk => ?_
      rest := fun o ho => ?_ }⟩
  · rw [mp1IoctlSync, hcall]
    dsimp only
    rw [hcall']
    rfl
  · show Blinker.Stored _ ((Fish.setSlot ..).blinkArray k)
    by_cases hkj : k = j
    · subst hkj
      rw [setSlot_self, Function.update_self]
      exact hstored
    · rw [setSlot_ne b _ hkj, Function.update_of_ne hkj]
      exact h.stored k hk
  · by_cases hkj : k = j
    · subst hkj
      rw [Function.update_self]
      exact { inside := (h.proper k hk).inside, on := (h.proper i hi).on
              off := (h.proper i hi).off }
    · rw [Function.update_of_ne hkj]
      exact h.proper k hk
  · rw [hlinks.location k]
    show Function.update b.vmem _ _ _ = phaseChar ((Fish.setSlot ..).blinkArray k)
    by_cases hkj : k = j
    · subst hkj
      rw [setSlot_self, Function.update_self]
      exact hchar
    · rw [setSlot_ne b _ hkj, Function.update_of_ne (h.places.ne hk hj hkj)]
      exact h.shown k hk
  · have hplace := ho j hj
    rw [hlinks.location j] at hplace
    refine (Function.update_of_ne hplace _ _).trans (h.rest o fun k hk => ?_)
    rw [← hlinks.location k]
    exact ho k hk

/-- The first character is removed, and stays on the screen. -/
theorem remove {j : Slot} (h : Animates who (j :: l) vmem b) {arg : UInt32}
    (harg : arg.toUInt16.toNat = (who j).cell.location) {fuel : Nat}
    (hfuel : 80 * 25 ≤ fuel) :
    ∃ b', mp1IoctlRemove fuel b arg = some (b', 0) ∧
      Animates who l (Function.update vmem ((who j).cell.location * 2) (who j).char)
        b' := by
  have hfind := h.find_some List.mem_cons_self harg hfuel
  obtain ⟨hnot, hnodup⟩ := List.nodup_cons.1 (ChainFrom.nodup h.chain)
  have hne : ∀ i ∈ l, i ≠ j := fun i hi heq => hnot (heq ▸ hi)
  have hmem : ∀ i ∈ l, i ∈ j :: l := fun i hi => List.mem_cons_of_mem _ hi
  have hsame : ∀ i, i ≠ j → (unlinked b [] j).blinkArray i = b.blinkArray i :=
    fun i hi => setSlot_ne _ _ hi
  have hhead : cell b none = some j := h.chain.head
  have hsj := h.stored j List.mem_cons_self
  have hchain : Chain b ([] ++ j :: l) := h.chain
  refine ⟨unlinked b [] j, ?_,
    { chain := chain_unlinked hchain
      stored := fun i hi => ?_
      proper := fun i hi => h.proper i (hmem i hi)
      places := ?_
      unused := fun i hi => ?_
      shown := fun i hi => ?_
      rest := fun o ho => ?_ }⟩
  · obtain ⟨n, rfl⟩ : ∃ n, fuel = n + 1 := ⟨fuel - 1, by omega⟩
    rw [mp1IoctlRemove, hfind]
    dsimp only
    rw [removeFindPrev, if_pos hhead]
    rfl
  · rw [hsame i (hne i hi)]
    exact h.stored i (hmem i hi)
  · have hplaces := (List.nodup_cons.1 h.places).2
    unfold Places
    rwa [List.map_congr_left fun i hi => congrArg BlinkStruct.location
      (hsame i (hne i hi))]
  · by_cases hij : i = j
    · subst hij
      show ((Fish.setSlot ..).blinkArray i).location = 0
      rw [setSlot_self]
      rfl
    · rw [hsame i hij]
      exact h.unused i fun hcons => hi ((List.mem_cons.1 hcons).resolve_left hij)
  · rw [hsame i (hne i hi)]
    exact h.shown i (hmem i hi)
  · rw [Function.update_apply]
    split
    · rename_i hplace
      rw [← hsj.phaseChar, ← h.shown j List.mem_cons_self, hsj.location, hplace]
      rfl
    · rename_i hplace
      refine h.rest o (List.forall_mem_cons.2 ⟨?_, fun i hi => ?_⟩)
      · rw [hsj.location]
        exact hplace
      · rw [← hsame i (hne i hi)]
        exact ho i hi

end Animates

/-! ## The frames -/

/-- The character of a text in a row and a column. -/
def charAt (ls : List (List Byte)) (row col : Nat) : Byte :=
  (ls.getD row []).getD col 32

/-- One of two texts has a character that can be seen. -/
def Seen (ls0 ls1 : List (List Byte)) (row col : Nat) : Prop :=
  charAt ls0 row col ≠ 32 ∨ charAt ls1 row col ≠ 32

instance (ls0 ls1 : List (List Byte)) (row col : Nat) :
    Decidable (Seen ls0 ls1 row col) := inferInstanceAs (Decidable (_ ∨ _))

/-- A text that fits on the right half of the screen. -/
structure Fits (ls : List (List Byte)) : Prop where
  rows : ls.length ≤ 25
  columns : ∀ l ∈ ls, l.length ≤ 40

/-- The two characters of a place. -/
def cellOf (ls0 ls1 : List (List Byte)) (row col : Nat) : Cell :=
  { location := row * 80 + col + 40
    onChar := charAt ls0 row col
    offChar := charAt ls1 row col }

section Frames

variable {ls0 ls1 : List (List Byte)} {row col : Nat}

theorem charAt_line {ls : List (List Byte)} (h : charAt ls row col ≠ 32) :
    row < ls.length ∧ col < (ls.getD row []).length := by
  unfold charAt at h
  have hcol : col < (ls.getD row []).length := by
    by_contra hlong
    exact h (List.getD_eq_default _ _ (Nat.not_lt.1 hlong))
  refine ⟨?_, hcol⟩
  by_contra hlong
  rw [List.getD_eq_default _ _ (Nat.not_lt.1 hlong)] at hcol
  exact absurd hcol (Nat.not_lt_zero _)

theorem Fits.line {ls : List (List Byte)} (h : Fits ls) (row : Nat) :
    (ls.getD row []).length ≤ 40 := by
  rw [List.getD_eq_getElem?_getD]
  cases hget : ls[row]? with
  | none => exact Nat.zero_le _
  | some l => exact h.columns l (List.mem_of_getElem? hget)

theorem Seen.inside (h : Seen ls0 ls1 row col) (h0 : Fits ls0) (h1 : Fits ls1) :
    row < 25 ∧ col < 40 := by
  have hrows0 := h0.rows
  have hrows1 := h1.rows
  have hline0 := h0.line row
  have hline1 := h1.line row
  rcases h with h | h
  · have hin := charAt_line h
    omega
  · have hin := charAt_line h
    omega

theorem mem_rowCells {l0 l1 : List Byte} {c : Cell} : c ∈ rowCells row 0 l0 l1 ↔
    ∃ col, (l0.getD col 32 ≠ 32 ∨ l1.getD col 32 ≠ 32) ∧
      c = { location := row * 80 + col + 40, onChar := l0.getD col 32
            offChar := l1.getD col 32 } := by
  unfold rowCells
  rw [mem_sideBySide]
  simp only [cellAt, Nat.zero_add]
  constructor
  · rintro ⟨col, -, hmem⟩
    split at hmem
    · exact (List.not_mem_nil hmem).elim
    · exact ⟨col, by tauto, List.mem_singleton.1 hmem⟩
  · rintro ⟨col, hseen, rfl⟩
    refine ⟨col, ?_, ?_⟩
    · by_contra hlong
      rw [List.getD_eq_default _ _ (by omega), List.getD_eq_default _ _ (by omega)] at hseen
      tauto
    · rw [if_neg (by tauto)]
      exact List.mem_singleton_self _

/-- What the program puts on the list. -/
theorem mem_frameCells {c : Cell} : c ∈ frameCells 0 ls0 ls1 ↔
    ∃ row col, Seen ls0 ls1 row col ∧ c = cellOf ls0 ls1 row col := by
  unfold frameCells
  rw [mem_sideBySide]
  simp only [mem_rowCells, Nat.zero_add]
  constructor
  · rintro ⟨row, -, col, hseen, rfl⟩
    exact ⟨row, col, hseen, rfl⟩
  · rintro ⟨row, col, hseen, rfl⟩
    refine ⟨row, ?_, col, hseen, rfl⟩
    rcases hseen with h | h
    · have hrow := (charAt_line h).1
      omega
    · have hrow := (charAt_line h).1
      omega

/-- The places are put on the list in their order on the screen. -/
theorem frameCells_ordered (h0 : Fits ls0) (h1 : Fits ls1) :
    (frameCells 0 ls0 ls1).Pairwise fun c d => c.location < d.location := by
  have hrow : ∀ row {c : Cell}, c ∈ rowCells row 0 (ls0.getD row []) (ls1.getD row []) →
      row * 80 + 40 ≤ c.location ∧ c.location < row * 80 + 80 := by
    intro row c hc
    obtain ⟨col, hseen, rfl⟩ := mem_rowCells.1 hc
    have hseen : Seen ls0 ls1 row col := hseen
    have hcol := (hseen.inside h0 h1).2
    dsimp only
    omega
  unfold frameCells
  refine sideBySide_pairwise (fun row => ?_) fun row row' hlt c hc d hd => ?_
  · unfold rowCells
    refine sideBySide_pairwise (fun col => ?_) fun col col' hlt c hc d hd => ?_
    · unfold cellAt
      split
      · exact List.Pairwise.nil
      · exact List.pairwise_singleton _ _
    · unfold cellAt at hc hd
      split at hc
      · exact (List.not_mem_nil hc).elim
      · split at hd
        · exact (List.not_mem_nil hd).elim
        · rw [List.mem_singleton.1 hc, List.mem_singleton.1 hd]
          dsimp only
          omega
  · rw [Nat.zero_add] at hc hd
    have hfirst := (hrow row hc).2
    have hsecond := (hrow row' hd).1
    omega

end Frames

/-- A character of a frame, `n` ticks after it was added. -/
def frameBlinker (n : Nat) (c : Cell) : Blinker :=
  { cell := c, onLength := 15, offLength := 15, age := n }

theorem frameBlinker_char (n : Nat) (c : Cell) :
    (frameBlinker n c).char = if n / 15 % 2 = 0 then c.onChar else c.offChar := by
  have hhigh : (frameBlinker n c).IsOn ↔ n / 15 % 2 = 0 := high_twice (Nat.succ_pos 14)
  unfold Blinker.char
  simp only [hhigh]
  rfl

/-- The characters of the frames are put on the list. -/
theorem Animates.putCells {who : Slot → Blinker} {vmem : Nat → Byte} {b : Fish}
    {l : List Slot} (h : Animates who l vmem b) {blink : BlinkStruct}
    (hon : blink.onLength = 15) (hoff : blink.offLength = 15) {cells : List Cell}
    (hinside : ∀ c ∈ cells, 0 < c.location ∧ c.location < 80 * 25)
    (hordered : cells.Pairwise fun c d => c.location < d.location)
    (hnew : ∀ x ∈ l.map who, ∀ c ∈ cells, x.cell.location ≠ c.location) :
    ∃ who' l', Animates who' l' vmem (cells.foldl (putCell blink) b) ∧
      l'.map who' = (cells.map (frameBlinker 0)).reverse ++ l.map who := by
  induction cells generalizing who b l with
  | nil => exact ⟨who, l, h, rfl⟩
  | cons c cells ih =>
      obtain ⟨hc, hcells⟩ := List.forall_mem_cons.1 hinside
      obtain ⟨hfirst, hothers⟩ := List.pairwise_cons.1 hordered
      have hlocation : (UInt16.ofNat c.location).toNat = c.location := by
        rw [UInt16.toNat_ofNat']
        exact Nat.mod_eq_of_lt (by omega)
      have hlength : 0 < 15 ∧ 15 ≤ 32768 := by decide
      have hrequest : Requests
          { blink with
            onChar := c.onChar
            offChar := c.offChar
            location := UInt16.ofNat c.location } (frameBlinker 0 c) :=
        { location := hlocation, onChar := rfl, offChar := rfl
          onLength := congrArg UInt16.toNat hon, offLength := congrArg UInt16.toNat hoff
          age := rfl }
      obtain ⟨i, hi, hadded⟩ := h.add
        { inside := hc, on := hlength, off := hlength } hrequest
        fun y hy => hnew y hy c List.mem_cons_self
      obtain ⟨who', l', hlast, hmap⟩ := ih hadded hcells hothers (by
        rw [Animates.map_update hi]
        refine List.forall_mem_cons.2 ⟨fun d hd => ?_, fun y hy d hd => ?_⟩
        · exact Nat.ne_of_lt (hfirst d hd)
        · exact hnew y hy d (List.mem_cons_of_mem _ hd))
      refine ⟨who', l', hlast, ?_⟩
      rw [hmap, Animates.map_update hi, List.map_cons, List.reverse_cons,
        List.append_assoc]
      rfl

/-! ## The screen -/

/-- A memory with one of two frames stored over it, after `n` ticks. -/
def picture (ls0 ls1 : List (List Byte)) (n : Nat) (vmem : Nat → Byte) (o : Nat) : Byte :=
  let row := o / 160
  let col := o % 160 / 2
  if o % 2 = 0 ∧ 40 ≤ col ∧ Seen ls0 ls1 row (col - 40) then
    charAt (if n / 15 % 2 = 0 then ls0 else ls1) row (col - 40)
  else vmem o

/-- The characters of two frames, `n` ticks after they were put on the list `l`. -/
structure FramesOn (ls0 ls1 : List (List Byte)) (n : Nat) (who : Slot → Blinker)
    (l : List Slot) : Prop where
  fits0 : Fits ls0
  fits1 : Fits ls1
  mem : ∀ x, x ∈ l.map who ↔ ∃ c ∈ frameCells 0 ls0 ls1, x = frameBlinker n c

namespace FramesOn

variable {ls0 ls1 : List (List Byte)} {n : Nat} {who : Slot → Blinker} {l : List Slot}

theorem later (h : FramesOn ls0 ls1 n who l) (m : Nat) :
    FramesOn ls0 ls1 (n + m) (fun i => (who i).later m) l where
  fits0 := h.fits0
  fits1 := h.fits1
  mem x := by
    have hmap : l.map (fun i => (who i).later m) = (l.map who).map (Blinker.later m) := by
      rw [List.map_map]
      rfl
    rw [hmap, List.mem_map]
    constructor
    · rintro ⟨y, hy, rfl⟩
      obtain ⟨c, hc, rfl⟩ := (h.mem y).1 hy
      exact ⟨c, hc, rfl⟩
    · rintro ⟨c, hc, rfl⟩
      exact ⟨frameBlinker n c, (h.mem _).2 ⟨c, hc, rfl⟩, rfl⟩

/-- Only the characters on the list matter. -/
theorem congr (h : FramesOn ls0 ls1 n who l) {who' : Slot → Blinker}
    (hsame : ∀ i ∈ l, who' i = who i) : FramesOn ls0 ls1 n who' l where
  fits0 := h.fits0
  fits1 := h.fits1
  mem x := by rw [List.map_congr_left hsame, h.mem]

/-- A place of a character. -/
theorem location (h : FramesOn ls0 ls1 n who l) {x : Blinker} (hx : x ∈ l.map who) :
    ∃ row col, Seen ls0 ls1 row col ∧ row < 25 ∧ col < 40 ∧
      x = frameBlinker n (cellOf ls0 ls1 row col) := by
  obtain ⟨c, hc, rfl⟩ := (h.mem x).1 hx
  obtain ⟨row, col, hseen, rfl⟩ := mem_frameCells.1 hc
  obtain ⟨hrow, hcol⟩ := hseen.inside h.fits0 h.fits1
  exact ⟨row, col, hseen, hrow, hcol, rfl⟩

theorem picture (h : FramesOn ls0 ls1 n who l) {vmem : Nat → Byte} {b : Fish}
    (hb : Animates who l vmem b) : b.vmem = picture ls0 ls1 n vmem := by
  funext o
  unfold FishScreen.picture
  dsimp only
  split
  · rename_i hplace
    obtain ⟨heven, hright, hseen⟩ := hplace
    have hmem : frameBlinker n (cellOf ls0 ls1 (o / 160) (o % 160 / 2 - 40)) ∈ l.map who :=
      (h.mem _).2 ⟨_, mem_frameCells.2 ⟨_, _, hseen, rfl⟩, rfl⟩
    have hchar := hb.char hmem
    have hoffset : (o / 160 * 80 + (o % 160 / 2 - 40) + 40) * 2 = o := by omega
    rw [frameBlinker_char] at hchar
    refine (congrArg b.vmem hoffset.symm).trans (hchar.trans ?_)
    split <;> rfl
  · rename_i hplace
    refine hb.elsewhere fun x hx ho => hplace ?_
    obtain ⟨row, col, hseen, hrow, hcol, rfl⟩ := h.location hx
    have hoffset : o = (row * 80 + col + 40) * 2 := ho
    have hrow : o / 160 = row := by omega
    have hcolumn : o % 160 / 2 - 40 = col := by omega
    rw [hrow, hcolumn]
    exact ⟨by omega, by omega, hseen⟩

end FramesOn

/-- The list after `add_frames`. -/
theorem framed_animates {fs : FileSys} {d0 d1 : Dentry} (h0 : Fits (textLines fs d0))
    (h1 : Fits (textLines fs d1)) (junk : BlinkStruct) (vmem : Nat → Byte) :
    ∃ who l, FramesOn (textLines fs d0) (textLines fs d1) 0 who l ∧
      Animates who l vmem (framed fs d0 d1
        { junk with onLength := 15, offLength := 15 } (.start vmem)) := by
  have hinside : ∀ c ∈ frameCells 0 (textLines fs d0) (textLines fs d1),
      0 < c.location ∧ c.location < 80 * 25 := by
    intro c hc
    obtain ⟨row, col, hseen, rfl⟩ := mem_frameCells.1 hc
    have hrow := hseen.inside h0 h1
    unfold cellOf
    dsimp only
    omega
  have hon : ({ junk with onLength := 15, offLength := 15 } : BlinkStruct).onLength = 15 :=
    rfl
  obtain ⟨who, l, hlast, hmap⟩ := (animates_start (fun _ => frameBlinker 0 ⟨0, 0, 0⟩)
    vmem).putCells hon rfl hinside (frameCells_ordered h0 h1) (fun _ h => (List.not_mem_nil h).elim)
  refine ⟨who, l, { fits0 := h0, fits1 := h1, mem := fun x => ?_ }, hlast⟩
  rw [hmap, List.map_nil, List.append_nil, List.mem_reverse, List.mem_map]
  exact exists_congr fun c => and_congr_right fun _ => eq_comm

/-- The first loop of `main`. -/
theorem framed_later {fs : FileSys} {d0 d1 : Dentry} (h0 : Fits (textLines fs d0))
    (h1 : Fits (textLines fs d1)) {fuel : Nat} (hfuel : 80 * 25 ≤ fuel) (n : Nat)
    (junk : BlinkStruct) (vmem : Nat → Byte) :
    ∃ b who l, tasklets fuel n (framed fs d0 d1
        { junk with onLength := 15, offLength := 15 } (.start vmem)) = some b ∧
      FramesOn (textLines fs d0) (textLines fs d1) n who l ∧ Animates who l vmem b := by
  obtain ⟨who, l, hframes, hlist⟩ := framed_animates h0 h1 junk vmem
  obtain ⟨b, hcalls, hlater⟩ := hlist.tasklets hfuel n
  have hframes' := hframes.later n
  rw [Nat.zero_add] at hframes'
  exact ⟨b, _, l, hcalls, hframes', hlater⟩

/-- The rounds that are enough for all texts that fit. -/
theorem rounds_of_fits {ls0 ls1 : List (List Byte)} (h0 : Fits ls0) (h1 : Fits ls1)
    {columns rows : Nat} (hcolumns : 40 < columns) (hrows : 25 < rows) :
    Rounds columns rows ls0 ls1 :=
  { columns := by
      rintro l (hl | hl)
      · exact Nat.lt_of_le_of_lt (h0.columns l hl) hcolumns
      · exact Nat.lt_of_le_of_lt (h1.columns l hl) hcolumns
    rows := by
      have hrows0 := h0.rows
      have hrows1 := h1.rows
      omega }

/-- The structure that `main` adds. -/
def im : Blinker :=
  { cell := { location := 6 * 80 + 60, onChar := 73, offChar := 77 }
    onLength := 7
    offLength := 6
    age := 0 }

theorem im_proper : im.Proper :=
  { inside := by decide, on := by decide, off := by decide }

theorem im_requested (junk : BlinkStruct) : Requests (imBlink junk) im :=
  { location := rfl, onChar := rfl, offChar := rfl, onLength := rfl, offLength := rfl
    age := rfl }

/-- The structure that `main` adds is synchronised with the first place of the frames,
if there is a character, and else with nothing; in both cases it is on when the next
loop ends. -/
theorem im_synced {ls0 ls1 : List (List Byte)} {who : Slot → Blinker} {l : List Slot}
    {i : Slot} (hframes : FramesOn ls0 ls1 (WAIT + WAIT) who l)
    (him : who i = im.later WAIT) {vmem : Nat → Byte} {b : Fish}
    (h : Animates who (i :: l) vmem b) {fuel : Nat} (hfuel : 80 * 25 ≤ fuel) :
    ∃ b' r y, mp1IoctlSync fuel b ((40 : UInt32) <<< 16 ||| (6 * 80 + 60)) =
        some (b', r) ∧
      Animates (Function.update who i y) (i :: l) vmem b' ∧ y.cell = im.cell ∧
      (y.later WAIT).char = 73 := by
  have hsource : (((40 : UInt32) <<< 16 ||| (6 * 80 + 60)) >>> 16).toUInt16 = 40 := by
    decide
  by_cases hseen : Seen ls0 ls1 0 0
  · have hmem : frameBlinker (WAIT + WAIT) (cellOf ls0 ls1 0 0) ∈ l.map who :=
      (hframes.mem _).2 ⟨_, mem_frameCells.2 ⟨0, 0, hseen, rfl⟩, rfl⟩
    obtain ⟨j, hj, hwho⟩ := List.mem_map.1 hmem
    have hoff : ¬(who j).IsOn := by
      rw [hwho]
      show ¬High 15 15 (WAIT + WAIT)
      decide
    have hfrom : (((40 : UInt32) <<< 16 ||| (6 * 80 + 60)) >>> 16).toUInt16.toNat =
        (who j).cell.location := by
      rw [hsource, hwho]
      rfl
    have hto : ((40 : UInt32) <<< 16 ||| (6 * 80 + 60)).toUInt16.toNat =
        (who i).cell.location := by
      rw [him]
      rfl
    obtain ⟨b', hcall, hsync⟩ := h.sync (List.mem_cons_of_mem i hj) List.mem_cons_self
      hoff hfrom hto hfuel
    rw [hwho, him] at hsync
    refine ⟨b', 0, _, hcall, hsync, rfl, ?_⟩
    show (if High 15 15 (WAIT + WAIT + WAIT) then (73 : Byte) else 77) = 73
    exact if_pos (by decide)
  · have hnone : mp1FindHelper fuel b 40 = some none := by
      refine h.find_none ?_ hfuel
      rw [List.map_cons]
      refine List.forall_mem_cons.2 ⟨?_, fun x hx heq => ?_⟩
      · rw [him]
        decide
      · obtain ⟨row, col, hseen', -, hcol, rfl⟩ := hframes.location hx
        have hplace : 40 = row * 80 + col + 40 := heq
        obtain rfl : row = 0 := by omega
        obtain rfl : col = 0 := by omega
        exact hseen hseen'
    refine ⟨b, -1, im.later WAIT, ?_, ?_, rfl, ?_⟩
    · rw [mp1IoctlSync, hsource, hnone]
    · rw [← him, Function.update_eq_self]
      exact h
    · show (if High 7 6 (0 + WAIT + WAIT) then (73 : Byte) else 77) = 73
      exact if_pos (by decide)

/-- The last three loops of `main`: the structure that is added shows its on
character when it is removed. -/
theorem rest_animates {ls0 ls1 : List (List Byte)} {who : Slot → Blinker} {l : List Slot}
    (hframes : FramesOn ls0 ls1 WAIT who l) (hblank : ¬Seen ls0 ls1 6 20)
    {vmem : Nat → Byte} {b : Fish} (h : Animates who l vmem b) {fuel : Nat}
    (hfuel : 80 * 25 ≤ fuel) (junk : BlinkStruct) :
    ∃ b₁ b₂ b₃ b₄ b₅ r r',
      tasklets fuel WAIT (mp1IoctlAdd b (imBlink junk)).1 = some b₁ ∧
      mp1IoctlSync fuel b₁ ((40 : UInt32) <<< 16 ||| (6 * 80 + 60)) = some (b₂, r) ∧
      tasklets fuel WAIT b₂ = some b₃ ∧
      mp1IoctlRemove fuel b₃ (6 * 80 + 60) = some (b₄, r') ∧
      tasklets fuel WAIT b₄ = some b₅ ∧
      b₅.vmem = picture ls0 ls1 (4 * WAIT)
        (Function.update vmem ((6 * 80 + 60) * 2) 73) := by
  have hfree : ∀ x ∈ l.map who, x.cell.location ≠ im.cell.location := by
    intro x hx heq
    obtain ⟨row, col, hseen, -, hcol, rfl⟩ := hframes.location hx
    have hplace : row * 80 + col + 40 = 6 * 80 + 60 := heq
    obtain rfl : row = 6 := by omega
    obtain rfl : col = 20 := by omega
    exact hblank hseen
  obtain ⟨i, hi, hadded⟩ := h.add im_proper (im_requested junk) hfree
  have hne : ∀ k ∈ l, k ≠ i := by
    rintro k hk rfl
    exact hi hk
  obtain ⟨b₁, h₁, hwaited⟩ := hadded.tasklets hfuel WAIT
  have hframes₁ : FramesOn ls0 ls1 (WAIT + WAIT)
      (fun k => (Function.update who i im k).later WAIT) l :=
    (hframes.later WAIT).congr fun k hk => by rw [Function.update_of_ne (hne k hk)]
  obtain ⟨b₂, r, y, h₂, hsync, hcell, hchar⟩ :=
    im_synced hframes₁ (by rw [Function.update_self]) hwaited hfuel
  have hframes₂ : FramesOn ls0 ls1 (WAIT + WAIT) (Function.update
      (fun k => (Function.update who i im k).later WAIT) i y) l :=
    hframes₁.congr fun k hk => Function.update_of_ne (hne k hk) _ _
  obtain ⟨b₃, h₃, hwaited₂⟩ := hsync.tasklets hfuel WAIT
  have hlocation : (y.later WAIT).cell.location = 6 * 80 + 60 := congrArg Cell.location hcell
  have hplace : (6 * 80 + 60 : UInt32).toUInt16.toNat = ((Function.update
      (fun k => (Function.update who i im k).later WAIT) i y i).later
        WAIT).cell.location := by
    rw [Function.update_self, hlocation]
    rfl
  obtain ⟨b₄, h₄, hremoved⟩ := hwaited₂.remove hplace hfuel
  rw [Function.update_self, hchar, hlocation] at hremoved
  obtain ⟨b₅, h₅, hlast⟩ := hremoved.tasklets hfuel WAIT
  exact ⟨b₁, b₂, b₃, b₄, b₅, r, 0, h₁, h₂, h₃, h₄, h₅,
    ((hframes₂.later WAIT).later WAIT).picture hlast⟩

/-! ## The program -/

section Program

variable {fs : FileSys} {d0 d1 : Dentry} {spaces a : List Byte} {stk : CStr}
  {k : Kernel σ} {before : Byte} {esp ebp : σ} {pid : Int} {entAdd : Nat}
  {columns rows fuel base : Nat}

/-- The command `fish` draws the two frames in turns: after `n` interrupts of the RTC it
has left at every place its character of the first frame if `n / 15` is even and of the
second if it is odd, and it has stored nothing at the other places. -/
theorem fish_shows_frames (hf : FishFiles fs d0 d1) (h0 : Fits (textLines fs d0))
    (h1 : Fits (textLines fs d1)) (hparsed : Parsed (str "fish") spaces a)
    (henter : (execute fs stk k (some ⟨before, str "fish" ++ spaces ++ a⟩) esp ebp).2 =
      .enter pid entAdd) (around : Around) (hcolumns : 40 < columns) (hrows : 25 < rows)
    (hfuel : 80 * 25 ≤ fuel) (hbase : base / 2 ^ PDE_OFFSET = PDE_INDEX) (n : Nat)
    (junk : BlinkStruct) (garbage vmem : Nat → Byte) :
    Prog.Ensures Undisturbed (perform fs around)
      (fishStart columns rows fuel n base junk garbage vmem)
      { kernel := finishExecute
          (execute fs stk k (some ⟨before, str "fish" ++ spaces ++ a⟩) esp ebp)
        wrote := [] }
      fun r _ => ∃ b, r = some (.ok (2, garbage, b)) ∧
        b.vmem = picture (textLines fs d0) (textLines fs d1) n vmem := by
  refine command_ensures (P := fun r _ => ∃ b : Fish, r = some (Except.ok (2, garbage, b)) ∧
    b.vmem = picture (textLines fs d0) (textLines fs d1) n vmem)
    hparsed (by decide) henter around fun k' h => ?_
  have hstart : Launched (User.mk k' []).kernel (str "fish") a := h
  obtain ⟨w, -, hrun⟩ := runs_fishStart hf hstart
    (rounds_of_fits h0 h1 hcolumns hrows) fuel n hbase junk garbage vmem
  obtain ⟨b, who, l, hcalls, hframes, hlist⟩ := framed_later h0 h1 hfuel n junk vmem
  rw [hcalls] at hrun
  exact ⟨_, w, hrun, b, rfl, hframes.picture hlist⟩

/-- The command `fish` ends, with exit status 0; what it has stored last is the first
frame, and an `I` at the place it has synchronised. -/
theorem fish_ends (hf : FishFiles fs d0 d1) (h0 : Fits (textLines fs d0))
    (h1 : Fits (textLines fs d1))
    (hblank : ¬Seen (textLines fs d0) (textLines fs d1) 6 20)
    (hparsed : Parsed (str "fish") spaces a)
    (henter : (execute fs stk k (some ⟨before, str "fish" ++ spaces ++ a⟩) esp ebp).2 =
      .enter pid entAdd) (around : Around) (hcolumns : 40 < columns) (hrows : 25 < rows)
    (hfuel : 80 * 25 ≤ fuel) (hbase : base / 2 ^ PDE_OFFSET = PDE_INDEX)
    (junk junk' : BlinkStruct) (garbage vmem : Nat → Byte) :
    Prog.Ensures Undisturbed (perform fs around)
      (fishMain columns rows fuel base junk junk' garbage vmem)
      { kernel := finishExecute
          (execute fs stk k (some ⟨before, str "fish" ++ spaces ++ a⟩) esp ebp)
        wrote := [] }
      fun r _ => r = some (0, picture (textLines fs d0) (textLines fs d1) (4 * WAIT)
        (Function.update vmem ((6 * 80 + 60) * 2) 73)) := by
  refine command_ensures (P := fun r _ =>
    r = some (0, picture (textLines fs d0) (textLines fs d1) (4 * WAIT)
      (Function.update vmem ((6 * 80 + 60) * 2) 73)))
    hparsed (by decide) henter around fun k' h => ?_
  have hstart : Launched (User.mk k' []).kernel (str "fish") a := h
  obtain ⟨w, honrtc, hrun⟩ := runs_fishStart hf hstart
    (rounds_of_fits h0 h1 hcolumns hrows) fuel WAIT hbase junk garbage vmem
  obtain ⟨b, who, l, hcalls, hframes, hlist⟩ := framed_later h0 h1 hfuel WAIT junk vmem
  obtain ⟨b₁, b₂, b₃, b₄, b₅, r, r', h₁, h₂, h₃, h₄, h₅, hscreen⟩ :=
    rest_animates hframes hblank hlist hfuel junk'
  obtain ⟨w', hrest⟩ := runs_fishRest hf.mounted honrtc h₁ h₂ h₃ h₄ h₅ garbage
  rw [hcalls] at hrun
  have hmain : runs fs (fishMain columns rows fuel base junk junk' garbage vmem)
      (viewOf (User.mk k' []) a) = some (some (0, b₅.vmem), w') := by
    unfold runs fishMain at *
    exact (Prog.exec_bind hrun).trans hrest
  rw [hscreen] at hmain
  exact ⟨_, w', hmain, rfl⟩

end Program

/-! ## An image with `fish` -/

/-- The entries `.`, `fish`, `rtc`, `frame0.txt` and `frame1.txt`. -/
def fishBoot : BootBlock :=
  { numDirEntries := 5
    numInodes := 3
    numDataBlocks := 3
    dirEntries := fun i =>
      [namedEntry [46] 1 0, namedEntry [102, 105, 115, 104] 2 0,
        namedEntry [114, 116, 99] 0 0,
        namedEntry [102, 114, 97, 109, 101, 48, 46, 116, 120, 116] 2 1,
        namedEntry [102, 114, 97, 109, 101, 49, 46, 116, 120, 116] 2 2].getD i
        blankEntry }

/-- `fish`, and two small frames. -/
def fishImage : FileSys :=
  { bootB := some fishBoot
    inodeSt := fun i =>
      { size := if i = 0 then 40 else if i = 1 then 5 else 6, dataBlocks := fun _ => i }
    datab := fun i =>
      if i < BLOCK_SIZE then SampleImage.programBytes.getD i 0
      else if i < 2 * BLOCK_SIZE then [47, 92, 10, 32, 111].getD (i - BLOCK_SIZE) 0
      else [92, 47, 10, 32, 32, 111].getD (i - 2 * BLOCK_SIZE) 0 }

/-- The entries of the two frames. -/
def frameEntry (i : Nat) : Dentry :=
  namedEntry [102, 114, 97, 109, 101, UInt8.ofNat (48 + i), 46, 116, 120, 116] 2 (i + 1)

theorem wellFormed_fishImage : WellFormed fishImage :=
  { mounted := Option.some_ne_none _
    sizes := by
      intro boot hboot i hi htype
      have hmax : MAX_FILE_SIZE = 4190208 := rfl
      show (if _ then 40 else if _ then 5 else 6) ≤ MAX_FILE_SIZE
      split
      · omega
      · split <;> omega }

/-- The names in the image. -/
theorem fish_names : str "fish" = [102, 105, 115, 104] ∧ str "rtc" = [114, 116, 99] ∧
    str "frame0.txt" = [102, 114, 97, 109, 101, 48, 46, 116, 120, 116] ∧
    str "frame1.txt" = [102, 114, 97, 109, 101, 49, 46, 116, 120, 116] := by
  decide

theorem fishFiles : FishFiles fishImage (frameEntry 0) (frameEntry 1) where
  mounted := wellFormed_fishImage
  rtc := ⟨namedEntry [114, 116, 99] 0 0, by rw [fish_names.2.1]; rfl, rfl⟩
  found0 := by
    rw [fish_names.2.2.1]
    rfl
  found1 := by
    rw [fish_names.2.2.2]
    rfl
  type0 := rfl
  type1 := rfl

/-- The lines of the two frames. -/
theorem fishImage_lines :
    textLines fishImage (frameEntry 0) = [[47, 92], [32, 111]] ∧
    textLines fishImage (frameEntry 1) = [[92, 47], [32, 32, 111]] := by
  decide

theorem fits_fishImage : Fits (textLines fishImage (frameEntry 0)) ∧
    Fits (textLines fishImage (frameEntry 1)) := by
  rw [fishImage_lines.1, fishImage_lines.2]
  exact ⟨⟨by decide, by decide⟩, ⟨by decide, by decide⟩⟩

theorem parsed_fish : Parsed (str "fish") [] [] :=
  { noNul := by decide, nonempty := by decide, word := by decide, gap := by simp
    start := by decide, longest := by decide, fits := by decide }

theorem enter_fish : (execute fishImage ⟨0, []⟩ (SampleImage.idleKernel 0)
    (some ⟨0, str "fish" ++ [] ++ []⟩) 0 0).2 = .enter 1 0x8048000 := by
  rw [fish_names.1]
  rfl

/-- The small frames after 20 ticks. -/
theorem fish_shows_small_frames :
    Prog.Ensures Undisturbed (perform fishImage bareAround)
      (fishStart 41 26 2000 20 0x8049000 .zero (fun _ => 0) fun _ => 0)
      { kernel := finishExecute (execute fishImage ⟨0, []⟩ (SampleImage.idleKernel 0)
          (some ⟨0, str "fish" ++ [] ++ []⟩) 0 0)
        wrote := [] }
      fun r _ => ∃ b, r = some (.ok (2, fun _ => 0, b)) ∧
        b.vmem = picture (textLines fishImage (frameEntry 0))
          (textLines fishImage (frameEntry 1)) 20 fun _ => 0 :=
  fish_shows_frames fishFiles fits_fishImage.1 fits_fishImage.2 parsed_fish enter_fish
    bareAround (Nat.le_refl _) (Nat.le_refl _) (Nat.le_refl _) (by decide) 20 .zero
    (fun _ => 0) fun _ => 0

/-- The whole program with the small frames. -/
theorem fish_ends_small :
    Prog.Ensures Undisturbed (perform fishImage bareAround)
      (fishMain 41 26 2000 0x8049000 .zero .zero (fun _ => 0) fun _ => 0)
      { kernel := finishExecute (execute fishImage ⟨0, []⟩ (SampleImage.idleKernel 0)
          (some ⟨0, str "fish" ++ [] ++ []⟩) 0 0)
        wrote := [] }
      fun r _ => r = some (0, picture (textLines fishImage (frameEntry 0))
        (textLines fishImage (frameEntry 1)) (4 * WAIT)
        (Function.update (fun _ => 0) ((6 * 80 + 60) * 2) 73)) := by
  have hblank : ¬Seen (textLines fishImage (frameEntry 0))
      (textLines fishImage (frameEntry 1)) 6 20 := by
    rw [fishImage_lines.1, fishImage_lines.2]
    decide
  exact fish_ends fishFiles fits_fishImage.1 fits_fishImage.2 hblank parsed_fish
    enter_fish bareAround (Nat.le_refl _) (Nat.le_refl _) (Nat.le_refl _) (by decide)
    .zero .zero (fun _ => 0) fun _ => 0

end MongOS.Proofs.FishScreen
