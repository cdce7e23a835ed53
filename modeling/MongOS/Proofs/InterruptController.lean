import Mathlib.Tactic.Tauto
import MongOS.Verified.Run
import MongOS.Model.InterruptController
import MongOS.Proofs.InterruptGates

/-!
# The interrupts that the controllers deliver

What the driver and the two controllers are for: of the lines that are enabled and
ask for an interrupt the first one is delivered, unless an interrupt of the same or
a higher priority is in service, and its vector tells its number.

* `irqs_refine` — every run of the controllers after the boot is one of `LineStep`.
* `deliveries_counted` — the requests, the deliveries and the ends of an interrupt.
* `device_vectors` — the only gates that are entered are those of the devices.
-/

namespace MongOS.Proofs.InterruptController

open MongOS.Model MongOS.Model.I8259
open MongOS.Verified
open Pic (setBit clearBit)

/-! ## The lines -/

/-- The sets of lines that are enabled, that ask for an interrupt, and whose
interrupt is in service. -/
structure Lines where
  enabled : Nat → Bool
  pending : Nat → Bool
  serving : Nat → Bool

/-- The line of the master for an interrupt. -/
def level (n : Nat) : Nat := if n < 8 then n else 2

theorem level_master {n : Nat} (h : n < 8) : level n = n := if_pos h

theorem level_slave {n : Nat} (h : 8 ≤ n) : level n = 2 := if_neg (Nat.not_lt.2 h)

/-- The order of the priorities: 0, 1, 8 to 15, 3 to 7. -/
def rank (n : Nat) : Nat := if n < 8 then 16 * n else 24 + n

/-- An interrupt that can be delivered. -/
structure Deliverable (a : Lines) (n : Nat) : Prop where
  line : n < 16 ∧ n ≠ 2
  pending : a.pending n = true
  enabled : a.enabled n = true ∧ (8 ≤ n → a.enabled 2 = true)
  first : ∀ m, a.serving m = true → level n < level m

/-- The lines when the interrupt of one is taken. -/
def Lines.take (a : Lines) (n : Nat) : Lines :=
  { a with
    pending := Function.update a.pending n false
    serving := Function.update a.serving n true }

theorem Lines.take_serving (a : Lines) (n : Nat) :
    (a.take n).serving = Function.update a.serving n true := rfl

/-- The steps of the lines. -/
inductive LineStep : Lines → Event → Lines → Prop
  | raise {a : Lines} {n : Nat} (hline : n < 16 ∧ n ≠ 2) :
      LineStep a (.raise n) { a with pending := Function.update a.pending n true }
  | deliver {a : Lines} {n : Nat} (h : Deliverable a n)
      (hfirst : ∀ m, Deliverable a m → rank n ≤ rank m) :
      LineStep a (.deliver (0x20 + n)) (a.take n)
  | eoi {a : Lines} {n : Nat} (hserving : a.serving n = true) :
      LineStep a (.eoi n) { a with serving := Function.update a.serving n false }
  | enable {a : Lines} {n : Nat} :
      LineStep a (.enable n) { a with enabled := Function.update a.enabled n true }
  | disable {a : Lines} {n : Nat} :
      LineStep a (.disable n) { a with enabled := Function.update a.enabled n false }

/-! ## Bits -/

section Bits

variable {x : BitVec 8} {n i : Nat}

theorem getLsbD_setBit (hi : i < 8) :
    (setBit x n).getLsbD i = (x.getLsbD i || decide (i = n)) := by
  unfold setBit
  by_cases heq : n = i
  · subst heq
    simp [hi]
  · simp [heq, Ne.symm heq]

theorem getLsbD_clearBit (hi : i < 8) :
    (clearBit x n).getLsbD i = (x.getLsbD i && decide (i ≠ n)) := by
  unfold clearBit
  by_cases heq : n = i
  · subst heq
    simp [hi]
  · simp [hi, Ne.symm heq]

/-- The mask that the driver makes with `newMask` has `!v` at the line, and the other
bits are as they were. -/
def Writes (op : BitVec 32 → BitVec 32 → BitVec 32) (newMask : Nat → BitVec 32)
    (v : Bool) : Prop :=
  ∀ x n i, n < 8 → i < 8 →
    (assign op x (newMask n)).getLsbD i = if i = n then !v else x.getLsbD i

theorem writes_enable : Writes (· &&& ·) (fun n => ~~~(1#32 <<< n)) true := by
  intro x n i hn hi
  unfold assign
  dsimp only
  rw [← BitVec.twoPow_eq]
  by_cases heq : n = i
  · subst heq
    simp [hi]
    omega
  · simp [hi, heq, Ne.symm heq]

theorem writes_disable : Writes (· ||| ·) (fun n => 1#32 <<< n) false := by
  intro x n i hn hi
  unfold assign
  dsimp only
  rw [← BitVec.twoPow_eq]
  by_cases heq : n = i
  · subst heq
    simp [hi]
    omega
  · simp [hi, heq, Ne.symm heq]

/-- The command that ends the interrupt of a line. -/
theorem command_eoi (p : Pic) (hn : n < 8) :
    p.command (EOI ||| BitVec.ofNat 8 n) = { p with isr := clearBit p.isr n } := by
  have hlines : ∀ n < 8, (EOI ||| BitVec.ofNat 8 n).getLsbD 4 = false ∧
      (EOI ||| BitVec.ofNat 8 n).getLsbD 3 = false ∧
      (EOI ||| BitVec.ofNat 8 n).toNat / 2 ^ 5 = 3 ∧
      (EOI ||| BitVec.ofNat 8 n).toNat % 8 = n := by decide
  obtain ⟨hinit, hocw3, hop, hline⟩ := hlines n hn
  unfold Pic.command
  rw [hinit, hocw3, hop, hline]
  rfl

end Bits

theorem ready_iff {p : Pic} {n : Nat} :
    p.Ready n = true ↔ p.irr.getLsbD n = true ∧ p.imr.getLsbD n = false ∧
      ∀ m ≤ n, p.isr.getLsbD m = false := by
  unfold Pic.Ready
  rw [Bool.and_eq_true, Bool.and_eq_true, List.all_eq_true, and_assoc]
  simp only [Bool.not_eq_true', List.mem_range, Nat.lt_add_one_iff]

theorem request_eq_some {p : Pic} {n : Nat} :
    p.request = some n ↔ p.Ready n = true ∧ n < 8 ∧ ∀ m < n, p.Ready m = false := by
  unfold Pic.request
  rw [List.find?_range_eq_some]
  simp

theorem request_eq_none {p : Pic} : p.request = none ↔ ∀ n < 8, p.Ready n = false := by
  unfold Pic.request
  rw [List.find?_range_eq_none]
  simp

/-! ## A controller and its lines -/

/-- The registers of a controller show the lines from `first` on.  Line 2 of the
master is that of the slave. -/
structure ShowsPic (p : Pic) (mask : BitVec 8) (first : Nat) (a : Lines) : Prop where
  ready : p.stage = .ready
  autoEoi : p.autoEoi = false
  base : p.base = 0x20 + first
  imr : p.imr = mask
  enabled : ∀ n < 8, mask.getLsbD n = !a.enabled (first + n)
  pending : ∀ n < 8, first + n ≠ 2 → p.irr.getLsbD n = a.pending (first + n)
  serving : ∀ n < 8, first + n ≠ 2 → p.isr.getLsbD n = a.serving (first + n)

namespace ShowsPic

variable {p : Pic} {mask : BitVec 8} {first k : Nat} {a b : Lines}

theorem congr (h : ShowsPic p mask first a)
    (henabled : ∀ n < 8, b.enabled (first + n) = a.enabled (first + n))
    (hpending : ∀ n < 8, first + n ≠ 2 → b.pending (first + n) = a.pending (first + n))
    (hserving : ∀ n < 8, first + n ≠ 2 → b.serving (first + n) = a.serving (first + n)) :
    ShowsPic p mask first b where
  ready := h.ready
  autoEoi := h.autoEoi
  base := h.base
  imr := h.imr
  enabled n hn := by rw [henabled n hn]; exact h.enabled n hn
  pending n hn hline := by rw [hpending n hn hline]; exact h.pending n hn hline
  serving n hn hline := by rw [hserving n hn hline]; exact h.serving n hn hline

theorem changeMask {op : BitVec 32 → BitVec 32 → BitVec 32}
    {newMask : Nat → BitVec 32} {v : Bool} (hop : Writes op newMask v)
    (h : ShowsPic p mask first a) (hk : k < 8) :
    ShowsPic { p with imr := assign op mask (newMask k) } (assign op mask (newMask k))
      first { a with enabled := Function.update a.enabled (first + k) v } where
  ready := h.ready
  autoEoi := h.autoEoi
  base := h.base
  imr := rfl
  enabled n hn := by
    rw [hop mask k n hk hn, h.enabled n hn]
    by_cases heq : n = k
    · simp [heq]
    · simp [heq]
  pending := h.pending
  serving := h.serving

theorem raise (h : ShowsPic p mask first a) :
    ShowsPic { p with irr := setBit p.irr k } mask first
      { a with pending := Function.update a.pending (first + k) true } where
  ready := h.ready
  autoEoi := h.autoEoi
  base := h.base
  imr := h.imr
  enabled := h.enabled
  pending n hn hline := by
    rw [getLsbD_setBit hn, h.pending n hn hline]
    by_cases heq : n = k
    · simp [heq]
    · simp [heq]
  serving := h.serving

theorem eoi (h : ShowsPic p mask first a) :
    ShowsPic { p with isr := clearBit p.isr k } mask first
      { a with serving := Function.update a.serving (first + k) false } where
  ready := h.ready
  autoEoi := h.autoEoi
  base := h.base
  imr := h.imr
  enabled := h.enabled
  pending := h.pending
  serving n hn hline := by
    rw [getLsbD_clearBit hn, h.serving n hn hline]
    by_cases heq : n = k
    · simp [heq]
    · simp [heq]

theorem serve (h : ShowsPic p mask first a) :
    ShowsPic (p.serve k) mask first (a.take (first + k)) where
  ready := h.ready
  autoEoi := h.autoEoi
  base := h.base
  imr := h.imr
  enabled := h.enabled
  pending n hn hline := by
    unfold Pic.serve Lines.take
    rw [getLsbD_clearBit hn, h.pending n hn hline]
    by_cases heq : n = k
    · simp [heq]
    · simp [heq]
  serving n hn hline := by
    unfold Pic.serve Lines.take
    simp only [h.autoEoi, Bool.false_eq_true, if_false]
    rw [getLsbD_setBit hn, h.serving n hn hline]
    by_cases heq : n = k
    · simp [heq]
    · simp [heq]

end ShowsPic

/-- The controllers show the lines. -/
structure Shows (s : State) (a : Lines) : Prop where
  master : ShowsPic s.master s.masterMask 0 a
  slave : ShowsPic s.slave s.slaveMask 8 a
  numbers : s.master.cascade = ICW3_MASTER ∧ s.slave.cascade = ICW3_SLAVE
  latch : s.master.irr.getLsbD 2 = false
  cascade : s.master.isr.getLsbD 2 = true ↔ ∃ m, 8 ≤ m ∧ a.serving m = true
  one : ∀ n m, 8 ≤ n → 8 ≤ m → a.serving n = true → a.serving m = true → n = m
  lines : ∀ n, a.serving n = true → n < 16 ∧ n ≠ 2

/-- The lines after the boot. -/
def booted : Lines where
  enabled n := decide (n = 0 ∨ n = 1 ∨ n = 2 ∨ n = 8)
  pending _ := false
  serving _ := false

theorem boot_masks (master slave : Pic) :
    (boot master slave).masterMask = 0xF8 ∧ (boot master slave).slaveMask = 0xFE := by
  constructor
  · show assign (· &&& ·)
      (assign (· &&& ·) (assign (· &&& ·) INIT_MASK (~~~(1#32 <<< SLAVE_POS)))
        (~~~(1#32 <<< KEYBOARD_PICNUM))) (~~~(1#32 <<< PIT_IRQ)) = 0xF8
    decide
  · show assign (· &&& ·) INIT_MASK (~~~(1#32 <<< (RTC_PICNUM - TOT_CNT))) = 0xFE
    decide

theorem boot_registers (master slave : Pic) :
    ((boot master slave).master.irr = 0 ∧ (boot master slave).master.isr = 0) ∧
      (boot master slave).slave.irr = 0 ∧ (boot master slave).slave.isr = 0 :=
  ⟨⟨rfl, rfl⟩, rfl, rfl⟩

theorem shows_boot (master slave : Pic) : Shows (boot master slave) booted := by
  obtain ⟨hmaster, hslave⟩ := boot_masks master slave
  obtain ⟨⟨hirr, hisr⟩, hirr', hisr'⟩ := boot_registers master slave
  refine ⟨⟨rfl, rfl, rfl, rfl, ?_, ?_, ?_⟩, ⟨rfl, rfl, rfl, rfl, ?_, ?_, ?_⟩,
    ⟨rfl, rfl⟩, ?_, ?_, ?_, ?_⟩
  · rw [hmaster]
    decide
  · rw [hirr]
    decide
  · rw [hisr]
    decide
  · rw [hslave]
    decide
  · rw [hirr']
    decide
  · rw [hisr']
    decide
  · rw [hirr]
    rfl
  · rw [hisr]
    simp [booted]
  · simp [booted]
  · simp [booted]


/-! ## The interrupt that is delivered -/

section Deliver

variable {s : State} {a : Lines} {n j k : Nat}

/-- The in-service register of the master tells the levels in service. -/
theorem isr_level (h : Shows s a) (hk : k < 8) :
    s.master.isr.getLsbD k = true ↔ ∃ m, a.serving m = true ∧ level m = k := by
  by_cases hline : k = 2
  · subst hline
    rw [h.cascade]
    constructor
    · rintro ⟨m, hm, hserving⟩
      exact ⟨m, hserving, level_slave hm⟩
    · rintro ⟨m, hserving, hlevel⟩
      refine ⟨m, Nat.le_of_not_lt fun hm => (h.lines m hserving).2 ?_, hserving⟩
      rwa [level_master hm] at hlevel
  · have hshown := h.master.serving k hk (by omega)
    rw [Nat.zero_add] at hshown
    rw [hshown]
    constructor
    · intro hserving
      exact ⟨k, hserving, level_master hk⟩
    · rintro ⟨m, hserving, hlevel⟩
      have hm : m < 8 := Nat.lt_of_not_le fun hm => by
        rw [level_slave hm] at hlevel
        exact hline hlevel.symm
      rw [level_master hm] at hlevel
      exact hlevel ▸ hserving

theorem free_iff (h : Shows s a) (hk : k < 8) :
    (∀ m ≤ k, s.master.isr.getLsbD m = false) ↔
      ∀ m, a.serving m = true → k < level m := by
  constructor
  · intro hfree m hserving
    refine Nat.lt_of_not_le fun hle => ?_
    have hset := (isr_level h (Nat.lt_of_le_of_lt hle hk)).2 ⟨m, hserving, rfl⟩
    rw [hfree (level m) hle] at hset
    cases hset
  · intro hfirst m hm
    by_contra hset
    rw [Bool.not_eq_false, isr_level h (Nat.lt_of_le_of_lt hm hk)] at hset
    obtain ⟨m', hserving, hlevel⟩ := hset
    have hlt := hfirst m' hserving
    omega

theorem cascaded_ready (hn : n < 8) (hline : n ≠ 2) :
    (cascaded s).Ready n = s.master.Ready n := by
  unfold cascaded
  split
  · unfold Pic.Ready
    dsimp only
    rw [getLsbD_setBit hn]
    simp [SLAVE_POS, hline]
  · rfl

theorem deliverable_master (h : Shows s a) (hn : n < 8) (hline : n ≠ 2) :
    (cascaded s).Ready n = true ↔ Deliverable a n := by
  have hpending := h.master.pending n hn (by omega)
  have henabled := h.master.enabled n hn
  rw [Nat.zero_add] at hpending henabled
  rw [cascaded_ready hn hline, ready_iff, h.master.imr, hpending, henabled,
    free_iff h hn, Bool.not_eq_false']
  have hlevel := level_master hn
  constructor
  · rintro ⟨hp, he, hfirst⟩
    exact ⟨⟨by omega, hline⟩, hp, ⟨he, by omega⟩, by rwa [hlevel]⟩
  · intro hd
    refine ⟨hd.pending, hd.enabled.1, ?_⟩
    have hfirst := hd.first
    rwa [hlevel] at hfirst

theorem cascaded_ready_slave (h : Shows s a) :
    (cascaded s).Ready 2 = true ↔ s.slave.request.isSome = true ∧
      a.enabled 2 = true ∧ ∀ m, a.serving m = true → 2 < level m := by
  have henabled : s.master.imr.getLsbD 2 = !a.enabled 2 := by
    rw [h.master.imr]
    exact h.master.enabled 2 (by decide)
  have hmask : a.enabled 2 = true ↔ s.master.imr.getLsbD 2 = false := by
    rw [henabled, Bool.not_eq_false']
  rw [← free_iff h (by decide), hmask, ready_iff]
  unfold cascaded
  split
  case isTrue hsome =>
    dsimp only
    rw [getLsbD_setBit (by decide)]
    simp [SLAVE_POS, hsome]
  case isFalse hnone =>
    rw [h.latch]
    simp [hnone]

theorem deliverable_slave (h : Shows s a) (hj : j < 8) :
    Deliverable a (8 + j) ↔ (cascaded s).Ready 2 = true ∧ s.slave.Ready j = true := by
  have hready : s.slave.Ready j = true ↔ a.pending (8 + j) = true ∧
      a.enabled (8 + j) = true ∧ ∀ m ≤ j, s.slave.isr.getLsbD m = false := by
    rw [ready_iff, h.slave.imr, h.slave.pending j hj (by omega), h.slave.enabled j hj,
      Bool.not_eq_false']
  have hlevel : level (8 + j) = 2 := level_slave (by omega)
  rw [cascaded_ready_slave h, hready]
  constructor
  · intro hd
    have hfirst := hd.first
    rw [hlevel] at hfirst
    have hfree : ∀ m ≤ j, s.slave.isr.getLsbD m = false := by
      intro m hm
      rw [h.slave.serving m (by omega) (by omega), ← Bool.not_eq_true]
      intro hserving
      have hlt := hfirst (8 + m) hserving
      rw [level_slave (by omega)] at hlt
      omega
    refine ⟨⟨?_, hd.enabled.2 (by omega), hfirst⟩, hd.pending, hd.enabled.1, hfree⟩
    rw [Option.isSome_iff_ne_none, ne_eq, request_eq_none]
    intro hnone
    have hset := hready.2 ⟨hd.pending, hd.enabled.1, hfree⟩
    rw [hnone j hj] at hset
    cases hset
  · rintro ⟨⟨_, hline, hfirst⟩, hp, he, _⟩
    exact ⟨⟨by omega, by omega⟩, hp, ⟨he, fun _ => hline⟩, by rwa [hlevel]⟩

/-- No line comes before the first request of the master. -/
theorem first_master (h : Shows s a) (hreq : (cascaded s).request = some n)
    (hline : n ≠ 2) :
    Deliverable a n ∧ ∀ m, Deliverable a m → rank n ≤ rank m := by
  obtain ⟨hready, hn, hfirst⟩ := request_eq_some.1 hreq
  refine ⟨(deliverable_master h hn hline).1 hready, fun m hd => ?_⟩
  by_cases hm : m < 8
  · have hmaster := (deliverable_master h hm hd.line.2).2 hd
    have hle : n ≤ m := Nat.le_of_not_lt fun hlt => by
      rw [hfirst m hlt] at hmaster
      cases hmaster
    simp only [rank, hn, hm, if_true]
    omega
  · obtain ⟨j, rfl⟩ := Nat.exists_eq_add_of_le (Nat.le_of_not_lt hm)
    have hslave := ((deliverable_slave h (by have := hd.line.1; omega)).1 hd).1
    have hle : n ≤ 2 := Nat.le_of_not_lt fun hlt => by
      rw [hfirst 2 hlt] at hslave
      cases hslave
    simp only [rank, hn, hm, if_true, if_false]
    omega

theorem first_slave (h : Shows s a) (hreq : (cascaded s).request = some 2)
    (hslave : s.slave.request = some j) :
    Deliverable a (8 + j) ∧ ∀ m, Deliverable a m → rank (8 + j) ≤ rank m := by
  obtain ⟨hready, _, hfirst⟩ := request_eq_some.1 hreq
  obtain ⟨hready', hj, hfirst'⟩ := request_eq_some.1 hslave
  have hge : ¬ 8 + j < 8 := by omega
  refine ⟨(deliverable_slave h hj).2 ⟨hready, hready'⟩, fun m hd => ?_⟩
  by_cases hm : m < 8
  · have hne := hd.line.2
    have hmaster := (deliverable_master h hm hne).2 hd
    have hle : 2 ≤ m := Nat.le_of_not_lt fun hlt => by
      rw [hfirst m hlt] at hmaster
      cases hmaster
    simp only [rank, hge, hm, if_true, if_false]
    omega
  · obtain ⟨i, rfl⟩ := Nat.exists_eq_add_of_le (Nat.le_of_not_lt hm)
    have hi := ((deliverable_slave h (by have := hd.line.1; omega)).1 hd).2
    have hle : j ≤ i := Nat.le_of_not_lt fun hlt => by
      rw [hfirst' i hlt] at hi
      cases hi
    simp only [rank, hge, hm, if_false]
    omega

theorem request_slave (h : Shows s a) (hreq : (cascaded s).request = some 2) :
    ∃ j, s.slave.request = some j :=
  Option.isSome_iff_exists.1 ((cascaded_ready_slave h).1 (request_eq_some.1 hreq).1).1

theorem shows_serve_master (h : Shows s a) (hn : n < 8) (hline : n ≠ 2) :
    Shows { s with master := s.master.serve n } (a.take n) where
  master := by
    have hserve := h.master.serve (k := n)
    rwa [Nat.zero_add] at hserve
  slave := h.slave.congr (fun _ _ => rfl)
    (fun m _ _ => Function.update_of_ne (by omega) _ _)
    (fun m _ _ => Function.update_of_ne (by omega) _ _)
  numbers := h.numbers
  latch := by
    show (clearBit s.master.irr n).getLsbD 2 = false
    rw [getLsbD_clearBit (by decide), h.latch]
    rfl
  cascade := by
    have hisr : (s.master.serve n).isr.getLsbD 2 = s.master.isr.getLsbD 2 := by
      unfold Pic.serve
      simp only [h.master.autoEoi, Bool.false_eq_true, if_false]
      rw [getLsbD_setBit (by decide)]
      simp [Ne.symm hline]
    show (s.master.serve n).isr.getLsbD 2 = true ↔ _
    rw [hisr, h.cascade]
    refine exists_congr fun m => and_congr_right fun hm => ?_
    rw [Lines.take_serving, Function.update_of_ne (by omega)]
  one m m' hm hm' hserving hserving' := by
    rw [Lines.take_serving, Function.update_of_ne (by omega)] at hserving hserving'
    exact h.one m m' hm hm' hserving hserving'
  lines m hserving := by
    by_cases heq : m = n
    · omega
    · rw [Lines.take_serving, Function.update_of_ne heq] at hserving
      exact h.lines m hserving

theorem shows_serve_slave (h : Shows s a) (hj : j < 8)
    (hfirst : ∀ m, a.serving m = true → 2 < level m) :
    Shows { s with master := s.master.serve 2, slave := s.slave.serve j }
      (a.take (8 + j)) where
  master := by
    refine h.master.serve.congr (fun _ _ => rfl) ?_ ?_
    · intro m hm hline
      show Function.update _ _ _ _ = Function.update _ _ _ _
      rw [Function.update_of_ne (by omega), Function.update_of_ne (by omega)]
    · intro m hm hline
      show Function.update _ _ _ _ = Function.update _ _ _ _
      rw [Function.update_of_ne (by omega), Function.update_of_ne (by omega)]
  slave := h.slave.serve
  numbers := h.numbers
  latch := by
    show (clearBit s.master.irr 2).getLsbD 2 = false
    rw [getLsbD_clearBit (by decide), h.latch]
    rfl
  cascade := by
    have hisr : (s.master.serve 2).isr.getLsbD 2 = true := by
      unfold Pic.serve
      simp only [h.master.autoEoi, Bool.false_eq_true, if_false]
      rw [getLsbD_setBit (by decide)]
      simp
    exact iff_of_true hisr ⟨8 + j, by omega, Function.update_self _ _ _⟩
  one m m' hm hm' hserving hserving' := by
    -- no other interrupt of the slave is in service
    have honly : ∀ i, 8 ≤ i → (a.take (8 + j)).serving i = true → i = 8 + j := by
      intro i hi hserving
      by_contra hne
      rw [Lines.take_serving, Function.update_of_ne hne] at hserving
      have hlt := hfirst i hserving
      rw [level_slave hi] at hlt
      exact Nat.lt_irrefl 2 hlt
    rw [honly m hm hserving, honly m' hm' hserving']
  lines m hserving := by
    by_cases heq : m = 8 + j
    · omega
    · rw [Lines.take_serving, Function.update_of_ne heq] at hserving
      exact h.lines m hserving

theorem acknowledge_master (h : Shows s a) (hreq : (cascaded s).request = some n)
    (hline : n ≠ 2) :
    acknowledge s = some (0x20 + n, { s with master := s.master.serve n }) := by
  have hlines : ∀ k < 8, ICW3_MASTER.getLsbD k = decide (k = 2) := by decide
  obtain ⟨_, hn, _⟩ := request_eq_some.1 hreq
  unfold acknowledge
  rw [hreq, Option.bind_some, h.numbers.1, hlines n hn, h.master.base]
  simp [hline]

theorem acknowledge_slave (h : Shows s a) (hreq : (cascaded s).request = some 2)
    (hslave : s.slave.request = some j) :
    acknowledge s = some (0x20 + (8 + j),
      { s with master := s.master.serve 2, slave := s.slave.serve j }) := by
  unfold acknowledge
  rw [hreq, Option.bind_some, h.numbers.1, h.numbers.2, hslave, h.slave.base]
  simp [ICW3_MASTER, ICW3_SLAVE]
  omega

theorem acknowledge_some (h : Shows s a) {r : Nat × State}
    (hack : acknowledge s = some r) :
    ∃ n, Deliverable a n ∧ (∀ m, Deliverable a m → rank n ≤ rank m) ∧
      r.1 = 0x20 + n ∧ Shows r.2 (a.take n) := by
  cases hreq : (cascaded s).request with
  | none =>
      unfold acknowledge at hack
      rw [hreq] at hack
      cases hack
  | some n =>
      by_cases hline : n = 2
      · subst hline
        obtain ⟨j, hslave⟩ := request_slave h hreq
        obtain ⟨hd, hfirst⟩ := first_slave h hreq hslave
        rw [acknowledge_slave h hreq hslave] at hack
        cases hack
        have hserving := ((cascaded_ready_slave h).1 (request_eq_some.1 hreq).1).2.2
        exact ⟨8 + j, hd, hfirst, rfl,
          shows_serve_slave h (request_eq_some.1 hslave).2.1 hserving⟩
      · obtain ⟨hd, hfirst⟩ := first_master h hreq hline
        rw [acknowledge_master h hreq hline] at hack
        cases hack
        exact ⟨n, hd, hfirst, rfl,
          shows_serve_master h (request_eq_some.1 hreq).2.1 hline⟩

theorem acknowledge_isSome (h : Shows s a) (hd : Deliverable a n) :
    ∃ r, acknowledge s = some r := by
  cases hreq : (cascaded s).request with
  | none =>
      have hnone := request_eq_none.1 hreq
      exfalso
      by_cases hn : n < 8
      · have hready := (deliverable_master h hn hd.line.2).2 hd
        rw [hnone n hn] at hready
        cases hready
      · obtain ⟨j, rfl⟩ := Nat.exists_eq_add_of_le (Nat.le_of_not_lt hn)
        have hready := ((deliverable_slave h (by have := hd.line.1; omega)).1 hd).1
        rw [hnone 2 (by decide)] at hready
        cases hready
  | some k =>
      by_cases hline : k = 2
      · subst hline
        obtain ⟨j, hslave⟩ := request_slave h hreq
        exact ⟨_, acknowledge_slave h hreq hslave⟩
      · exact ⟨_, acknowledge_master h hreq hline⟩

end Deliver

/-! ## The driver -/

section Driver

variable {s : State} {a : Lines} {n : Nat}

theorem data_ready {p : Pic} {b : BitVec 8} (h : p.stage = .ready) :
    p.data b = { p with imr := b } := by
  unfold Pic.data
  rw [h]

/-- The mask that the driver writes is that of the line, or of none. -/
theorem shows_changeMask {op : BitVec 32 → BitVec 32 → BitVec 32}
    {newMask : Nat → BitVec 32} {v : Bool} (hop : Writes op newMask v)
    (h : Shows s a) :
    Shows (changeMask op newMask n s)
      { a with enabled := Function.update a.enabled n v } := by
  have hother : ∀ {p mask first}, ShowsPic p mask first a → (∀ k < 8, first + k ≠ n) →
      ShowsPic p mask first { a with enabled := Function.update a.enabled n v } :=
    fun hp hne => hp.congr (fun k hk => Function.update_of_ne (hne k hk) _ _)
      (fun _ _ _ => rfl) (fun _ _ _ => rfl)
  unfold changeMask TOT_CNT
  split
  case isTrue hout =>
    exact
      { h with
        master := hother h.master fun k hk => by omega
        slave := hother h.slave fun k hk => by omega }
  case isFalse hin =>
    split
    case isTrue hge =>
      obtain ⟨j, rfl⟩ := Nat.exists_eq_add_of_le hge
      rw [Nat.add_sub_cancel_left]
      show Shows { s with slaveMask := _, slave := s.slave.data _ } _
      rw [data_ready h.slave.ready]
      exact
        { h with
          master := hother h.master fun k hk => by omega
          slave := h.slave.changeMask hop (by omega) }
    case isFalse hlt =>
      show Shows { s with masterMask := _, master := s.master.data _ } _
      rw [data_ready h.master.ready]
      have hmaster := h.master.changeMask hop (k := n) (by omega)
      rw [Nat.zero_add] at hmaster
      exact
        { h with
          master := hmaster
          slave := hother h.slave fun k hk => by omega }

theorem shows_raise (h : Shows s a) (hline : n < 16 ∧ n ≠ 2) :
    Shows (raise n s) { a with pending := Function.update a.pending n true } := by
  have hother : ∀ {p mask first}, ShowsPic p mask first a → (∀ k < 8, first + k ≠ n) →
      ShowsPic p mask first { a with pending := Function.update a.pending n true } :=
    fun hp hne => hp.congr (fun _ _ => rfl)
      (fun k hk _ => Function.update_of_ne (hne k hk) _ _) (fun _ _ _ => rfl)
  unfold raise TOT_CNT
  split
  case isTrue hlt =>
    have hmaster := h.master.raise (k := n)
    rw [Nat.zero_add] at hmaster
    refine { h with
      master := hmaster
      slave := hother h.slave fun k hk => by omega
      latch := ?_ }
    rw [getLsbD_setBit (by decide), h.latch]
    simp [Ne.symm hline.2]
  case isFalse hge =>
    obtain ⟨j, rfl⟩ := Nat.exists_eq_add_of_le (Nat.le_of_not_lt hge)
    rw [Nat.add_sub_cancel_left]
    exact
      { h with
        master := hother h.master fun k hk => by omega
        slave := h.slave.raise }

theorem shows_eoi (h : Shows s a) (hserving : a.serving n = true) :
    Shows (sendEoi n s) { a with serving := Function.update a.serving n false } := by
  obtain ⟨hn, hne⟩ := h.lines n hserving
  have hother : ∀ {p mask first}, ShowsPic p mask first a → (∀ k < 8, first + k ≠ n) →
      ShowsPic p mask first { a with serving := Function.update a.serving n false } :=
    fun hp hk => hp.congr (fun _ _ => rfl) (fun _ _ _ => rfl)
      (fun k hlt _ => Function.update_of_ne (hk k hlt) _ _)
  have hkept : ∀ m, Function.update a.serving n false m = true → a.serving m = true := by
    intro m hm
    by_cases heq : m = n
    · rwa [heq]
    · rwa [Function.update_of_ne heq] at hm
  unfold sendEoi TOT_CNT
  rw [if_neg (by omega)]
  split
  case isTrue hge =>
    obtain ⟨j, rfl⟩ := Nat.exists_eq_add_of_le hge
    rw [Nat.add_sub_cancel_left]
    show Shows { s with master := s.master.command _, slave := s.slave.command _ } _
    rw [command_eoi s.slave (by omega), command_eoi s.master (by decide)]
    have hmaster := h.master.eoi (k := 2)
    refine
      { h with
        master := hmaster.congr (fun _ _ => rfl) (fun _ _ _ => rfl) ?_
        slave := h.slave.eoi
        cascade := ?_
        one := fun m m' hm hm' hs hs' => h.one m m' hm hm' (hkept m hs) (hkept m' hs')
        lines := fun m hs => h.lines m (hkept m hs) }
    · intro k hk hline
      show Function.update _ _ _ _ = Function.update _ _ _ _
      rw [Function.update_of_ne (by omega), Function.update_of_ne (by omega)]
    · -- it was the only interrupt of the slave in service
      rw [getLsbD_clearBit (by decide)]
      refine iff_of_false (by simp [SLAVE_POS]) ?_
      rintro ⟨m, hm, hs⟩
      have heq := h.one m (8 + j) hm (by omega) (hkept m hs) hserving
      subst heq
      simp at hs
  case isFalse hlt =>
    show Shows { s with master := s.master.command _ } _
    rw [command_eoi s.master (by omega)]
    have hmaster := h.master.eoi (k := n)
    rw [Nat.zero_add] at hmaster
    refine
      { h with
        master := hmaster
        slave := hother h.slave fun k hk => by omega
        cascade := ?_
        one := fun m m' hm hm' hs hs' => h.one m m' hm hm' (hkept m hs) (hkept m' hs')
        lines := fun m hs => h.lines m (hkept m hs) }
    have hbit : (clearBit s.master.isr n).getLsbD 2 = s.master.isr.getLsbD 2 := by
      rw [getLsbD_clearBit (by decide)]
      simp [Ne.symm hne]
    rw [hbit, h.cascade]
    refine exists_congr fun m => and_congr_right fun hm => ?_
    show _ ↔ Function.update a.serving n false m = true
    rw [Function.update_of_ne (by omega)]

end Driver

/-! ## Runs -/

/-- A line of a controller asks for an interrupt. -/
def requested (s : State) (n : Nat) : Bool :=
  if n < 8 then s.master.irr.getLsbD n else s.slave.irr.getLsbD (n - 8)

/-- The interrupt of a line is in service. -/
def inService (s : State) (n : Nat) : Bool :=
  if n < 8 then s.master.isr.getLsbD n else s.slave.isr.getLsbD (n - 8)

/-- The end of an interrupt is told by the handler of one that is in service. -/
def Handled (s : State) : Event → Prop
  | .eoi n => (n < 16 ∧ n ≠ 2) ∧ inService s n = true
  | _ => True

instance (s : State) (e : Event) : Decidable (Handled s e) := by
  cases e <;> unfold Handled <;> infer_instance

section Runs

variable {s t : State} {a : Lines} {e : Event} {es : List Event} {n m : Nat}

theorem requested_eq (h : Shows s a) (hline : n < 16 ∧ n ≠ 2) :
    requested s n = a.pending n := by
  unfold requested
  split
  case isTrue hn =>
    have hshown := h.master.pending n hn (by omega)
    rwa [Nat.zero_add] at hshown
  case isFalse hn =>
    obtain ⟨j, rfl⟩ := Nat.exists_eq_add_of_le (Nat.le_of_not_lt hn)
    rw [Nat.add_sub_cancel_left]
    exact h.slave.pending j (by omega) (by omega)

theorem inService_eq (h : Shows s a) (hline : n < 16 ∧ n ≠ 2) :
    inService s n = a.serving n := by
  unfold inService
  split
  case isTrue hn =>
    have hshown := h.master.serving n hn (by omega)
    rwa [Nat.zero_add] at hshown
  case isFalse hn =>
    obtain ⟨j, rfl⟩ := Nat.exists_eq_add_of_le (Nat.le_of_not_lt hn)
    rw [Nat.add_sub_cancel_left]
    exact h.slave.serving j (by omega) (by omega)

/-- A step of the controllers is one of the lines. -/
theorem step_lines (h : Shows s a) (hstep : Guarded Handled Step s e t) :
    ∃ b, LineStep a e b ∧ Shows t b := by
  obtain ⟨hhandled, hstep⟩ := hstep
  unfold Step step at hstep
  cases e with
  | raise n =>
      dsimp only at hstep
      split at hstep
      case isTrue hline =>
        cases hstep
        exact ⟨_, .raise hline, shows_raise h hline⟩
      case isFalse => cases hstep
  | deliver v =>
      obtain ⟨r, hack, hr⟩ := Option.bind_eq_some_iff.1 hstep
      obtain ⟨n, hd, hfirst, hv, hshows⟩ := acknowledge_some h hack
      split at hr
      case isTrue heq =>
        cases hr
        subst heq
        rw [hv]
        exact ⟨_, .deliver hd hfirst, hshows⟩
      case isFalse => cases hr
  | eoi n =>
      cases hstep
      obtain ⟨hline, hset⟩ := hhandled
      have hserving := (inService_eq h hline).symm.trans hset
      exact ⟨_, .eoi hserving, shows_eoi h hserving⟩
  | enable n =>
      cases hstep
      exact ⟨_, .enable, shows_changeMask writes_enable h⟩
  | disable n =>
      cases hstep
      exact ⟨_, .disable, shows_changeMask writes_disable h⟩

theorem rank_inj (hn : n < 16 ∧ n ≠ 2) (hm : m < 16 ∧ m ≠ 2) (h : rank n = rank m) :
    n = m := by
  unfold rank at h
  split at h <;> split at h <;> omega

/-- The lines that can be delivered are delivered. -/
theorem delivers_iff (h : Shows s a) (v : Nat) :
    (∃ t, Step s (.deliver v) t) ↔ ∃ b, LineStep a (.deliver v) b := by
  constructor
  · rintro ⟨t, hstep⟩
    obtain ⟨b, hline, _⟩ := step_lines (e := .deliver v) h ⟨trivial, hstep⟩
    exact ⟨b, hline⟩
  · rintro ⟨b, hstep⟩
    cases hstep with
    | @deliver n hd hfirst =>
        obtain ⟨r, hack⟩ := acknowledge_isSome h hd
        obtain ⟨k, hk, hleast, hv, _⟩ := acknowledge_some h hack
        have heq : k = n :=
          rank_inj hk.line hd.line (Nat.le_antisymm (hleast n hd) (hfirst k hk))
        refine ⟨r.2, ?_⟩
        show (acknowledge s).bind _ = _
        rw [hack, Option.bind_some, if_pos (by rw [hv, heq])]

/-- A run of the controllers is one of the lines. -/
theorem run_lines (master slave : Pic)
    (hrun : Run (Guarded Handled Step) (boot master slave) es s) :
    ∃ a, Run LineStep booted es a ∧ Shows s a := by
  refine Run.simulate Shows ?_ (shows_boot master slave) hrun
  intro s a e t hshows hstep
  exact step_lines hshows hstep

def reset : Pic := ⟨.ready, 0, 0, false, 0, 0, 0⟩

/-- The keyboard comes before the clock, and the timer interrupts the handler of the
clock and asks again. -/
def nestedEvents : List Event :=
  [.raise 8, .raise 1, .deliver 0x21, .eoi 1, .deliver 0x28, .raise 0, .deliver 0x20,
    .eoi 0, .raise 0]

def nested : State :=
  (follow (guardStep Handled step) (boot reset reset) nestedEvents).getD
    (boot reset reset)

theorem nested_run :
    Run (Guarded Handled Step) (boot reset reset) nestedEvents nested :=
  follow_guarded step (by decide)

/-- Whatever was in the registers before the boot: the interrupts that the processor
gets, in every order of requests, ends of interrupts and changes of the masks, are
those of the lines, and at each moment the one that comes first of those that can
be delivered is the one it gets. -/
theorem irqs_refine (master slave : Pic)
    (hrun : Run (Guarded Handled Step) (boot master slave) es s) :
    ∃ a, Run LineStep booted es a ∧ Shows s a ∧
      ∀ v, (∃ t, Step s (.deliver v) t) ↔ ∃ b, LineStep a (.deliver v) b := by
  obtain ⟨a, hlines, hshows⟩ := run_lines master slave hrun
  exact ⟨a, hlines, hshows, delivers_iff hshows⟩

theorem irqs_refine_nested :
    ∃ a, Run LineStep booted nestedEvents a ∧ Shows nested a ∧
      ∀ v, (∃ t, Step nested (.deliver v) t) ↔ ∃ b, LineStep a (.deliver v) b :=
  irqs_refine reset reset nested_run

/-! ## The devices -/

theorem count_snoc (es : List Event) (e e' : Event) :
    (es ++ [e]).count e' = es.count e' + if e = e' then 1 else 0 := by
  simp only [List.count_append, List.count_singleton, beq_iff_eq]

/-- An interrupt is delivered once for a request and ended once. -/
theorem counted (h : Run LineStep booted es a) (n : Nat) :
    es.count (.deliver (0x20 + n)) + (a.pending n).toNat ≤ es.count (.raise n) ∧
      es.count (.deliver (0x20 + n)) = es.count (.eoi n) + (a.serving n).toNat := by
  induction h with
  | nil => exact ⟨Nat.le_refl 0, rfl⟩
  | @snoc es a b e _ hlast ih =>
      obtain ⟨hraised, hended⟩ := ih
      simp only [count_snoc]
      cases hlast with
      | @raise k _ =>
          simp only [reduceCtorEq, if_false, Event.raise.injEq, Nat.add_zero]
          refine ⟨?_, hended⟩
          by_cases heq : k = n
          · subst heq
            rw [Function.update_self, if_pos rfl]
            have hle := (a.pending k).toNat_le
            exact Nat.add_le_add (Nat.le_trans (Nat.le_add_right _ _) hraised)
              (Bool.toNat_le true)
          · rw [Function.update_of_ne (Ne.symm heq), if_neg heq]
            exact hraised
      | @deliver k hd _ =>
          simp only [reduceCtorEq, if_false, Event.deliver.injEq, Nat.add_left_cancel_iff,
            Nat.add_zero, Lines.take]
          by_cases heq : k = n
          · subst heq
            have hfree : a.serving k = false := by
              rw [← Bool.not_eq_true]
              intro hserving
              exact Nat.lt_irrefl _ (hd.first k hserving)
            rw [hd.pending] at hraised
            rw [hfree] at hended
            rw [Function.update_self, Function.update_self, if_pos rfl]
            exact ⟨hraised, congrArg (· + 1) hended⟩
          · rw [Function.update_of_ne (Ne.symm heq), Function.update_of_ne (Ne.symm heq),
              if_neg heq]
            exact ⟨hraised, hended⟩
      | @eoi k hserving =>
          simp only [reduceCtorEq, if_false, Event.eoi.injEq, Nat.add_zero]
          refine ⟨hraised, ?_⟩
          by_cases heq : k = n
          · subst heq
            rw [hserving] at hended
            rw [Function.update_self, if_pos rfl]
            exact hended
          · rw [Function.update_of_ne (Ne.symm heq), if_neg heq]
            exact hended
      | enable => simpa only [reduceCtorEq, if_false, Nat.add_zero] using ⟨hraised, hended⟩
      | disable => simpa only [reduceCtorEq, if_false, Nat.add_zero] using ⟨hraised, hended⟩

/-- The line has been requested since its vector was last delivered. -/
def Outstanding (es : List Event) (n : Nat) : Prop :=
  ∃ es₁ es₂, es = es₁ ++ .raise n :: es₂ ∧ .deliver (0x20 + n) ∉ es₂

theorem not_outstanding_nil (n : Nat) : ¬Outstanding [] n := by
  rintro ⟨es₁, es₂, h, -⟩
  simp at h

theorem outstanding_snoc (es : List Event) (e : Event) (n : Nat) :
    Outstanding (es ++ [e]) n ↔
      e = .raise n ∨ Outstanding es n ∧ e ≠ .deliver (0x20 + n) := by
  constructor
  · rintro ⟨es₁, es₂, heq, hnot⟩
    obtain rfl | ⟨es₃, e', rfl⟩ := List.eq_nil_or_concat es₂
    · exact .inl (List.append_inj_right' heq rfl |> List.singleton_inj.1)
    · rw [List.concat_eq_append, ← List.cons_append, ← List.append_assoc] at heq
      obtain ⟨rfl, hlast⟩ := List.append_inj' heq rfl
      obtain rfl := List.singleton_inj.1 hlast
      rw [List.concat_eq_append, List.mem_append, not_or, List.mem_singleton] at hnot
      exact .inr ⟨⟨es₁, es₃, rfl, hnot.1⟩, fun h => hnot.2 h.symm⟩
  · rintro (rfl | ⟨⟨es₁, es₂, rfl, hnot⟩, hne⟩)
    · exact ⟨es, [], rfl, List.not_mem_nil⟩
    · refine ⟨es₁, es₂ ++ [e], by simp, ?_⟩
      rw [List.mem_append, List.mem_singleton]
      rintro (hmem | heq)
      · exact hnot hmem
      · exact hne heq.symm

/-- A request stays until its vector is delivered, and no longer. -/
theorem pending_iff (h : Run LineStep booted es a) (n : Nat) :
    a.pending n = true ↔ Outstanding es n := by
  induction h with
  | nil => exact iff_of_false Bool.false_ne_true (not_outstanding_nil n)
  | @snoc es a b e _ hlast ih =>
      rw [outstanding_snoc, ← ih]
      cases hlast with
      | @raise k _ =>
          by_cases heq : n = k
          · subst heq
            simp
          · simp [Function.update_of_ne heq, Ne.symm heq]
      | @deliver k hd _ =>
          by_cases heq : n = k
          · subst heq
            simp [Lines.take]
          · simp [Lines.take, Function.update_of_ne heq, Ne.symm heq]
      | eoi => simp
      | enable => simp
      | disable => simp

/-- No interrupt is delivered without a request, each that is delivered is ended
before its line gets another, and a request stays until its vector is delivered. -/
theorem deliveries_counted (master slave : Pic)
    (hrun : Run (Guarded Handled Step) (boot master slave) es s)
    (hline : n < 16 ∧ n ≠ 2) :
    es.count (.deliver (0x20 + n)) + (requested s n).toNat ≤ es.count (.raise n) ∧
      es.count (.deliver (0x20 + n)) = es.count (.eoi n) + (inService s n).toNat ∧
      (requested s n = true ↔ Outstanding es n) := by
  obtain ⟨a, hlines, hshows⟩ := run_lines master slave hrun
  rw [requested_eq hshows hline, inService_eq hshows hline]
  obtain ⟨hraised, hended⟩ := counted hlines n
  exact ⟨hraised, hended, pending_iff hlines n⟩

theorem deliveries_counted_nested :
    nestedEvents.count (.deliver 0x28) + (requested nested 8).toNat ≤
        nestedEvents.count (.raise 8) ∧
      nestedEvents.count (.deliver 0x28) =
        nestedEvents.count (.eoi 8) + (inService nested 8).toNat ∧
      (requested nested 8 = true ↔ Outstanding nestedEvents 8) :=
  deliveries_counted reset reset nested_run (n := 8) (by decide)

/-- Nothing changes the masks. -/
def Fixed (es : List Event) : Prop := ∀ e ∈ es, ∀ n, e ≠ .enable n ∧ e ≠ .disable n

theorem delivered_of_fixed (h : Run LineStep booted es a) (hfixed : Fixed es) :
    a.enabled = booted.enabled ∧
      ∀ v, .deliver v ∈ es → v = 0x20 ∨ v = 0x21 ∨ v = 0x28 := by
  induction h with
  | nil => exact ⟨rfl, fun v hv => by cases hv⟩
  | @snoc es a b e _ hlast ih =>
      obtain ⟨henabled, hdelivered⟩ := ih fun e he => hfixed e (List.mem_append_left _ he)
      have hend := hfixed _ (List.mem_append_right _ (List.mem_singleton_self _))
      cases hlast with
      | raise => exact ⟨henabled, fun v hv => hdelivered v (by simpa using hv)⟩
      | @deliver k hd _ =>
          refine ⟨henabled, fun v hv => ?_⟩
          rw [List.mem_append, List.mem_singleton] at hv
          obtain hv | hv := hv
          · exact hdelivered v hv
          · cases hv
            have hk := hd.enabled.1
            rw [henabled] at hk
            have hline := hd.line.2
            simp [booted] at hk
            omega
      | eoi => exact ⟨henabled, fun v hv => hdelivered v (by simpa using hv)⟩
      | enable => exact absurd rfl (hend _).1
      | disable => exact absurd rfl (hend _).2

/-- As long as nothing changes the masks, the processor enters only the handlers of
the timer, the keyboard and the clock, with the interrupts off. -/
theorem device_vectors (address : X86.Handler → Word) (idt : X86.Idt)
    (master slave : Pic) (hrun : Run (Guarded Handled Step) (boot master slave) es s)
    (hfixed : Fixed es) {v : Nat} (hv : .deliver v ∈ es) :
    ∃ g, X86.decodeGate (X86.idtInit address idt v) = some g ∧ g.trap = false ∧
      g.selector = X86.KERNEL_CS ∧
      (v, g.offset) ∈ [(0x20, address .irtPit), (0x21, address .irtKb),
        (0x28, address .irtRtc)] := by
  obtain ⟨a, hlines, _⟩ := run_lines master slave hrun
  have hdevice := (delivered_of_fixed hlines hfixed).2 v hv
  obtain rfl | rfl | rfl := hdevice
  · exact ⟨_, X86.decodeGate_idtInit (by decide), rfl, rfl, .head _⟩
  · exact ⟨_, X86.decodeGate_idtInit (by decide), rfl, rfl, .tail _ (.head _)⟩
  · exact ⟨_, X86.decodeGate_idtInit (by decide), rfl, rfl, .tail _ (.tail _ (.head _))⟩

theorem device_vectors_nested :
    ∃ g, X86.decodeGate (X86.idtInit (fun _ => 0x400000) (fun _ => 0) 0x28) = some g ∧
      g.trap = false ∧ g.selector = X86.KERNEL_CS ∧
      (0x28, g.offset) ∈ [(0x20, 0x400000), (0x21, 0x400000), (0x28, 0x400000)] :=
  device_vectors (fun _ => 0x400000) (fun _ => 0) reset reset nested_run
    (by unfold Fixed nestedEvents; simp) (by decide)

end Runs

end MongOS.Proofs.InterruptController
