import MongOS.Verified.Run
import MongOS.Verified.Divider
import MongOS.Proofs.SampleImage

/-!
# When the virtual RTC wakes its readers

`RTC_irq` counts the interrupts of the 1024 Hz clock for each control block.
The clock of a process is an integer divider: `rtc_write` sets what it divides
by, and from then on only the interrupts move it, whatever the other processes
do with theirs.

* `RtcCalled`, `ClockStep` — the interrupts and the calls of the driver, with a
  count of the ticks and of the wake-ups of one process.
* `rtc_on_time` — the wake-ups of a process after its `rtc_write`.
* `rtc_rate_exact` — they come at the requested frequency exactly if it divides
  1024; `rate_1000_missed` is a request for 1000.
-/

namespace MongOS.Proofs.RtcTiming

open MongOS.Model
open MongOS.Verified
open MongOS.Proofs.SampleImage

variable {σ : Type}

/-! ## The driver -/

/-- An interrupt of the clock, the calls that the running process makes, and
whatever else happens in the kernel. -/
inductive RtcCall
  | irq
  | «open»
  | write (buf : Nat → Byte) (nbytes : Int)
  | close
  | read
  | other

/-- The RTC fields of a control block. -/
def rtcState (p : Pcb σ) : Int × Int × Int :=
  (p.rtcTrigger, p.rtcCounter, p.rtcMaxcount)

/-- Only the driver assigns to the RTC fields: everything else, a switch to
another process included, leaves them alone. -/
def RtcCalled (k : Kernel σ) : RtcCall → Kernel σ → Prop
  | .irq, k' => k' = rtcIrq k
  | .open, k' => k' = rtcOpen k
  | .write buf nbytes, k' => k' = (rtcWrite k buf nbytes).1
  | .close, k' => k' = rtcClose k
  | .read, k' => k' = rtcReadArm k
  | .other, k' => ∀ p, rtcState (k'.pcb p) = rtcState (k.pcb p)

/-- `RTC_irq` sets the trigger of this control block. -/
def Due (p : Pcb σ) : Prop :=
  p.rtcMaxcount ≠ 0 ∧ p.rtcCounter + 1 ≥ p.rtcMaxcount

instance (p : Pcb σ) : Decidable (Due p) :=
  inferInstanceAs (Decidable (_ ∧ _))

/-- The loop body sets the trigger when the counter has come round. -/
theorem rtcTick_trigger (p : Pcb σ) :
    (rtcTick p).rtcTrigger = if Due p then 1 else p.rtcTrigger := by
  unfold rtcTick
  by_cases hmax : p.rtcMaxcount = 0
  · rw [if_pos hmax, if_neg fun h => h.1 hmax]
  · rw [if_neg hmax]
    by_cases hfull : p.rtcCounter + 1 ≥ p.rtcMaxcount
    · rw [if_pos hfull, if_pos ⟨hmax, hfull⟩]
    · rw [if_neg hfull, if_neg fun h => hfull h.2]

/-- `RTC_irq` on the control block of a process. -/
theorem rtcIrq_pcb (k : Kernel σ) {p : Int} (hp : 1 ≤ p ∧ p ≤ 6) :
    (rtcIrq k).pcb p = rtcTick (k.pcb p) := by
  have hloop : ∀ (pids : List Int), pids.Nodup → ∀ k : Kernel σ,
      (pids.foldl (fun k i => k.modifyPcb i rtcTick) k).pcb p =
        if p ∈ pids then rtcTick (k.pcb p) else k.pcb p := by
    intro pids
    induction pids with
    | nil => exact fun _ _ => rfl
    | cons i pids ih =>
        intro hnodup k
        obtain ⟨hnot, hrest⟩ := List.nodup_cons.1 hnodup
        rw [List.foldl_cons, ih hrest]
        by_cases hi : p = i
        · subst hi
          rw [if_neg hnot, if_pos List.mem_cons_self]
          exact Function.update_self ..
        · have hsame : (k.modifyPcb i rtcTick).pcb p = k.pcb p :=
            Function.update_of_ne hi _ _
          simp only [List.mem_cons, hi, false_or, hsame]
  have hmem : p ∈ [(1 : Int), 2, 3, 4, 5, 6] := by
    simp only [List.mem_cons, List.not_mem_nil, or_false]
    omega
  rw [rtcIrq, hloop _ (by decide), if_pos hmem]

/-! ## The clock of one process -/

/-- The kernel, the ticks since a process set its clock, and its wake-ups. -/
structure Clock (σ : Type) where
  kernel : Kernel σ
  ticks : Nat
  wakeups : Nat

def ticksOf : RtcCall → Nat
  | .irq => 1
  | _ => 0

/-- An interrupt wakes the process if it sets the trigger. -/
def wakeupsOf (p : Pcb σ) : RtcCall → Nat
  | .irq => if Due p then 1 else 0
  | _ => 0

structure ClockStep (p : Int) (c : Clock σ) (e : RtcCall) (c' : Clock σ) :
    Prop where
  called : RtcCalled c.kernel e c'.kernel
  ticks : c'.ticks = c.ticks + ticksOf e
  wakeups : c'.wakeups = c.wakeups + wakeupsOf (c.kernel.pcb p) e

/-- The process `p` neither opens, writes nor closes the RTC. -/
def Foreign (p : Int) (c : Clock σ) : RtcCall → Prop
  | .open => c.kernel.running ≠ p
  | .write _ _ => c.kernel.running ≠ p
  | .close => c.kernel.running ≠ p
  | _ => True

/-- The frequency asked for, an `int32_t` in the caller's memory. -/
def request (buf : Nat → Byte) : Int :=
  toInt32 ((buf 0).toNat + (buf 1).toNat * 2 ^ 8 + (buf 2).toNat * 2 ^ 16 +
    (buf 3).toNat * 2 ^ 24)

/-- What `rtc_write` divides the ticks by. -/
def divider (f : Int) : Nat :=
  (MAX_FREQ / max MIN_FREQ (min f MAX_FREQ)).toNat

/-- The clock when the process that runs has asked for a frequency. -/
def Clock.start (k : Kernel σ) (buf : Nat → Byte) : Clock σ :=
  { kernel := (rtcWrite k buf 4).1, ticks := 0, wakeups := 0 }

/-- The division is safe, and the quotient a count between 1 and 512. -/
theorem divider_bounds (f : Int) :
    2 ≤ max MIN_FREQ (min f MAX_FREQ) ∧ 1 ≤ divider f ∧ divider f ≤ 512 := by
  have hlo : (2 : Int) ≤ max MIN_FREQ (min f MAX_FREQ) := by
    unfold MIN_FREQ
    omega
  have hhi : max MIN_FREQ (min f MAX_FREQ) ≤ (1024 : Int) := by
    unfold MIN_FREQ MAX_FREQ
    omega
  unfold divider
  generalize max MIN_FREQ (min f MAX_FREQ) = d at hlo hhi ⊢
  have hone : (1 : Int) ≤ MAX_FREQ / d := by
    rw [Int.le_ediv_iff_mul_le (by omega)]
    unfold MAX_FREQ
    omega
  have hmany : MAX_FREQ / d ≤ (512 : Int) := by
    have hlt : MAX_FREQ / d < (513 : Int) := by
      rw [Int.ediv_lt_iff_lt_mul (by omega)]
      unfold MAX_FREQ
      omega
    omega
  exact ⟨hlo, by omega, by omega⟩

theorem rtcWrite_counts (k : Kernel σ) (buf : Nat → Byte) :
    ((rtcWrite k buf 4).1.pcb k.running).rtcCounter = 0 ∧
      ((rtcWrite k buf 4).1.pcb k.running).rtcMaxcount =
        divider (request buf) := by
  have hclamp : ∀ f : Int,
      (if (if f > MAX_FREQ then MAX_FREQ else f) < MIN_FREQ then MIN_FREQ
        else (if f > MAX_FREQ then MAX_FREQ else f)) =
        max MIN_FREQ (min f MAX_FREQ) := by
    intro f
    unfold MAX_FREQ MIN_FREQ
    split <;> split <;> omega
  have hpcb : (rtcWrite k buf 4).1.pcb k.running =
      { k.pcb k.running with
        rtcMaxcount := MAX_FREQ / max MIN_FREQ (min (request buf) MAX_FREQ)
        rtcCounter := 0 } := by
    unfold rtcWrite
    rw [if_neg (by decide)]
    dsimp only
    rw [show toInt32 _ = request buf from rfl, hclamp (request buf)]
    exact Function.update_self ..
  have hbounds := divider_bounds (request buf)
  rw [hpcb]
  refine ⟨rfl, ?_⟩
  dsimp only
  unfold divider at hbounds ⊢
  omega

/-- Without its own calls the clock of a process stands still between ticks,
and a read only clears the trigger. -/
theorem clock_frame {k k' : Kernel σ} {e : RtcCall} {p : Int}
    (h : RtcCalled k e k') (hirq : ticksOf e = 0)
    (hforeign : k.running ≠ p) : rtcState (k'.pcb p) = rtcState (k.pcb p) := by
  have hcur : ∀ f : Pcb σ → Pcb σ, (k.modifyCur f).pcb p = k.pcb p :=
    fun f => Function.update_of_ne hforeign.symm _ _
  cases e with
  | irq => cases hirq
  | «open» => rw [h, rtcOpen, hcur]
  | write buf nbytes =>
      rw [h]
      unfold rtcWrite
      split
      · rfl
      · dsimp only
        rw [hcur]
  | close => rw [h, rtcClose, hcur]
  | read => rw [h, rtcReadArm, hcur]
  | other => exact h p

/-- The counter of the clock of process `p` is where the ticks have brought
it. -/
structure OnTime (p : Int) (m : Nat) (c : Clock σ) : Prop where
  rate : (c.kernel.pcb p).rtcMaxcount = m
  counter : (c.kernel.pcb p).rtcCounter = (c.ticks % m : Nat)
  wakeups : c.wakeups = c.ticks / m

namespace OnTime

variable {p : Int} {m : Nat} {c c' : Clock σ}

theorem start (k : Kernel σ) (buf : Nat → Byte) :
    OnTime k.running (divider (request buf)) (.start k buf) := by
  obtain ⟨hcounter, hrate⟩ := rtcWrite_counts k buf
  refine { rate := hrate, counter := ?_, wakeups := ?_ }
  · rw [Clock.start, hcounter, Nat.zero_mod]
    rfl
  · exact (Nat.zero_div _).symm

/-- The next tick wakes the process if it is a multiple. -/
theorem due_iff (h : OnTime p m c) (hm : 0 < m) :
    Due (c.kernel.pcb p) ↔ m ∣ c.ticks + 1 := by
  rw [← Divider.fires_iff_dvd hm, Due, h.rate, h.counter, Divider.Fires]
  omega

/-- A call that leaves the counter and the rate alone. -/
theorem keep (h : OnTime p m c)
    (hcounter : (c'.kernel.pcb p).rtcCounter = (c.kernel.pcb p).rtcCounter)
    (hrate : (c'.kernel.pcb p).rtcMaxcount = (c.kernel.pcb p).rtcMaxcount)
    (hticks : c'.ticks = c.ticks) (hwakeups : c'.wakeups = c.wakeups) :
    OnTime p m c' where
  rate := hrate.trans h.rate
  counter := by rw [hcounter, h.counter, hticks]
  wakeups := by rw [hwakeups, h.wakeups, hticks]

/-- A tick. -/
theorem tick (h : OnTime p m c) (hm : 0 < m) (hp : 1 ≤ p ∧ p ≤ 6)
    (hstep : ClockStep p c .irq c') : OnTime p m c' := by
  have hkernel : c'.kernel = rtcIrq c.kernel := hstep.called
  have hpcb : c'.kernel.pcb p = rtcTick (c.kernel.pcb p) := by
    rw [hkernel, rtcIrq_pcb _ hp]
  have hmax : ¬(c.kernel.pcb p).rtcMaxcount = 0 := by
    rw [h.rate]
    omega
  have hnext := Divider.next_mod hm c.ticks
  have hcount := Divider.fires_count hm c.ticks
  have hfires : Due (c.kernel.pcb p) ↔ Divider.Fires m (c.ticks % m) :=
    (h.due_iff hm).trans (Divider.fires_iff_dvd hm c.ticks).symm
  have hwakeups : c'.wakeups = c.wakeups +
      if Due (c.kernel.pcb p) then 1 else 0 := hstep.wakeups
  have hticks : c'.ticks = c.ticks + 1 := hstep.ticks
  unfold Divider.next at hnext
  unfold rtcTick at hpcb
  rw [if_neg hmax] at hpcb
  by_cases hdue : Due (c.kernel.pcb p)
  · rw [if_pos (hfires.1 hdue)] at hnext hcount
    rw [if_pos hdue.2] at hpcb
    refine { rate := ?rate, counter := ?counter, wakeups := ?wakeups }
    case rate => rw [hpcb]; exact h.rate
    case counter => rw [hpcb, hticks, ← hnext]; rfl
    case wakeups => rw [hwakeups, if_pos hdue, h.wakeups, hticks, hcount]
  · have hnot : ¬Divider.Fires m (c.ticks % m) := fun hf => hdue (hfires.2 hf)
    rw [if_neg hnot] at hnext hcount
    rw [if_neg fun hge => hdue ⟨hmax, hge⟩] at hpcb
    refine { rate := ?rate, counter := ?counter, wakeups := ?wakeups }
    case rate => rw [hpcb]; exact h.rate
    case counter =>
      rw [hpcb, hticks, ← hnext]
      dsimp only
      rw [h.counter]
      rfl
    case wakeups => rw [hwakeups, if_neg hdue, h.wakeups, hticks, hcount]

/-- Every step of a run in which the process does not set its clock again. -/
theorem step (h : OnTime p m c) (hm : 0 < m) (hp : 1 ≤ p ∧ p ≤ 6) {e : RtcCall}
    (hforeign : Foreign p c e) (hstep : ClockStep p c e c') : OnTime p m c' := by
  have hframe : ticksOf e = 0 → wakeupsOf (c.kernel.pcb p) e = 0 →
      (e = .other ∨ c.kernel.running ≠ p) → OnTime p m c' := by
    intro hticks hwakeups hwho
    have hstate : rtcState (c'.kernel.pcb p) = rtcState (c.kernel.pcb p) := by
      rcases hwho with rfl | hrun
      · exact hstep.called p
      · exact clock_frame hstep.called hticks hrun
    have hcounts := congrArg Prod.snd hstate
    refine h.keep (congrArg Prod.fst hcounts) (congrArg Prod.snd hcounts) ?_ ?_
    · rw [hstep.ticks, hticks]
      rfl
    · rw [hstep.wakeups, hwakeups]
      rfl
  cases e with
  | irq => exact h.tick hm hp hstep
  | «open» => exact hframe rfl rfl (.inr hforeign)
  | write buf nbytes => exact hframe rfl rfl (.inr hforeign)
  | close => exact hframe rfl rfl (.inr hforeign)
  | other => exact hframe rfl rfl (.inl rfl)
  | read =>
      by_cases hrun : c.kernel.running = p
      · -- its own read clears the trigger
        have hcalled : c'.kernel = rtcReadArm c.kernel := hstep.called
        have hpcb : c'.kernel.pcb p = { c.kernel.pcb p with rtcTrigger := 0 } := by
          rw [hcalled, ← hrun]
          exact Function.update_self ..
        exact h.keep (by rw [hpcb]) (by rw [hpcb]) hstep.ticks hstep.wakeups
      · exact hframe rfl rfl (.inr hrun)

end OnTime

/-- The runs after an `rtc_write` of process `p` in which it does not set its
clock again. -/
def Timed (p : Int) (k : Kernel σ) (buf : Nat → Byte) (es : List RtcCall)
    (c : Clock σ) : Prop :=
  Run (Guarded (Foreign p) (ClockStep p)) (.start k buf) es c

theorem Timed.onTime {p : Int} {k : Kernel σ} {buf : Nat → Byte}
    {es : List RtcCall} {c : Clock σ} (h : Timed p k buf es c)
    (hp : 1 ≤ p ∧ p ≤ 6) (hrun : k.running = p) :
    OnTime p (divider (request buf)) c := by
  have hm : 0 < divider (request buf) := (divider_bounds _).2.1
  have hstart := OnTime.start k buf
  rw [hrun] at hstart
  exact h.invariant (OnTime p _) hstart fun _ _ _ hc hstep =>
    hc.step hm hp hstep.1 hstep.2

/-- After `rtc_write` the clock of a process divides the ticks by 1024 over the
frequency, clamped to 2 and 1024.  Until the process opens, writes or closes the
RTC again, the counter stays below the divisor, `RTC_irq` sets the trigger on
the multiples of the divisor and on no other tick, and what the other processes
do changes nothing. -/
theorem rtc_on_time {p : Int} {k : Kernel σ} {buf : Nat → Byte}
    {es : List RtcCall} {c : Clock σ} (hp : 1 ≤ p ∧ p ≤ 6)
    (hrun : k.running = p) (h : Timed p k buf es c) :
    (1 ≤ divider (request buf) ∧ divider (request buf) ≤ 512) ∧
      0 ≤ (c.kernel.pcb p).rtcCounter ∧
      (c.kernel.pcb p).rtcCounter < divider (request buf) ∧
      ((rtcIrq c.kernel).pcb p).rtcTrigger =
        (if divider (request buf) ∣ c.ticks + 1 then 1
          else (c.kernel.pcb p).rtcTrigger) ∧
      ∀ e k', RtcCalled c.kernel e k' → ticksOf e = 0 →
        c.kernel.running ≠ p →
        rtcState (k'.pcb p) = rtcState (c.kernel.pcb p) := by
  have htime := h.onTime hp hrun
  obtain ⟨-, hone, hmany⟩ := divider_bounds (request buf)
  have hlt := Nat.mod_lt c.ticks (show 0 < divider (request buf) by omega)
  refine ⟨⟨hone, hmany⟩, ?_, ?_, ?_, fun e k' => clock_frame⟩
  · rw [htime.counter]
    omega
  · rw [htime.counter]
    omega
  · rw [rtcIrq_pcb _ hp, rtcTick_trigger]
    by_cases hdvd : divider (request buf) ∣ c.ticks + 1
    · rw [if_pos hdvd, if_pos ((htime.due_iff (by omega)).2 hdvd)]
    · rw [if_neg hdvd, if_neg fun hdue =>
        hdvd ((htime.due_iff (by omega)).1 hdue)]

/-! ## The rate -/

/-- Process `p` is woken at frequency `f`: after `n` ticks as often as the 1024
ticks of a second allow, and `f` times in any 1024 ticks in a row. -/
def AtRate (f : Nat) (p : Int) (k : Kernel σ) (buf : Nat → Byte) : Prop :=
  (∀ es c, Timed p k buf es c → c.wakeups = c.ticks * f / 1024) ∧
    ∀ es es' c c', Timed p k buf es c →
      Run (Guarded (Foreign p) (ClockStep p)) c es' c' →
      c'.ticks = c.ticks + 1024 → c'.wakeups = c.wakeups + f

/-- Any number of ticks can follow. -/
theorem timed_irqs (p : Int) (k : Kernel σ) (buf : Nat → Byte) (n : Nat) :
    ∃ c, Timed p k buf (List.replicate n .irq) c ∧ c.ticks = n := by
  induction n with
  | zero => exact ⟨.start k buf, .nil, rfl⟩
  | succ n ih =>
      obtain ⟨c, hrun, hticks⟩ := ih
      obtain ⟨c', hstep⟩ : ∃ c', ClockStep p c .irq c' :=
        ⟨{ kernel := rtcIrq c.kernel, ticks := c.ticks + 1
           wakeups := c.wakeups + wakeupsOf (c.kernel.pcb p) .irq },
          { called := rfl, ticks := rfl, wakeups := rfl }⟩
      refine ⟨c', ?_, ?_⟩
      · rw [List.replicate_succ']
        exact hrun.snoc ⟨trivial, hstep⟩
      · rw [hstep.ticks, hticks]
        rfl

theorem divider_of_mem {f : Nat} (hlo : 2 ≤ f) (hhi : f ≤ 1024) :
    divider f = 1024 / f := by
  have hclamp : max MIN_FREQ (min (f : Int) MAX_FREQ) = (f : Int) := by
    unfold MIN_FREQ MAX_FREQ
    omega
  rw [divider, hclamp, show MAX_FREQ = ((1024 : Nat) : Int) from rfl,
    ← Int.natCast_ediv, Int.toNat_natCast]

/-- A process that asks for a frequency between 2 and 1024 is woken at that
frequency exactly if it divides 1024. -/
theorem rtc_rate_exact {p : Int} {k : Kernel σ} {buf : Nat → Byte} {f : Nat}
    (hp : 1 ≤ p ∧ p ≤ 6) (hrun : k.running = p) (hf : request buf = f)
    (hlo : 2 ≤ f) (hhi : f ≤ 1024) : AtRate f p k buf ↔ f ∣ 1024 := by
  have hwakeups : ∀ es c, Timed p k buf es c →
      c.wakeups = c.ticks / (1024 / f) := by
    intro es c h
    rw [(h.onTime hp hrun).wakeups, hf, divider_of_mem hlo hhi]
  rw [← Divider.rate_iff_dvd (by omega) hhi]
  constructor
  · intro hrate n
    obtain ⟨c, htimed, hticks⟩ := timed_irqs p k buf n
    have hcount := hrate.1 _ c htimed
    rw [hwakeups _ c htimed, hticks] at hcount
    exact hcount
  · intro hall
    refine ⟨fun es c h => ?_, fun es es' c c' h h' hticks => ?_⟩
    · rw [hwakeups es c h, hall]
    · rw [hwakeups _ c' (h.append h'), hwakeups es c h, hall, hall, hticks,
        Divider.window (by decide)]

/-! ## Requests for 512 and for 1000 -/

/-- Process 1 runs on terminal 0. -/
def oneProcess : Kernel Unit :=
  { idleKernel () with
    con := idleConsole.modify 0 fun t => { t with runningPid := 1 } }

/-- The request for 512, and the request for 1000. -/
def ask512 (i : Nat) : Byte := if i = 1 then 2 else 0

def ask1000 (i : Nat) : Byte :=
  if i = 0 then 0xE8 else if i = 1 then 3 else 0

/-- The first of the two ticks that the clock for 512 counts. -/
theorem rtc_on_time_512 :
    ∃ c, Timed 1 oneProcess ask512 [.irq] c ∧
      ((rtcIrq c.kernel).pcb 1).rtcTrigger = 1 := by
  obtain ⟨c, htimed, hticks⟩ := timed_irqs 1 oneProcess ask512 1
  have htrigger := (rtc_on_time (by decide) (by rfl) htimed).2.2.2.1
  have hdivider : divider (request ask512) = 2 := by decide
  rw [hdivider, hticks, if_pos (by decide)] at htrigger
  exact ⟨c, htimed, htrigger⟩

theorem rate_512 : AtRate 512 1 oneProcess ask512 := by
  have hrequest : request ask512 = (512 : Nat) := by decide
  have hexact := rtc_rate_exact (p := 1) (k := oneProcess) (f := 512)
    (by decide) rfl hrequest (by decide) (by decide)
  exact hexact.2 (by decide)

/-- A request for 1000 is answered with 1024 wake-ups a second. -/
theorem rate_1000_missed :
    (∃ c, Timed 1 oneProcess ask1000 (List.replicate 1024 .irq) c ∧
        c.wakeups = 1024) ∧
      request ask1000 = 1000 ∧ ¬AtRate 1000 1 oneProcess ask1000 := by
  obtain ⟨c, htimed, hticks⟩ := timed_irqs 1 oneProcess ask1000 1024
  have hwakeups := (htimed.onTime (by decide) rfl).wakeups
  have hdivider : divider (request ask1000) = 1 := by decide
  rw [hdivider, hticks, Nat.div_one] at hwakeups
  refine ⟨⟨c, htimed, hwakeups⟩, by decide, fun hrate => ?_⟩
  have hthousand := hrate.1 _ c htimed
  rw [hwakeups, hticks] at hthousand
  omega

end MongOS.Proofs.RtcTiming
