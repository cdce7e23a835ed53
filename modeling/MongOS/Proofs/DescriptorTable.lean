import MongOS.Verified.Run
import MongOS.Proofs.DescriptorCalls
import MongOS.Proofs.ExecuteChecks

/-!
# The descriptor table under `open` and `close`

`open` takes the lowest free slot and fills it before it calls the open
operation of the entry's type, `close` clears the slot it names.

* `open_refused`, `open_takes` — the two ends of `open`, as a function of the
  lookup and of the lowest free slot.
* `descriptors_allocated` — what `open` and `close` do in every state that a
  process reaches by these calls after its `execute`.
* `failed_open_keeps_iff` — a failing `open` leaves the table alone unless the
  entry has a type above 2.
-/

namespace MongOS.Proofs.DescriptorTable

open MongOS.Model
open MongOS.Verified
open MongOS.Proofs.ProcTable
open MongOS.Proofs.DescriptorCalls
open MongOS.Proofs.ExecuteChecks

variable {σ : Type}

/-! ## The lowest free slot -/

/-- A descriptor that `open` may hand out is not in use. -/
def FreeFd (k : Kernel σ) (fd : Int) : Prop :=
  2 ≤ fd ∧ fd < 8 ∧ (slotOf k fd).flags = FREE

/-- The lowest descriptor that is not in use. -/
structure LowestFree (k : Kernel σ) (fd : Int) : Prop where
  free : FreeFd k fd
  lowest : ∀ i, FreeFd k i → fd ≤ i

/-- `find?` in an ascending list finds the least element. -/
theorem find_least {l : List Int} (hsorted : l.Pairwise (· < ·))
    {found : Int → Bool} {a b : Int} (ha : l.find? found = some a) (hb : b ∈ l)
    (hfound : found b = true) : a ≤ b := by
  induction l with
  | nil => cases ha
  | cons x l ih =>
      obtain ⟨hx, hrest⟩ := List.pairwise_cons.1 hsorted
      by_cases hfirst : found x = true
      · rw [List.find?_cons_of_pos hfirst] at ha
        cases ha
        rcases List.mem_cons.1 hb with rfl | hmem
        · exact Int.le_refl _
        · exact Int.le_of_lt (hx b hmem)
      · rw [List.find?_cons_of_neg hfirst] at ha
        rcases List.mem_cons.1 hb with rfl | hmem
        · exact absurd hfound hfirst
        · exact ih hrest ha hmem

theorem freeSlot_some {k : Kernel σ} {fd : Int}
    (h : freeSlot k.curPcb = some fd) : LowestFree k fd := by
  obtain ⟨hlo, hhi⟩ := mem_slots.1 (List.mem_of_find?_eq_some h)
  refine
    { free := ⟨hlo, hhi, by simpa [slotOf] using List.find?_some h⟩
      lowest := ?_ }
  rintro i ⟨hilo, hihi, hfree⟩
  have hused : ((k.curPcb.farray i).flags == FREE) = true := beq_iff_eq.2 hfree
  exact find_least (by decide) h (mem_slots.2 ⟨hilo, hihi⟩) hused

theorem freeSlot_none {k : Kernel σ} :
    freeSlot k.curPcb = none ↔ ∀ fd, ¬ FreeFd k fd := by
  unfold freeSlot
  rw [List.find?_eq_none]
  constructor
  · rintro hnone fd ⟨hlo, hhi, hfree⟩
    exact hnone fd (mem_slots.2 ⟨hlo, hhi⟩) (beq_iff_eq.2 hfree)
  · intro hnone fd hmem hfree
    obtain ⟨hlo, hhi⟩ := mem_slots.1 hmem
    exact hnone fd ⟨hlo, hhi, beq_iff_eq.1 hfree⟩

theorem LowestFree.unique {k : Kernel σ} {fd fd' : Int} (h : LowestFree k fd)
    (h' : LowestFree k fd') : fd = fd' := by
  have hle := h.lowest fd' h'.free
  have hge := h'.lowest fd h.free
  omega

theorem LowestFree.freeSlot {k : Kernel σ} {fd : Int} (h : LowestFree k fd) :
    freeSlot k.curPcb = some fd := by
  cases hslot : Model.freeSlot k.curPcb with
  | none => exact absurd h.free (freeSlot_none.1 hslot fd)
  | some fd' => rw [(freeSlot_some hslot).unique h]

/-! ## One `open` -/

/-- `open` is refused at once: an empty name, a name without an entry, or no
free slot. -/
theorem open_refused {fs : FileSys} {k : Kernel σ} {name : CStr}
    (h : strlen name.bytes = 0 ∨ readDentryByName fs name = none ∨
      ∀ fd, ¬ FreeFd k fd) : «open» fs k name = (k, -1) := by
  unfold «open»
  by_cases hempty : strlen name.bytes = 0
  · rw [if_pos hempty]
  rw [if_neg hempty]
  cases hfound : readDentryByName fs name with
  | none => rfl
  | some d =>
      have hfull : ∀ fd, ¬ FreeFd k fd := by
        rcases h with h | h | h
        · exact absurd h hempty
        · rw [hfound] at h
          cases h
        · exact h
      rw [freeSlot_none.2 hfull]

/-- Every `open` is refused at once, or finds an entry and a free slot. -/
theorem open_splits (fs : FileSys) (k : Kernel σ) (name : CStr) :
    «open» fs k name = (k, -1) ∨
      ∃ d fd, strlen name.bytes ≠ 0 ∧ readDentryByName fs name = some d ∧
        LowestFree k fd := by
  by_cases hname : strlen name.bytes = 0
  · exact .inl (open_refused (.inl hname))
  cases hfound : readDentryByName fs name with
  | none => exact .inl (open_refused (.inr (.inl hfound)))
  | some d =>
      cases hslot : freeSlot k.curPcb with
      | none => exact .inl (open_refused (.inr (.inr (freeSlot_none.1 hslot))))
      | some fd => exact .inr ⟨d, fd, hname, rfl, freeSlot_some hslot⟩

/-- With an entry and a free slot, the slot is filled and the open operation
called. -/
theorem open_eq {fs : FileSys} {k : Kernel σ} {name : CStr} {d : Dentry}
    {fd : Int} (hname : strlen name.bytes ≠ 0)
    (hfound : readDentryByName fs name = some d) (hfd : LowestFree k fd) :
    «open» fs k name =
      ((openOp fs (k.modifySlot fd fun _ => openedSlot d) name
        (opsOfType d.type)).1,
      if (openOp fs (k.modifySlot fd fun _ => openedSlot d) name
        (opsOfType d.type)).2 ≠ -1 then fd else -1) := by
  unfold «open»
  rw [if_neg hname, hfound, hfd.freeSlot]
  rfl

/-- The open operation of an entry succeeds for the types 0, 1 and 2. -/
theorem openOp_result (fs : FileSys) (k : Kernel σ) {name : CStr} {d : Dentry}
    (hfound : readDentryByName fs name = some d) :
    (openOp fs k name (opsOfType d.type)).2 = if d.type ≤ 2 then 0 else -1 := by
  have hmounted := bootB_of_found hfound
  cases hboot : fs.bootB with
  | none => exact absurd hboot hmounted
  | some boot =>
      unfold opsOfType
      by_cases hzero : d.type = 0
      · rw [if_pos hzero, if_pos (by omega)]
        rfl
      · rw [if_neg hzero]
        by_cases hone : d.type = 1
        · rw [if_pos hone, if_pos (by omega)]
          simp [openOp, openD, hboot]
        · rw [if_neg hone]
          by_cases htwo : d.type = 2
          · rw [if_pos (by omega)]
            simp [openOp, openF, hboot, hfound, htwo]
          · rw [if_neg (by omega)]
            simp [openOp, openF, hboot, hfound, htwo]

/-- Then the lowest free slot is taken, and `open` fails all the same when the
type of the entry is above 2. -/
theorem open_takes {fs : FileSys} {k : Kernel σ} {name : CStr} {d : Dentry}
    {fd : Int} (hname : strlen name.bytes ≠ 0)
    (hfound : readDentryByName fs name = some d) (hfd : LowestFree k fd) :
    («open» fs k name).2 = (if d.type ≤ 2 then fd else -1) ∧
      ∀ i, slotOf («open» fs k name).1 i =
        if i = fd then openedSlot d else slotOf k i := by
  have hresult := openOp_result fs (k.modifySlot fd fun _ => openedSlot d) hfound
  have hkeep := openOp_keeps fs (k.modifySlot fd fun _ => openedSlot d) name
    (opsOfType d.type)
  rw [open_eq hname hfound hfd]
  constructor
  · rw [hresult]
    by_cases htype : d.type ≤ 2
    · rw [if_pos htype, if_pos htype, if_pos (by decide)]
    · rw [if_neg htype, if_neg htype, if_neg (by decide)]
  · intro i
    rw [hkeep.slot, slotOf_modifySlot]

/-- `open` keeps the name of the program. -/
theorem open_name (fs : FileSys) (k : Kernel σ) (name : CStr) :
    («open» fs k name).1.curPcb.name = k.curPcb.name := by
  rcases open_splits fs k name with hrefused | ⟨d, fd, hname, hfound, hfd⟩
  · rw [hrefused]
  · rw [open_eq hname hfound hfd, (openOp_keeps ..).name, name_modifySlot]

/-- `open` takes a slot that is free, or it fails and changes at most a slot
that is free. -/
theorem open_cases (fs : FileSys) (k : Kernel σ) (name : CStr) :
    ((«open» fs k name).2 = -1 ∧ ∀ i, (slotOf k i).flags ≠ FREE →
        slotOf («open» fs k name).1 i = slotOf k i) ∨
      ∃ d fd, readDentryByName fs name = some d ∧ FreeFd k fd ∧
        («open» fs k name).2 = fd ∧
        ∀ i, slotOf («open» fs k name).1 i =
          if i = fd then openedSlot d else slotOf k i := by
  rcases open_splits fs k name with hrefused | ⟨d, fd, hname, hfound, hfd⟩
  · rw [hrefused]
    exact .inl ⟨rfl, fun _ _ => rfl⟩
  · obtain ⟨hresult, hslots⟩ := open_takes hname hfound hfd
    by_cases htype : d.type ≤ 2
    · rw [if_pos htype] at hresult
      exact .inr ⟨d, fd, hfound, hfd.free, hresult, hslots⟩
    · rw [if_neg htype] at hresult
      refine .inl ⟨hresult, fun i hused => ?_⟩
      have hne : i ≠ fd := by
        rintro rfl
        exact hused hfd.free.2.2
      rw [hslots, if_neg hne]

/-! ## The table of a process -/

/-- A slot is free, or in use with operations. -/
def SlotOk (slot : FArray) : Prop :=
  slot.flags = FREE ∨ (slot.flags = OPEN ∧ slot.fotp ≠ none)

/-- The descriptor table of the running process: the terminal on the first two
slots, and behind them slots that are free or can be used. -/
structure DescTable (k : Kernel σ) : Prop where
  std : ∀ fd, fd = 0 ∨ fd = 1 →
    (slotOf k fd).flags = OPEN ∧ (slotOf k fd).fotp = some .terminal
  slots : ∀ fd, 2 ≤ fd → fd < 8 → SlotOk (slotOf k fd)

/-- Writing a usable slot behind the first two keeps the table. -/
theorem DescTable.update {k k' : Kernel σ} (h : DescTable k) {fd : Int}
    (hlo : 2 ≤ fd) {slot : FArray} (hslot : SlotOk slot)
    (hslots : ∀ i, slotOf k' i = if i = fd then slot else slotOf k i) :
    DescTable k' := by
  refine { std := fun i hi => ?_, slots := fun i hilo hihi => ?_ }
  · rw [hslots, if_neg (by omega)]
    exact h.std i hi
  · rw [hslots]
    split
    · exact hslot
    · exact h.slots i hilo hihi

theorem slotOk_opened (d : Dentry) : SlotOk (openedSlot d) :=
  .inr ⟨rfl, nofun⟩

theorem slotOk_cleared : SlotOk clearedSlot := .inl rfl

theorem DescTable.open {fs : FileSys} {k : Kernel σ} (h : DescTable k)
    (name : CStr) : DescTable («open» fs k name).1 := by
  rcases open_splits fs k name with hrefused | ⟨d, fd, hname, hfound, hfd⟩
  · rw [hrefused]
    exact h
  · obtain ⟨-, hslots⟩ := open_takes hname hfound hfd
    exact h.update hfd.free.1 (slotOk_opened d) hslots

/-- `close` clears a slot of the table that is in use, and refuses every other
descriptor. -/
theorem DescTable.close_eq {fs : FileSys} {k : Kernel σ} (h : DescTable k)
    (hinit : fs.bootB ≠ none) (hname : ¬ NamedGr k) (fd : Int) :
    (2 ≤ fd ∧ fd < 8 ∧ (slotOf k fd).flags ≠ FREE ∧ (close fs k fd).2 = 0 ∧
      ∀ i, slotOf (close fs k fd).1 i =
        if i = fd then clearedSlot else slotOf k i) ∨
    (¬ (2 ≤ fd ∧ fd < 8 ∧ (slotOf k fd).flags ≠ FREE) ∧
      close fs k fd = (k, -1)) := by
  have hcall := closesSlot fs k fd
  rw [targetFd_of_not_gr hname] at hcall
  by_cases hbad : fd < 2 ∨ 8 ≤ fd ∨ (slotOf k fd).flags = FREE
  · right
    refine ⟨?_, hcall.refused hbad⟩
    rintro ⟨hlo, hhi, hused⟩
    rcases hbad with hbad | hbad | hbad
    · omega
    · omega
    · exact hused hbad
  · left
    simp only [not_or] at hbad
    obtain ⟨hlo, hhi, hused⟩ := hbad
    obtain ⟨-, hops⟩ := (h.slots fd (by omega) (by omega)).resolve_left hused
    obtain ⟨ops, hops⟩ := Option.ne_none_iff_exists'.1 hops
    have hclose := hcall.uses (by omega) (by omega) hused ops hops _ rfl
    rw [if_pos (closeOp_succeeds fs k ops hinit)] at hclose
    refine ⟨by omega, by omega, hused, by rw [hclose], fun i => ?_⟩
    rw [hclose, slotOf_modifySlot, (closeOp_keeps fs k ops).slot]

theorem DescTable.close {fs : FileSys} {k : Kernel σ} (h : DescTable k)
    (hinit : fs.bootB ≠ none) (hname : ¬ NamedGr k) (fd : Int) :
    DescTable (close fs k fd).1 := by
  rcases h.close_eq hinit hname fd with ⟨hlo, -, -, -, hslots⟩ | ⟨-, hrefused⟩
  · exact h.update hlo slotOk_cleared hslots
  · rw [hrefused]
    exact h

/-! ## The table of a new process -/

theorem running_setRunning (k : Kernel σ) (p : Int) :
    (k.setRunning p).running = p := by
  simp [Kernel.running, Kernel.runningPid, Kernel.setRunning, Console.modify]

/-- The descriptors of a new process: the first two are the terminal, the
others are free, with whatever operations the block had there. -/
theorem installProcess_slot (k : Kernel σ) (pid : Int) (fname farg : Nat → Byte)
    (esp ebp : σ) (i : Int) :
    slotOf (installProcess k pid fname farg esp ebp) i =
      { flags := if i < 2 then 1 else 0
        inode := 0
        filePos := 0
        fotp := if i < 2 then some .terminal else ((k.pcb pid).farray i).fotp } := by
  have hrunning : (installProcess k pid fname farg esp ebp).running = pid := by
    unfold installProcess
    dsimp only
    split <;> exact running_setRunning _ pid
  have hfarray : ((installProcess k pid fname farg esp ebp).pcb pid).farray =
      (initPcb (k.pcb pid) pid k.running fname farg).farray := by
    rw [installProcess_proj Pcb.farray (fun _ _ _ => rfl) fun _ _ => rfl,
      if_pos rfl]
  rw [slotOf, Kernel.curPcb, hrunning, hfarray]
  rfl

/-- A kernel in which a call of `execute` has just entered user mode. -/
def Started (fs : FileSys) (k0 : Kernel σ) : Prop :=
  ∃ stk k command esp ebp pid entAdd,
    (execute fs stk k command esp ebp).2 = .enter pid entAdd ∧
      k0 = finishExecute (execute fs stk k command esp ebp)

theorem Started.table {fs : FileSys} {k0 : Kernel σ} (h : Started fs k0) :
    DescTable k0 := by
  obtain ⟨stk, k, command, esp, ebp, pid, entAdd, henter, rfl⟩ := h
  obtain ⟨c, d, rfl, hfound⟩ := found_of_enter henter
  obtain ⟨i, -, -, -, -, hload⟩ := execute_enters hfound henter
  have hslot : ∀ fd, slotOf (finishExecute (execute fs stk k (some c) esp ebp))
      fd = slotOf (installed k c i esp ebp) fd := by
    intro fd
    generalize hresult : execute fs stk k (some c) esp ebp = r at henter hload
    obtain ⟨k', res⟩ := r
    subst henter
    subst hload
    rfl
  refine { std := fun fd hfd => ?_, slots := fun fd hlo hhi => .inl ?_ }
  · rw [hslot, installed, installProcess_slot, if_pos (by omega),
      if_pos (by omega)]
    exact ⟨rfl, rfl⟩
  · rw [hslot, installed, installProcess_slot]
    exact if_neg (by omega)

/-! ## Histories of `open` and `close` -/

/-- A call of `open` or `close`. -/
inductive DescCall where
  | «open» (name : CStr)
  | close (fd : Int)

/-- The kernel and the result of a call. -/
def descCall (fs : FileSys) (k : Kernel σ) : DescCall → Kernel σ × Int
  | .open name => «open» fs k name
  | .close fd => close fs k fd

def DescStep (fs : FileSys) (k : Kernel σ) (c : DescCall) (k' : Kernel σ) :
    Prop := (descCall fs k c).1 = k'

/-- The entries of the directory have type 0, 1 or 2. -/
def KnownTypes (fs : FileSys) : Prop :=
  ∀ boot, fs.bootB = some boot →
    ∀ i < boot.numDirEntries, (boot.dirEntries i).type ≤ 2

theorem KnownTypes.found {fs : FileSys} (h : KnownTypes fs) {name : CStr}
    {d : Dentry} (hfound : readDentryByName fs name = some d) : d.type ≤ 2 := by
  obtain ⟨boot, i, hboot, hi, rfl⟩ := entry_of_found hfound
  exact h boot hboot i hi

/-- What a process keeps under `open` and `close`. -/
structure OpenHistory (k : Kernel σ) : Prop where
  table : DescTable k
  notGr : ¬ NamedGr k

theorem OpenHistory.step {fs : FileSys} (hinit : fs.bootB ≠ none)
    {k k' : Kernel σ} {c : DescCall} (h : OpenHistory k)
    (hstep : DescStep fs k c k') : OpenHistory k' := by
  subst hstep
  cases c with
  | «open» name =>
      refine { table := h.table.open name, notGr := ?_ }
      unfold NamedGr
      rw [descCall, open_name]
      exact h.notGr
  | close fd =>
      refine { table := h.table.close hinit h.notGr fd, notGr := ?_ }
      unfold NamedGr
      rw [descCall, (closesSlot fs k fd).name]
      exact h.notGr

/-- What `open` and `close` do to the descriptors of a process. -/
structure AllocatesDescriptors (fs : FileSys) (k : Kernel σ) : Prop where
  /-- The terminal stays on the first two slots. -/
  std : ∀ fd, fd = 0 ∨ fd = 1 →
    (slotOf k fd).flags = OPEN ∧ (slotOf k fd).fotp = some .terminal
  /-- `open` of a name with an entry takes the lowest free slot. -/
  opens : ∀ name d fd, strlen name.bytes ≠ 0 →
    readDentryByName fs name = some d → LowestFree k fd →
    («open» fs k name).2 = fd ∧ ∀ i, slotOf («open» fs k name).1 i =
      if i = fd then openedSlot d else slotOf k i
  /-- It fails exactly when all slots are in use. -/
  full : ∀ name d, strlen name.bytes ≠ 0 → readDentryByName fs name = some d →
    ((«open» fs k name).2 = -1 ↔ ∀ fd, ¬ FreeFd k fd)
  /-- No `open` hands out a slot that is in use. -/
  fresh : ∀ name, («open» fs k name).2 ≠ -1 →
    FreeFd k («open» fs k name).2
  /-- `close` succeeds on the slots from 2 on that are in use. -/
  closes : ∀ fd, (close fs k fd).2 = 0 ↔
    2 ≤ fd ∧ fd < 8 ∧ (slotOf k fd).flags ≠ FREE
  /-- It frees this slot only. -/
  frees : ∀ fd, (close fs k fd).2 = 0 → ∀ i, slotOf (close fs k fd).1 i =
    if i = fd then clearedSlot else slotOf k i
  /-- A `close` that does not succeed changes nothing. -/
  refuses : ∀ fd, (close fs k fd).2 ≠ 0 → close fs k fd = (k, -1)

theorem OpenHistory.allocates {fs : FileSys} (hinit : fs.bootB ≠ none)
    (htypes : KnownTypes fs) {k : Kernel σ} (h : OpenHistory k) :
    AllocatesDescriptors fs k := by
  have hopens : ∀ name d fd, strlen name.bytes ≠ 0 →
      readDentryByName fs name = some d → LowestFree k fd →
      («open» fs k name).2 = fd ∧ ∀ i, slotOf («open» fs k name).1 i =
        if i = fd then openedSlot d else slotOf k i := by
    intro name d fd hname hfound hfd
    obtain ⟨hresult, hslots⟩ := open_takes hname hfound hfd
    rw [if_pos (htypes.found hfound)] at hresult
    exact ⟨hresult, hslots⟩
  have hclose := h.table.close_eq hinit h.notGr
  refine
    { std := h.table.std, opens := hopens, full := ?full, fresh := ?fresh
      closes := ?closes, frees := ?frees, refuses := ?refuses }
  case full =>
    intro name d hname hfound
    constructor
    · intro hfail
      cases hslot : freeSlot k.curPcb with
      | none => exact freeSlot_none.1 hslot
      | some fd =>
          have hfd := freeSlot_some hslot
          have htaken := (hopens name d fd hname hfound hfd).1
          have hlo := hfd.free.1
          omega
    · intro hfull
      rw [open_refused (.inr (.inr hfull))]
  case fresh =>
    intro name hresult
    rcases open_splits fs k name with hrefused | ⟨d, fd, hname, hfound, hfd⟩
    · rw [hrefused] at hresult
      exact absurd rfl hresult
    · rw [(hopens name d fd hname hfound hfd).1]
      exact hfd.free
  case closes =>
    intro fd
    rcases hclose fd with ⟨hlo, hhi, hused, hzero, -⟩ | ⟨hbad, hrefused⟩
    · exact iff_of_true hzero ⟨hlo, hhi, hused⟩
    · rw [hrefused]
      exact iff_of_false nofun hbad
  case frees =>
    intro fd hzero
    rcases hclose fd with ⟨-, -, -, -, hslots⟩ | ⟨-, hrefused⟩
    · exact hslots
    · rw [hrefused] at hzero
      cases hzero
  case refuses =>
    intro fd hfail
    rcases hclose fd with ⟨-, -, -, hzero, -⟩ | ⟨-, hrefused⟩
    · exact absurd hzero hfail
    · exact hrefused

/-- A process whose name does not begin with `gr` allocates and frees its
descriptors as it should after every sequence of `open` and `close` calls. -/
theorem descriptors_allocated {fs : FileSys} (hfs : Accepted fs)
    (htypes : KnownTypes fs) {k0 k : Kernel σ} {calls : List DescCall}
    (hstart : Started fs k0) (hname : ¬ NamedGr k0)
    (hrun : Run (DescStep fs) k0 calls k) : AllocatesDescriptors fs k := by
  have hhistory : OpenHistory k :=
    hrun.invariant OpenHistory { table := hstart.table, notGr := hname }
      fun _ _ _ h hstep => h.step hfs.mounted hstep
  exact hhistory.allocates hfs.mounted htypes

/-- The first process of the sample image. -/
def firstShell : Kernel Nat :=
  finishExecute (execute SampleImage.shellImage ⟨0, []⟩
    (SampleImage.idleKernel 0) (some shellCmd) 10 11)

theorem firstShell_started : Started SampleImage.shellImage firstShell :=
  ⟨⟨0, []⟩, SampleImage.idleKernel 0, some shellCmd, 10, 11, 1, 0x08048000, rfl,
    rfl⟩

/-- It opens its own file twice and closes the first descriptor. -/
theorem firstShell_allocates :
    ∃ k, Run (DescStep SampleImage.shellImage) firstShell
        [.open shellCmd, .open shellCmd, .close 2] k ∧
      AllocatesDescriptors SampleImage.shellImage k := by
  have hname : ¬ NamedGr firstShell := by
    unfold NamedGr
    decide
  have htypes : KnownTypes SampleImage.shellImage := by
    intro boot hboot i hi
    cases hboot
    exact Nat.le_refl 2
  have hrun : Run (DescStep SampleImage.shellImage) firstShell
      ([] ++ [.open shellCmd] ++ [.open shellCmd] ++ [.close 2]) _ :=
    ((Run.nil.snoc rfl).snoc rfl).snoc rfl
  exact ⟨_, hrun, descriptors_allocated shellImage_accepted htypes
    firstShell_started hname hrun⟩

/-! ## A failing `open` -/

/-- If `open` fails, every descriptor is as before. -/
def FailedOpenKeeps (fs : FileSys) (k : Kernel σ) (name : CStr) : Prop :=
  («open» fs k name).2 = -1 →
    ∀ i, slotOf («open» fs k name).1 i = slotOf k i

/-- A failing `open` keeps the table if and only if it does not find an entry
with a type above 2 while a slot is free. -/
theorem failed_open_keeps_iff (fs : FileSys) (k : Kernel σ) (name : CStr) :
    FailedOpenKeeps fs k name ↔
      ¬ (strlen name.bytes ≠ 0 ∧
        (∃ d, readDentryByName fs name = some d ∧ 2 < d.type) ∧
        ∃ fd, FreeFd k fd) := by
  constructor
  · rintro hkeeps ⟨hname, ⟨d, hfound, htype⟩, fd, hfree⟩
    cases hslot : freeSlot k.curPcb with
    | none => exact freeSlot_none.1 hslot fd hfree
    | some fd =>
        have hfd := freeSlot_some hslot
        obtain ⟨hresult, hslots⟩ := open_takes hname hfound hfd
        rw [if_neg (by omega)] at hresult
        -- the slot was free and is marked as open
        have hsame := hkeeps hresult fd
        rw [hslots, if_pos rfl] at hsame
        have hflags : OPEN = FREE :=
          (congrArg FArray.flags hsame).trans hfd.free.2.2
        exact absurd hflags (by decide)
  · intro hcond hfail
    rcases open_splits fs k name with hrefused | ⟨d, fd, hname, hfound, hfd⟩
    · intro i
      rw [hrefused]
    · have htype : d.type ≤ 2 := by
        by_contra hlarge
        exact hcond ⟨hname, ⟨d, hfound, by omega⟩, fd, hfd.free⟩
      have htaken := (open_takes hname hfound hfd).1
      rw [if_pos htype, hfail] at htaken
      have hlo := hfd.free.1
      omega

/-- The name of an entry of type 3. -/
def oddCmd : CStr := { before := 0, bytes := [120] }

/-- The sample image with a second entry, of type 3. -/
def oddImage : FileSys :=
  { SampleImage.shellImage with
    bootB := some
      { numDirEntries := 2
        numInodes := 1
        numDataBlocks := 1
        dirEntries := fun i =>
          if i = 0 then SampleImage.shellEntry
          else
            { filename := [120] ++ List.replicate 31 0
              type := 3
              indexNode := 0
              reserved := List.replicate 24 0 } } }

/-- The first process of this image. -/
def oddShell : Kernel Nat :=
  finishExecute (execute oddImage ⟨0, []⟩ (SampleImage.idleKernel 0)
    (some shellCmd) 10 11)

/-- An `open` of the entry fails and takes a descriptor. -/
theorem failed_open_takes_slot :
    Accepted oddImage ∧ Started oddImage oddShell ∧
      («open» oddImage oddShell oddCmd).2 = -1 ∧
      (slotOf oddShell 2).flags = FREE ∧
      (slotOf («open» oddImage oddShell oddCmd).1 2).flags = OPEN ∧
      ¬ FailedOpenKeeps oddImage oddShell oddCmd := by
  have hfail : («open» oddImage oddShell oddCmd).2 = -1 := by decide +kernel
  have hbefore : (slotOf oddShell 2).flags = FREE := by decide +kernel
  have hafter : (slotOf («open» oddImage oddShell oddCmd).1 2).flags = OPEN := by
    decide +kernel
  have hstarted : Started oddImage oddShell :=
    ⟨⟨0, []⟩, SampleImage.idleKernel 0, some shellCmd, 10, 11, 1, 0x08048000, rfl,
      rfl⟩
  refine ⟨accepted_iff.2 ⟨_, rfl, by decide⟩, hstarted, hfail, hbefore, hafter,
    fun hkeeps => ?_⟩
  have hsame := hkeeps hfail 2
  rw [hsame, hbefore] at hafter
  exact absurd hafter (by decide)

end MongOS.Proofs.DescriptorTable
