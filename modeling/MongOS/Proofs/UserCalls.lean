import MongOS.Model.UserPrograms
import MongOS.Proofs.Arguments
import MongOS.Proofs.DescriptorTable
import MongOS.Proofs.NameLookup
import MongOS.Proofs.VideoSteps

/-!
# System calls as a program sees them

A program sees its name, its argument string, its descriptors and what it has
written; the kernel below, with the other processes and the interrupts, it does
not see.  `View.call` carries out a system call on that alone.  It has no answer
where that is not enough or the kernel faults: for a read of the terminal, for a
`read`, a `write` or a `close` that fails (but for a `close` of a closed descriptor),
for an empty file name, and for a `getargs` that fails or has more room than
`BUFSIZE`.

* `find_congr` — a lookup depends on the string up to its NUL.
* `perform_simulates` — the kernel carries out every such call in the same way,
  whatever lies around the strings, and whatever happens between the calls.
-/

namespace MongOS.Proofs.UserCalls

open MongOS.Model
open MongOS.Verified
open MongOS.Proofs.ScreenFrame
open MongOS.Proofs.Arguments
open MongOS.Proofs.NameLookup
open MongOS.Proofs.CStrings
open MongOS.Proofs.DescriptorCalls
open MongOS.Proofs.DescriptorTable
open MongOS.Proofs.ProcTable
open MongOS.Proofs.VideoSteps (table_vidmap vidmap_valid vidmap_invalid)

variable {σ : Type}

/-! ## The view -/

/-- What a program sees. -/
structure View where
  name : Nat → Byte
  args : List Byte
  slots : Int → FArray
  wrote : List Byte

namespace View

/-- Write a descriptor. -/
def put (v : View) (fd : Int) (slot : FArray) : View :=
  { v with slots := Function.update v.slots fd slot }

/-- The lowest free descriptor. -/
def free (v : View) : Option Int :=
  [2, 3, 4, 5, 6, 7].find? fun i => (v.slots i).flags == FREE

/-- Write to the terminal. -/
def print (v : View) (s : List Byte) : View := { v with wrote := v.wrote ++ s }

/-- A read on an open descriptor: the position afterwards and the reply. -/
def readSlot (fs : FileSys) (slot : FArray) (buf : Nat → Byte) (nbytes : Int) :
    Ops → Option (Nat × Reply)
  | .terminal => none
  | .rtc => some (slot.filePos, ⟨0, buf⟩)
  | .file =>
      let r := readF fs (fs.inodeSt slot.inode) slot.filePos buf nbytes
      some (r.2.1, ⟨r.1, r.2.2⟩)
  | .dir => fs.bootB.map fun boot =>
      let r := readD boot slot.filePos buf nbytes
      (r.2.1, ⟨r.1, r.2.2⟩)

/-- A descriptor that can be used. -/
def Usable (v : View) (fd : Int) (ops : Ops) : Prop :=
  0 ≤ fd ∧ fd < 8 ∧ (v.slots fd).flags ≠ FREE ∧ (v.slots fd).fotp = some ops

instance (v : View) (fd : Int) (ops : Ops) : Decidable (v.Usable fd ops) :=
  inferInstanceAs (Decidable (_ ∧ _ ∧ _ ∧ _))

/-- One system call. -/
def call (fs : FileSys) (v : View) : UserCall → Option (View × Reply)
  | .getargs buf nbytes =>
      if HasText v.args ∧ (v.args.length : Int) ≤ nbytes ∧ nbytes ≤ BUFSIZE then
        some (v, ⟨0, fun j => if j < nbytes.toNat then v.args.getD j 0 else buf j⟩)
      else none
  | .open filename =>
      if 0 ∈ filename ∧ cstr filename ≠ [] then
        match readDentryByName fs ⟨0, filename⟩, v.free with
        | some d, some fd =>
            some (v.put fd (openedSlot d), ⟨if d.type ≤ 2 then fd else -1, fun _ => 0⟩)
        | _, _ => some (v, ⟨-1, fun _ => 0⟩)
      else none
  | .read called buf nbytes =>
      let fd := targetFd v.name called
      if 0 ≤ nbytes ∧ 0 ≤ fd ∧ fd < 8 ∧ fd ≠ 1 ∧ (v.slots fd).flags ≠ FREE then
        ((v.slots fd).fotp.bind (readSlot fs (v.slots fd) buf nbytes)).map fun r =>
          (v.put fd { v.slots fd with filePos := r.1 }, r.2)
      else none
  | .write fd buf nbytes =>
      if 0 ≤ nbytes ∧ fd ≠ 0 ∧ v.Usable fd .terminal then
        some (v.print (arrayBytes nbytes.toNat buf), ⟨nbytes, buf⟩)
      else if nbytes = 4 ∧ fd ≠ 0 ∧ v.Usable fd .rtc then some (v, ⟨4, buf⟩)
      else none
  | .close called =>
      let fd := targetFd v.name called
      if 2 ≤ fd ∧ fd < 8 ∧ (v.slots fd).flags ≠ FREE ∧ (v.slots fd).fotp ≠ none ∧
          fs.bootB ≠ none then
        some (v.put fd clearedSlot, ⟨0, fun _ => 0⟩)
      else if 2 ≤ fd ∧ fd < 8 ∧ (v.slots fd).fotp = none then
        some (v, ⟨-1, fun _ => 0⟩)
      else none
  | .vidmap screenStart =>
      some (v, ⟨if screenStart / 2 ^ PDE_OFFSET = PDE_INDEX then 0 else -1,
        fun i => (le32 SCREENST).getD i 0⟩)

end View

/-- What a program sees of the kernel. -/
structure Sees (v : View) (s : User σ) : Prop where
  name : s.kernel.curPcb.name = v.name
  args : Stored s.kernel v.args
  slots : ∀ i, slotOf s.kernel i = v.slots i
  wrote : s.wrote = v.wrote

/-- What others do does not show. -/
theorem Sees.stable {v : View} {s t : User σ} (h : Sees v s)
    (hst : Undisturbed s t) : Sees v t :=
  { name := hst.name.trans h.name
    args := { h.args with args := by rw [hst.args]; exact h.args.args }
    slots := fun i => (congrFun hst.farray i).trans (h.slots i)
    wrote := hst.wrote.trans h.wrote }

/-! ## The arguments stay -/

theorem args_modifyCur (k : Kernel σ) {f : Pcb σ → Pcb σ}
    (hf : ∀ p, (f p).args = p.args) :
    (k.modifyCur f).curPcb.args = k.curPcb.args := by
  rw [curPcb_modifyCur, hf]

theorem args_modifySlot (k : Kernel σ) (fd : Int) (f : FArray → FArray) :
    (k.modifySlot fd f).curPcb.args = k.curPcb.args := args_modifyCur k fun _ => rfl

theorem args_setCon (k : Kernel σ) {con : Console}
    (hrun : (input con).running = (input k.con).running)
    (hcur : con.currentTid = k.con.currentTid) :
    ({ k with con := con } : Kernel σ).curPcb.args = k.curPcb.args := by
  have hrunning : ({ k with con := con } : Kernel σ).running = k.running :=
    (SameSlots.setCon k hrun hcur).running
  unfold Kernel.curPcb
  rw [hrunning]

theorem args_openOp (fs : FileSys) (k : Kernel σ) (name : CStr) (ops : Ops) :
    (openOp fs k name ops).1.curPcb.args = k.curPcb.args := by
  cases ops with
  | rtc =>
      simp only [openOp, rtcOpen]
      exact args_modifyCur k fun _ => rfl
  | terminal => rfl
  | file => rfl
  | dir => rfl

theorem args_closeOp (fs : FileSys) (k : Kernel σ) (ops : Ops) :
    (closeOp fs k ops).1.curPcb.args = k.curPcb.args := by
  cases ops with
  | rtc =>
      simp only [closeOp, rtcClose]
      exact args_modifyCur k fun _ => rfl
  | terminal => rfl
  | file => rfl
  | dir => rfl

/-- With a mounted image no close operation fails. -/
theorem closeOp_mounted {fs : FileSys} (k : Kernel σ) (ops : Ops)
    (hmounted : fs.bootB ≠ none) : (closeOp fs k ops).2 = 0 := by
  have hsome : fs.bootB.isNone = false := by
    rwa [Option.isNone_eq_false_iff, Option.isSome_iff_ne_none]
  cases ops with
  | rtc => rfl
  | terminal => rfl
  | file => exact if_neg (by rw [hsome]; decide)
  | dir => exact if_neg (by rw [hsome]; decide)

/-! ## Lookups -/

/-- A NUL ends the string. -/
theorem cstr_append_of_mem {bytes : List Byte} (h : 0 ∈ bytes) (rest : List Byte) :
    cstr (bytes ++ rest) = cstr bytes := by
  induction bytes with
  | nil => cases h
  | cons b bs ih =>
      rw [List.cons_append, cstr_cons, cstr_cons]
      split
      · rfl
      · rename_i hb
        rcases List.mem_cons.1 h with hzero | hmem
        · exact absurd hzero.symm hb
        · rw [ih hmem]

/-- A lookup depends on the string up to its NUL. -/
theorem find_congr (fs : FileSys) {s s' : CStr} (hne : cstr s.bytes ≠ [])
    (h : cstr s.bytes = cstr s'.bytes) :
    readDentryByName fs s = readDentryByName fs s' := by
  have hlen : strlen s.bytes = strlen s'.bytes := by
    rw [strlen_eq, strlen_eq, h]
  have hpos : strlen s.bytes ≠ 0 := by
    rw [strlen_eq, ne_eq, List.length_eq_zero_iff]
    exact hne
  have hlast : s.bytes.getD (strlen s.bytes - 1) 0 =
      s'.bytes.getD (strlen s'.bytes - 1) 0 := by
    have hb := last_byte hpos
    rw [h, last_byte (hlen ▸ hpos)] at hb
    exact (Option.some.inj hb).symm
  have hname : lengthOfName s = lengthOfName s' := by
    unfold lengthOfName
    dsimp only
    rw [scanNul_eq, scanNul_eq, hlen]
    rw [hlen] at hpos hlast
    rw [if_neg hpos, if_neg hpos, hlast]
  have hmatch : ∀ n, dentryMatches s n = dentryMatches s' n := by
    intro n
    funext d
    have hcmp : strncmp d.filename s.bytes n = 0 ↔
        strncmp d.filename s'.bytes n = 0 := by
      rw [strncmp_eq_zero_iff, strncmp_eq_zero_iff, h]
    unfold dentryMatches
    congr 1
    rw [Bool.eq_iff_iff, beq_iff_eq, beq_iff_eq]
    exact hcmp
  unfold readDentryByName
  simp only [hname, hmatch]

/-! ## The calls -/

section Calls

variable {fs : FileSys} {around : Around} {v : View} {s : User σ}

theorem Sees.getargs (h : Sees v s) {buf : Nat → Byte} {nbytes : Int}
    (htext : HasText v.args) (hfits : (v.args.length : Int) ≤ nbytes)
    (hmax : nbytes ≤ BUFSIZE) :
    perform fs around s (.getargs buf nbytes) =
      some (s, ⟨0, fun j =>
        if j < nbytes.toNat then v.args.getD j 0 else buf j⟩) := by
  have hroom := around.fits
  have hsize : BUFSIZE = 1024 := rfl
  have hmod : (nbytes % 2 ^ 32).toNat = nbytes.toNat := by
    rw [Int.emod_eq_of_lt (by omega) (by omega)]
  simp only [perform]
  rw [h.args.handed around.below around.above around.room htext (by omega), hmod,
    if_neg (by omega)]

theorem Sees.free_eq (h : Sees v s) : freeSlot s.kernel.curPcb = v.free := by
  unfold freeSlot View.free
  simp only [← h.slots, slotOf]

theorem Sees.open (h : Sees v s) {filename : List Byte} (hnul : 0 ∈ filename)
    (hne : cstr filename ≠ []) {v' : View} {r : Reply}
    (hcall : v.call fs (.open filename) = some (v', r)) :
    ∃ t, perform fs around s (.open filename) = some (t, r) ∧ Sees v' t := by
  have hstring := cstr_append_of_mem hnul around.behind
  have hfind : readDentryByName fs ⟨around.before, filename ++ around.behind⟩ =
      readDentryByName fs ⟨0, filename⟩ :=
    find_congr fs (by rw [hstring]; exact hne) hstring
  have hlen : strlen (filename ++ around.behind) ≠ 0 := by
    rw [strlen_eq, hstring, ne_eq, List.length_eq_zero_iff]
    exact hne
  simp only [View.call, if_pos (And.intro hnul hne)] at hcall
  simp only [perform]
  have hrefused : readDentryByName fs ⟨0, filename⟩ = none ∨ v.free = none →
      ∃ t, some ({ s with kernel := (Model.open fs s.kernel
          ⟨around.before, filename ++ around.behind⟩).1 },
        (⟨(Model.open fs s.kernel ⟨around.before, filename ++ around.behind⟩).2,
          fun _ => 0⟩ : Reply)) = some (t, ⟨-1, fun _ => 0⟩) ∧ Sees v t := by
    intro hnone
    refine ⟨s, ?_, h⟩
    rw [open_refused (.inr ?_)]
    rcases hnone with hnone | hnone
    · exact .inl (hfind.trans hnone)
    · exact .inr (freeSlot_none.1 (h.free_eq.trans hnone))
  split at hcall
  · rename_i d fd hfound hfree
    obtain ⟨rfl, rfl⟩ := Prod.mk.inj (Option.some.inj hcall)
    have hlow := freeSlot_some (h.free_eq.trans hfree)
    have hfound' := hfind.trans hfound
    obtain ⟨hvalue, hslots⟩ := open_takes hlen hfound' hlow
    refine ⟨_, by rw [hvalue], ?_⟩
    refine
      { name := (open_name fs s.kernel _).trans h.name
        args := { h.args with args := ?_ }
        slots := fun i => ?_, wrote := h.wrote }
    · rw [open_eq hlen hfound' hlow, args_openOp, args_modifySlot]
      exact h.args.args
    · rw [hslots]
      show _ = Function.update v.slots fd (openedSlot d) i
      rw [Function.update_apply, h.slots]
  · rename_i hno
    obtain ⟨rfl, rfl⟩ := Prod.mk.inj (Option.some.inj hcall)
    apply hrefused
    cases hfound : readDentryByName fs ⟨0, filename⟩ with
    | none => exact .inl rfl
    | some d =>
        cases hfree : v.free with
        | none => exact .inr rfl
        | some fd => exact absurd hfree (hno d fd hfound)

/-- A kernel whose running process differs in one descriptor is seen as the view
that differs in it. -/
theorem Sees.put (h : Sees v s) {k : Kernel σ} {fd : Int} {slot : FArray}
    (hkeep : SameSlots s.kernel k) (hargs : k.curPcb.args = s.kernel.curPcb.args)
    {f : FArray → FArray} (hf : f (v.slots fd) = slot) :
    Sees (v.put fd slot) { s with kernel := k.modifySlot fd f } :=
  { name := (name_modifySlot k fd f).trans (hkeep.name.trans h.name)
    args := { h.args with
      args := by
        show ∀ j, (k.modifySlot fd f).curPcb.args j = _
        rw [args_modifySlot, hargs]
        exact h.args.args }
    slots := fun i => by
      show slotOf (k.modifySlot fd f) i = Function.update v.slots fd slot i
      rw [slotOf_modifySlot, hkeep.slot, hkeep.slot, h.slots, h.slots, hf,
        Function.update_apply]
    wrote := h.wrote }

theorem Sees.read (h : Sees v s) {called nbytes : Int} {buf : Nat → Byte}
    {v' : View} {r : Reply}
    (hcall : v.call fs (.read called buf nbytes) = some (v', r)) :
    ∃ t, perform fs around s (.read called buf nbytes) = some (t, r) ∧
      Sees v' t := by
  simp only [View.call] at hcall
  split at hcall
  swap
  · cases hcall
  rename_i hok
  obtain ⟨hn, hlo, hhi, hone, hflags⟩ := hok
  obtain ⟨⟨pos, reply⟩, hread, hresult⟩ := Option.map_eq_some_iff.1 hcall
  obtain ⟨rfl, rfl⟩ := Prod.mk.inj hresult
  obtain ⟨ops, hops, hread⟩ := Option.bind_eq_some_iff.1 hread
  have hslot := readsSlot fs s.kernel called buf hn
  rw [h.name] at hslot
  generalize htarget : targetFd v.name called = fd at *
  rw [← h.slots] at hflags hops
  have huses := hslot.uses hlo hhi hone hflags ops hops _ rfl
  have hkeep := readOp_keeps fs s.kernel (slotOf s.kernel fd).inode
    (slotOf s.kernel fd).filePos buf nbytes ops
  cases ops with
  | terminal => cases hread
  | rtc =>
      obtain ⟨rfl, rfl⟩ := Prod.mk.inj (Option.some.inj hread)
      refine ⟨_, ?_, h.put hkeep (args_modifyCur _ fun _ => rfl)
        (f := fun slot => { slot with filePos := (v.slots fd).filePos }) rfl⟩
      simp only [perform, huses, readOp]
      rw [forceFd_eq, h.name, htarget]
      show (if (slotOf s.kernel fd).fotp = some .rtc then _ else _) = _
      rw [if_pos hops, h.slots]
  | file =>
      obtain ⟨rfl, rfl⟩ := Prod.mk.inj (Option.some.inj hread)
      refine ⟨_, ?_, h.put hkeep rfl (f := fun slot => { slot with filePos :=
        (readF fs (fs.inodeSt (v.slots fd).inode) (v.slots fd).filePos buf nbytes).2.1 })
        rfl⟩
      simp only [perform, huses, readOp, h.slots]
  | dir =>
      obtain ⟨boot, hboot, hread⟩ := Option.map_eq_some_iff.1 hread
      obtain ⟨rfl, rfl⟩ := Prod.mk.inj hread
      refine ⟨_, ?_, h.put (.refl _) rfl (f := fun slot => { slot with filePos :=
        (readD boot (v.slots fd).filePos buf nbytes).2.1 }) rfl⟩
      simp only [perform, huses, readOp, hboot, h.slots]

theorem Sees.writeTerminal (h : Sees v s) {fd nbytes : Int} (buf : Nat → Byte)
    (hn : 0 ≤ nbytes) (hzero : fd ≠ 0) (husable : v.Usable fd .terminal) :
    ∃ t, perform fs around s (.write fd buf nbytes) = some (t, ⟨nbytes, buf⟩) ∧
      Sees (v.print (arrayBytes nbytes.toNat buf)) t := by
  obtain ⟨hlo, hhi, hflags, hops⟩ := husable
  rw [← h.slots] at hflags hops
  have huses := (writesSlot s.kernel fd buf hn).uses hlo hhi hzero hflags .terminal
    hops _ rfl
  have hkeep := writeOp_keeps s.kernel buf nbytes .terminal
  have hinput := input_writeTerminal s.kernel.con buf nbytes
  have hout : putOut s.kernel fd buf nbytes = arrayBytes nbytes.toNat buf := by
    unfold putOut
    dsimp only
    exact if_pos ⟨by omega, hhi, hflags, hops⟩
  have hcount : ((nbytes.toNat : Nat) : Int) = nbytes := Int.toNat_of_nonneg hn
  refine ⟨⟨(writeOp s.kernel buf nbytes .terminal).1,
    s.wrote ++ arrayBytes nbytes.toNat buf⟩, ?_, ?_⟩
  · simp only [perform, huses, hout]
    rw [writeOp]
    simp only [Model.writeTerminal, hcount]
  · exact
      { name := hkeep.name.trans h.name
        args := { h.args with
          args := by
            have hargs := args_setCon s.kernel (congrArg Input.running hinput)
              (congrArg Input.cur hinput)
            show ∀ j, (writeOp s.kernel buf nbytes .terminal).1.curPcb.args j = _
            rw [writeOp, hargs]
            exact h.args.args }
        slots := fun i => (hkeep.slot i).trans (h.slots i)
        wrote := by rw [h.wrote]; rfl }

/-- A write of a rate to the RTC shows nothing. -/
theorem Sees.writeRtc (h : Sees v s) {fd : Int} (buf : Nat → Byte) (hzero : fd ≠ 0)
    (husable : v.Usable fd .rtc) :
    ∃ t, perform fs around s (.write fd buf 4) = some (t, ⟨4, buf⟩) ∧ Sees v t := by
  obtain ⟨hlo, hhi, hflags, hops⟩ := husable
  rw [← h.slots] at hflags hops
  have huses := (writesSlot s.kernel fd buf (by decide : (0 : Int) ≤ 4)).uses hlo hhi
    hzero hflags .rtc hops _ rfl
  have hkeep := writeOp_keeps s.kernel buf 4 .rtc
  have hout : putOut s.kernel fd buf 4 = [] := by
    unfold putOut
    dsimp only
    exact if_neg fun hterm => by cases hops.symm.trans hterm.2.2.2
  have hargs : (writeOp s.kernel buf 4 .rtc).1.curPcb.args = s.kernel.curPcb.args :=
    args_modifyCur s.kernel fun _ => rfl
  refine ⟨⟨(writeOp s.kernel buf 4 .rtc).1, s.wrote⟩, ?_, ?_⟩
  · simp only [perform, huses, hout, List.append_nil]
    rfl
  · exact
      { name := hkeep.name.trans h.name
        args := { h.args with
          args := by
            show ∀ j, (writeOp s.kernel buf 4 .rtc).1.curPcb.args j = _
            rw [hargs]
            exact h.args.args }
        slots := fun i => (hkeep.slot i).trans (h.slots i)
        wrote := h.wrote }

theorem Sees.write (h : Sees v s) {fd nbytes : Int} {buf : Nat → Byte}
    {v' : View} {r : Reply}
    (hcall : v.call fs (.write fd buf nbytes) = some (v', r)) :
    ∃ t, perform fs around s (.write fd buf nbytes) = some (t, r) ∧ Sees v' t := by
  simp only [View.call] at hcall
  split at hcall
  · rename_i hok
    obtain ⟨rfl, rfl⟩ := Prod.mk.inj (Option.some.inj hcall)
    exact h.writeTerminal buf hok.1 hok.2.1 hok.2.2
  · split at hcall
    · rename_i hok
      obtain ⟨rfl, rfl⟩ := Prod.mk.inj (Option.some.inj hcall)
      obtain ⟨rfl, hzero, husable⟩ := hok
      exact h.writeRtc buf hzero husable
    · cases hcall

theorem Sees.close (h : Sees v s) {called : Int} {v' : View} {r : Reply}
    (hcall : v.call fs (.close called) = some (v', r)) :
    ∃ t, perform fs around s (.close called) = some (t, r) ∧ Sees v' t := by
  simp only [View.call] at hcall
  split at hcall
  · rename_i hok
    obtain ⟨htwo, hhi, hflags, hops, hmounted⟩ := hok
    obtain ⟨rfl, rfl⟩ := Prod.mk.inj (Option.some.inj hcall)
    obtain ⟨ops, hops⟩ := Option.ne_none_iff_exists'.1 hops
    have hslot := closesSlot fs s.kernel called
    rw [h.name] at hslot
    rw [← h.slots] at hflags hops
    have huses := hslot.uses htwo hhi hflags ops hops _ rfl
    rw [if_pos (closeOp_mounted s.kernel ops hmounted)] at huses
    refine ⟨_, ?_, h.put (closeOp_keeps fs s.kernel ops) (args_closeOp fs s.kernel ops)
      (f := fun _ => clearedSlot) rfl⟩
    simp only [perform, huses]
  · split at hcall
    · rename_i hfree
      obtain ⟨htwo, hhi, hops⟩ := hfree
      obtain ⟨rfl, rfl⟩ := Prod.mk.inj (Option.some.inj hcall)
      have hslot : (s.kernel.curPcb.farray (targetFd v.name called)).fotp = none := by
        rw [← h.slots] at hops
        exact hops
      have hclosed : Model.close fs s.kernel called = (s.kernel, -1) := by
        have hrange : ¬ (targetFd v.name called < FD_ARRAY_MIN ∨
            targetFd v.name called ≥ FD_ARRAY_MAX) := by
          unfold FD_ARRAY_MIN FD_ARRAY_MAX
          omega
        unfold Model.close
        rw [h.name, forceFd_eq, if_neg hrange]
        simp only [hslot]
      refine ⟨s, ?_, h⟩
      simp only [perform, hclosed]
    · cases hcall

theorem vidmap_value (k : Kernel σ) (screenStart : Nat) :
    (Model.vidmap k screenStart).2 =
      if screenStart / 2 ^ PDE_OFFSET = PDE_INDEX then 0 else -1 := by
  split
  · exact (vidmap_valid ‹_›).1
  · rw [vidmap_invalid ‹_›]

/-- `vidmap` changes one field in the control block of its caller. -/
theorem curPcb_vidmap (k : Kernel σ) (screenStart : Nat) :
    ∃ v, (Model.vidmap k screenStart).1.curPcb = { k.curPcb with vidmap := v } := by
  have hrunning : (Model.vidmap k screenStart).1.running = k.running :=
    congrArg Table.head (table_vidmap k screenStart)
  unfold Kernel.curPcb
  rw [hrunning]
  unfold Model.vidmap
  split
  · exact ⟨_, rfl⟩
  split
  · exact ⟨_, rfl⟩
  · exact ⟨OPEN, Function.update_self ..⟩

/-- A `vidmap` shows nothing but its reply. -/
theorem Sees.vidmap (h : Sees v s) (screenStart : Nat) :
    ∃ t, perform fs around s (.vidmap screenStart) =
        some (t, ⟨if screenStart / 2 ^ PDE_OFFSET = PDE_INDEX then 0 else -1,
          fun i => (le32 SCREENST).getD i 0⟩) ∧ Sees v t := by
  obtain ⟨allowed, hpcb⟩ := curPcb_vidmap s.kernel screenStart
  refine ⟨{ s with kernel := (Model.vidmap s.kernel screenStart).1 }, ?_, ?_⟩
  · rw [← vidmap_value s.kernel]
    rfl
  exact
    { name := (congrArg Pcb.name hpcb).trans h.name
      args := { h.args with
        args := fun j => (congrFun (congrArg Pcb.args hpcb) j).trans (h.args.args j) }
      slots := fun i => (congrFun (congrArg Pcb.farray hpcb) i).trans (h.slots i)
      wrote := h.wrote }

end Calls

/-- Nothing lies around the strings, and a page behind the array. -/
def bareAround : Around :=
  { before := 0, behind := [], below := [], above := [], room := 4096
    fits := by decide }

/-- The kernel carries out the calls of a program as the program sees them, with
other processes and interrupts between them. -/
theorem perform_simulates (fs : FileSys) (around : Around) :
    Prog.Simulates (Sees (σ := σ)) Undisturbed (View.call fs) (perform fs around) where
  stable := Sees.stable
  call := by
    intro v s c v' r hsees hcall
    cases c with
    | getargs buf nbytes =>
        simp only [View.call] at hcall
        split at hcall
        · rename_i hok
          obtain ⟨rfl, rfl⟩ := Prod.mk.inj (Option.some.inj hcall)
          exact ⟨s, hsees.getargs hok.1 hok.2.1 hok.2.2, hsees⟩
        · cases hcall
    | «open» filename =>
        have hcall' := hcall
        simp only [View.call] at hcall'
        split at hcall'
        · rename_i hok
          exact hsees.open hok.1 hok.2 hcall
        · cases hcall'
    | read fd buf nbytes => exact hsees.read hcall
    | write fd buf nbytes => exact hsees.write hcall
    | close fd => exact hsees.close hcall
    | vidmap screenStart =>
        obtain ⟨rfl, rfl⟩ := Prod.mk.inj (Option.some.inj hcall)
        exact hsees.vidmap screenStart

/-- The PIT has started a shell on terminal 1. -/
def shellUser : User Nat :=
  { kernel :=
      (procStep SampleImage.shellImage (SampleImage.idleKernel 0)
        (.switch 1 ⟨0, []⟩ 10 11 12 13)).getD (SampleImage.idleKernel 0)
    wrote := [] }

def shellView : View :=
  { name := shellUser.kernel.curPcb.name, args := [], slots := slotOf shellUser.kernel
    wrote := [] }

theorem shell_sees : Sees shellView shellUser :=
  { name := rfl
    args := { args := fun _ => rfl, noNul := List.not_mem_nil, short := Nat.zero_le _ }
    slots := fun _ => rfl
    wrote := rfl }

/-- It opens the file `shell`. -/
theorem shell_opens :
    ∃ t, perform SampleImage.shellImage bareAround shellUser
        (.open [115, 104, 101, 108, 108, 0]) = some (t, ⟨2, fun _ => 0⟩) ∧
      Sees (shellView.put 2 (openedSlot SampleImage.shellEntry)) t :=
  (perform_simulates SampleImage.shellImage bareAround).call shell_sees rfl

end MongOS.Proofs.UserCalls
