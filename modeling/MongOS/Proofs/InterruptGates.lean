import MongOS.Model.EntryCode

/-!
# The gates of the interrupt descriptor table

What the processor reads from the table that `idt_init` sets up.  Every vector has
a gate into the kernel, the gates of the devices turn the interrupts off, and a
process gets through the gate of the system calls and no other.

* `gates_of_idtInit` — the gate of every vector.
* `user_int_iff` — the `int` instructions of a process.
-/

namespace MongOS.Model.X86

open MongOS.Verified

section Entries

variable {e : BitVec 64} {g : Gate}

/-- The address in an entry. -/
def gateOffset (e : BitVec 64) : Word :=
  BitVec.ofNat 32 (IdtDesc.offset31_16.get e * 2 ^ 16 + IdtDesc.offset15_00.get e)

theorem decodeGate_initIdtDesc (i : Nat) (e : BitVec 64) :
    decodeGate (initIdtDesc i e) = some
      { trap := !decide (0x20 ≤ i ∧ i ≤ 0x2F)
        dpl := if i = VECTOR_SYSTEM_CALL then 3 else 0
        selector := KERNEL_CS
        offset := gateOffset e } := by
  have hdpl : (if i = VECTOR_SYSTEM_CALL then 3 else 0) % 2 ^ 2 =
      if i = VECTOR_SYSTEM_CALL then 3 else 0 := by
    split <;> rfl
  have htrap : ((if 0x20 ≤ i ∧ i ≤ 0x2F then 0 else 1) % 2 ^ 1 == 1) =
      !decide (0x20 ≤ i ∧ i ≤ 0x2F) := by
    by_cases h : 0x20 ≤ i ∧ i ≤ 0x2F
    · rw [if_pos h, decide_eq_true h]
      rfl
    · rw [if_neg h, decide_eq_false h]
      rfl
  unfold decodeGate initIdtDesc gateOffset
  simp (disch := decide) only [BitField.get_set_of_eq,
    BitField.get_set_of_disjoint]
  rw [if_pos (by decide)]
  exact congrArg some (Gate.mk.injEq .. |>.mpr ⟨htrap, hdpl, rfl, rfl⟩)

/-- `SET_IDT_ENTRY` puts the address into a gate. -/
theorem decodeGate_setIdtEntry (handler : Word) (h : decodeGate e = some g) :
    decodeGate (setIdtEntry handler e) = some { g with offset := handler } := by
  have hoffset : handler.toNat / 2 ^ 16 % 2 ^ 16 * 2 ^ 16 +
      handler.toNat % 2 ^ 16 % 2 ^ 16 = handler.toNat := by
    have := handler.isLt
    omega
  unfold decodeGate at h
  split at h
  · obtain rfl := Option.some.inj h
    rename_i hgate
    unfold decodeGate setIdtEntry
    simp (disch := decide) only [BitField.get_set_of_eq,
      BitField.get_set_of_disjoint]
    rw [if_pos ⟨rfl, hgate.2⟩]
    refine congrArg some (Gate.mk.injEq .. |>.mpr ⟨rfl, rfl, rfl, ?_⟩)
    exact (congrArg (BitVec.ofNat 32) hoffset).trans (BitVec.ofNat_toNat ..)
  · cases h

theorem decodeGate_dpl (h : decodeGate e = some g) :
    decodeGate (IdtDesc.dpl.set 3 e) = some { g with dpl := 3 } := by
  unfold decodeGate at h
  split at h
  · obtain rfl := Option.some.inj h
    rename_i hgate
    unfold decodeGate
    simp (disch := decide) only [BitField.get_set_of_eq,
      BitField.get_set_of_disjoint]
    rw [if_pos hgate]
    rfl
  · cases h

end Entries

section Table

variable {address : Handler → Word} {idt : Idt} {n : Nat}

/-- The gate of a vector; a vector without a handler keeps the address that was in
the table. -/
def plannedGate (address : Handler → Word) (idt : Idt) (n : Nat) : Gate :=
  { trap := !decide (0x20 ≤ n ∧ n ≤ 0x2F)
    dpl := if n = VECTOR_SYSTEM_CALL then 3 else 0
    selector := KERNEL_CS
    offset := (idtEntries.lookup n).elim (gateOffset (idt n)) address }

theorem decodeGate_idtInit (hn : n < NUM_VEC) :
    decodeGate (idtInit address idt n) = some (plannedGate address idt n) := by
  have hnodup : (idtEntries.map Prod.fst).Nodup := by decide
  have hloop := decodeGate_initIdtDesc n (idt n)
  have hentry : decodeGate ((idtEntries.lookup n).elim (initIdtDesc n (idt n))
      fun h => setIdtEntry (address h) (initIdtDesc n (idt n))) =
        some (plannedGate address idt n) := by
    unfold plannedGate
    cases idtEntries.lookup n with
    | none => exact hloop
    | some handler => exact decodeGate_setIdtEntry (address handler) hloop
  unfold idtInit
  by_cases hcall : n = VECTOR_SYSTEM_CALL
  · rw [← hcall, updateAt_self,
      foldl_updateAt_lookup (fun h => setIdtEntry (address h)) hnodup,
      foldl_range_updateAt initIdtDesc, if_pos hn, decodeGate_dpl hentry]
    refine congrArg some (Gate.mk.injEq .. |>.mpr ⟨rfl, ?_, rfl, rfl⟩)
    exact (if_pos hcall).symm
  · rw [updateAt_of_ne hcall,
      foldl_updateAt_lookup (fun h => setIdtEntry (address h)) hnodup,
      foldl_range_updateAt initIdtDesc, if_pos hn, hentry]

/-- A process gets into the kernel by `int $0x80` and by no other `int`. -/
theorem user_int_iff (hn : n < NUM_VEC) (tss : Tss) {s : Processor}
    (huser : s.cpl = 3) :
    (deliver (idtInit address idt) tss n true s).isSome ↔ n = VECTOR_SYSTEM_CALL := by
  unfold deliver
  rw [decodeGate_idtInit hn, huser]
  by_cases hcall : n = VECTOR_SYSTEM_CALL
  · simp [plannedGate, hcall]
  · simp [plannedGate, hcall]

/-- Every vector has a gate into the kernel's code segment.  A process gets through
the gate of the system calls only, the vectors from 0x20 to 0x2F turn the
interrupts off, and a handler lies where the table of handlers says; that of an
exception reports the number of its vector. -/
theorem gates_of_idtInit (address : Handler → Word) (idt : Idt) {n : Nat}
    (hn : n < NUM_VEC) :
    ∃ g, decodeGate (idtInit address idt n) = some g ∧ g.selector = KERNEL_CS ∧
      (∀ tss s, Processor.cpl s = 3 →
        ((deliver (idtInit address idt) tss n true s).isSome ↔
          n = VECTOR_SYSTEM_CALL)) ∧
      (g.trap = false ↔ 0x20 ≤ n ∧ n ≤ 0x2F) ∧
      ∀ handler, (n, handler) ∈ idtEntries →
        g.offset = address handler ∧ ∀ i, handler.errNum = some i → i = n := by
  have htable : ∀ e ∈ idtEntries, idtEntries.lookup e.1 = some e.2 ∧
      ∀ i ∈ e.2.errNum, i = e.1 := by decide
  refine ⟨plannedGate address idt n, decodeGate_idtInit hn, rfl, ?_, ?_, ?_⟩
  · intro tss s huser
    exact user_int_iff hn tss huser
  · unfold plannedGate
    rw [Bool.not_eq_false', decide_eq_true_iff]
  · intro handler hmem
    obtain ⟨hlookup, hnum⟩ := htable (n, handler) hmem
    refine ⟨?_, hnum⟩
    unfold plannedGate
    rw [hlookup]
    rfl

theorem gates_of_idtInit_keyboard :
    ∃ g, decodeGate (idtInit (fun _ => 0x400000) (fun _ => 0) 0x21) = some g ∧
      g.offset = 0x400000 ∧ g.trap = false := by
  obtain ⟨g, hg, _, _, htrap, hhandler⟩ :=
    gates_of_idtInit (fun _ => 0x400000) (fun _ => 0) (n := 0x21) (by decide)
  exact ⟨g, hg, (hhandler .irtKb (by decide)).1, htrap.2 (by decide)⟩

end Table

end MongOS.Model.X86
