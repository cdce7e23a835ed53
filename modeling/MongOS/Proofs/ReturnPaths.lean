import MongOS.Proofs.EntryCode

/-!
# Coming back: library calls, `execute` and interrupts

What a process finds when it goes on after a function of the system call library,
after a program that it has executed, and after an interrupt.  `execute` and
`process_switch` leave their kernel stack by an `iret` or by a change of `esp`, and
`halt` or a later switch returns from them with the frame pointer they have saved.
Nothing here is said about the data segment registers, which are not in the model.

* `doCall_returns` — a function of the system call library.
* `execute_resumes` — `execute`, when the program that it started halts.
* `irt_transparent` — an interrupt of a device.
* `pit_resumes` — a process that was switched away from and back to.
-/

namespace MongOS.Model.X86

open MongOS.Verified Processor

/-! ## The system call library -/

section Library

variable {service : Service → Routine} {next : Word} {s : Processor}
  {code : Word → Option Routine} {address : Handler → Word}

/-- A process at the `int` of a library function. -/
def atInt (s : Processor) (number after : Word) : Processor :=
  { s |> pushl .ebx |> movl number .eax |> load 8 .ebx |> load 12 .ecx
      |> load 16 .edx with eip := after }

theorem doCall_bind (int80 : Routine) (after number : Word) :
    doCall int80 after number s = (int80 (atInt s number after)).bind fun r =>
      if r.eip = after then some (r |> popl .ebx |> ret) else none := rfl

/-- The registers at the `int`, with the arguments from the stack. -/
theorem atInt_regs {ra a b c : Word} (hargs : s.stack.words 4 = [ra, a, b, c])
    (number after : Word) :
    (atInt s number after).regs .eax = number ∧
      (atInt s number after).regs .ebx = a ∧
      (atInt s number after).regs .ecx = b ∧
      (atInt s number after).regs .edx = c := by
  have hwords : (s.pushl .ebx).stack.words 5 = [s.regs .ebx, ra, a, b, c] := by
    rw [← hargs]
    exact WordStack.words_push s.stack (s.regs .ebx) (by decide)
  have hword : ∀ i, i < 5 → [s.regs .ebx, ra, a, b, c][i]? =
      some ((s.pushl .ebx).stack.mem (slot (s.pushl .ebx).stack.esp i)) := by
    intro i hi
    rw [← hwords]
    exact WordStack.getElem?_words _ hi
  exact ⟨rfl, (Option.some.inj (hword 2 (by decide))).symm,
    (Option.some.inj (hword 3 (by decide))).symm,
    (Option.some.inj (hword 4 (by decide))).symm⟩

/-- A function of the system call library.  The kernel's function is called with its
three arguments, and if it keeps the saved register and the return address on the
process's stack, the library function returns with the result; `ecx` and `edx` have
the second and the third argument. -/
theorem doCall_returns (idt : Idt) {tss : Tss} (huser : s.cpl = 3)
    (hcode : code (address .syscallW) = some (syscallW service next))
    {ra a b c : Word} (hargs : s.stack.words 4 = [ra, a, b, c])
    (hapart : ∀ i, i < 2 → ∀ j, j < 15 →
      slot (s.stack.esp - 4) i ≠ slot (tss.esp0 - 60) j)
    (f : Service) (after : Word) :
    ∃ e : Processor, e.stack.words 4 = [next, a, b, c] ∧
      e.stack.esp = tss.esp0 - 60 ∧
      ∀ r, service f e = some r → Returned 3 11 e r →
        (∀ i, i < 2 → r.stack.mem (slot (s.stack.esp - 4) i) =
          e.stack.mem (slot (s.stack.esp - 4) i)) →
        doCall (interrupt code (idtInit address idt) tss VECTOR_SYSTEM_CALL true)
            after (sysNumber f) s = some
          { s with
            regs := Function.update (Function.update (Function.update s.regs
              .eax (r.regs .eax)) .ecx b) .edx c
            eip := ra
            stack := { mem := r.stack.mem, esp := s.stack.esp + 4 } } := by
  obtain ⟨heax, hebx, hecx, hedx⟩ := atInt_regs hargs (sysNumber f) after
  have huser' : (atInt s (sysNumber f) after).cpl = 3 := huser
  obtain ⟨e, he⟩ : ∃ e, e = userCallee address idt tss (atInt s (sysNumber f) after)
    next := ⟨_, rfl⟩
  have hwords : e.stack.words 4 = [next, a, b, c] := by
    rw [he, userCallee_words huser', hebx, hecx, hedx]
  have hbottom : e.stack.esp = tss.esp0 - 60 := by
    have hesp : slot e.stack.esp 15 = tss.esp0 := by
      rw [he]
      exact userCallee_esp huser'
    rw [← hesp]
    exact (BitVec.add_sub_cancel e.stack.esp 60).symm
  refine ⟨e, hwords, hbottom, ?_⟩
  intro r hr hret hkeep
  -- the two words of the process's stack are still there
  have hpushed : (atInt s (sysNumber f) after).stack = s.stack.push (s.regs .ebx) := rfl
  have hword : ∀ i, i < 2 → [s.regs .ebx, ra][i]? =
      some (r.stack.mem (slot (s.stack.esp - 4) i)) := by
    intro i hi
    have hback : r.stack.mem (slot (s.stack.esp - 4) i) =
        (s.stack.push (s.regs .ebx)).mem (slot (s.stack.push (s.regs .ebx)).esp i) := by
      rw [hkeep i hi, ← hpushed]
      rw [he]
      refine userCallee_mem huser' fun j hj => ?_
      rw [← he, hbottom]
      exact hapart i hi j hj
    have hone : s.stack.words 1 = [ra] :=
      WordStack.words_take (l := [ra]) (n := 3) hargs
    have htwo : (s.stack.push (s.regs .ebx)).words 2 = [s.regs .ebx, ra] := by
      rw [← hone]
      exact WordStack.words_push s.stack (s.regs .ebx) (by decide)
    rw [hback, ← htwo]
    exact WordStack.getElem?_words _ hi
  have hsaved := Option.some.inj (hword 0 (by decide))
  have hreturn := Option.some.inj (hword 1 (by decide))
  rw [slot_zero] at hsaved
  rw [he] at hr hret
  have hinterrupt := int80_service huser' hcode heax hr hret
  rw [doCall_bind, hinterrupt, Option.bind_some]
  refine (if_pos rfl).trans ?_
  refine congrArg some (Processor.mk.injEq .. |>.mpr ⟨?_, hreturn.symm, rfl, rfl, rfl, ?_⟩)
  · funext q
    cases q with
    | eax => rfl
    | ecx => exact hecx
    | edx => exact hedx
    | ebx => exact hsaved.symm
    | ebp => rfl
    | esi => rfl
    | edi => rfl
  · have hslot : slot (slot (s.stack.esp - 4) 1) 1 = s.stack.esp + 4 := by
      rw [← slot_add, slot_below, slot_one]
    exact congrArg (WordStack.mk r.stack.mem) hslot

end Library

/-! ## Frames -/

section CFrames

variable {args kept : Nat} {b c : Processor} {m : Word → Word}

/-- The frame of a C function that was called in state `c` is in memory, with the
words above its arguments. -/
structure FrameKept (args kept : Nat) (c : Processor) (m : Word → Word) : Prop where
  ebp : m (c.stack.esp - 4) = c.regs .ebp
  eip : m c.stack.esp = c.stack.top
  words : (WordStack.mk m (slot c.stack.esp (args + 1))).words kept =
    (c.stack.drop (args + 1)).words kept

/-- It is there if the words from the frame pointer on are those that the function has
set up. -/
theorem frameKept_of_words (hsize : args + kept + 2 < 2 ^ 30)
    (h : (WordStack.mk m (enterFrame c).stack.esp).words (args + 1 + kept + 1) =
      (enterFrame c).stack.words (args + 1 + kept + 1)) : FrameKept args kept c m := by
  have hpush := WordStack.words_push c.stack (c.regs .ebp)
    (n := args + 1 + kept) (by omega)
  have hword : ∀ i, i < args + 1 + kept + 1 →
      some (m (slot (enterFrame c).stack.esp i)) =
        (c.regs .ebp :: c.stack.words (args + 1 + kept))[i]? := by
    intro i hi
    rw [← hpush]
    exact (WordStack.getElem?_words _ hi).symm.trans (congrArg (·[i]?) h)
  have hnth : ∀ i, i < args + 1 + kept →
      m (slot c.stack.esp i) = c.stack.mem (slot c.stack.esp i) := by
    intro i hi
    have hone := hword (i + 1) (by omega)
    have hslot : slot (enterFrame c).stack.esp (i + 1) = slot c.stack.esp i :=
      slot_below ..
    rw [hslot, List.getElem?_cons_succ, WordStack.getElem?_words _ hi] at hone
    exact Option.some.inj hone
  refine ⟨?_, ?_, ?_⟩
  · have hzero := Option.some.inj (hword 0 (by omega))
    rwa [slot_zero] at hzero
  · have hone := hnth 0 (by omega)
    rwa [slot_zero] at hone
  · have hesp : (WordStack.mk m (slot c.stack.esp (args + 1))).esp =
        (c.stack.drop (args + 1)).esp := rfl
    apply WordStack.words_congr hesp
    intro i hi
    have hdeep := hnth (args + 1 + i) (by omega)
    rwa [slot_add] at hdeep

/-- What is pushed in the function does not reach its frame. -/
theorem frameKept_pushes (vs : List Word) (hsize : vs.length + args + kept + 2 < 2 ^ 30) :
    FrameKept args kept c ((enterFrame c).stack.pushes vs).mem := by
  have hdrop : ((enterFrame c).stack.pushes vs).drop vs.length =
      WordStack.mk ((enterFrame c).stack.pushes vs).mem (enterFrame c).stack.esp := by
    unfold WordStack.drop
    rw [WordStack.slot_esp_pushes]
  apply frameKept_of_words (by omega)
  rw [← hdrop]
  exact WordStack.words_drop_pushes _ vs (by omega)

/-- `leave; ret` returns from the function whose frame `ebp` points to. -/
theorem leaveRet_returned (args kept : Nat) (hebp : b.regs .ebp = c.stack.esp - 4)
    (hcs : b.cs = c.cs) (hss : b.ss = c.ss) (hframe : FrameKept args kept c b.stack.mem) :
    Returned args kept c (leaveRet b) ∧
      (leaveRet b).regs = Function.update b.regs .ebp (c.regs .ebp) := by
  have hsecond : slot (b.regs .ebp) 1 = c.stack.esp := by
    rw [hebp, slot_below, slot_zero]
  have hesp : (leaveRet b).stack.esp = slot c.stack.esp 1 := congrArg (slot · 1) hsecond
  have heip : (leaveRet b).eip = c.stack.top :=
    (congrArg b.stack.mem hsecond).trans hframe.eip
  have hwords : ((leaveRet b).stack.drop args).words kept =
      (c.stack.drop (args + 1)).words kept := by
    have hdrop : (leaveRet b).stack.drop args =
        WordStack.mk b.stack.mem (slot c.stack.esp (args + 1)) := by
      unfold WordStack.drop
      rw [hesp, Nat.add_comm, slot_add]
      rfl
    rw [hdrop, hframe.words]
  have hregs : (leaveRet b).regs = Function.update b.regs .ebp (c.regs .ebp) := by
    rw [← hframe.ebp, ← hebp]
    rfl
  exact ⟨⟨heip, hesp, hcs, hss, hwords⟩, hregs⟩

end CFrames

/-- `execute` returns to the process that called it when the program halts: the
process goes on behind its call, with the return value of `halt` as the result.  The
code between is free to use the registers and every stack, as long as the frame of
`execute` and the stacks of the process are there again in the end. -/
theorem execute_resumes {service : Service → Routine} {setup program : Routine}
    {next : Word} {s : Processor} (code : Word → Option Routine)
    (address : Handler → Word) (idt : Idt) (tss : Tss) (huser : s.cpl = 3)
    (hcode : code (address .syscallW) = some (syscallW service next))
    (hexecute : service .execute = executeCall setup program)
    {ra a b c : Word} (hargs : s.stack.words 4 = [ra, a, b, c])
    (hapart : ∀ i, i < 2 → ∀ j, j < 15 →
      slot (s.stack.esp - 4) i ≠ slot (tss.esp0 - 60) j)
    (after : Word) :
    ∃ e : Processor, e.stack.words 4 = [next, a, b, c] ∧
      e.stack.esp = tss.esp0 - 60 ∧
      ∀ p h, setup (enterFrame e) = some p → p.regs .ebp = (enterFrame e).regs .ebp →
        program p = some h → h.cs = e.cs → h.ss = e.ss →
        FrameKept 3 11 e h.stack.mem →
        (∀ i, i < 2 → h.stack.mem (slot (s.stack.esp - 4) i) =
          e.stack.mem (slot (s.stack.esp - 4) i)) →
        doCall (interrupt code (idtInit address idt) tss VECTOR_SYSTEM_CALL true)
            after (sysNumber .execute) s = some
          { s with
            regs := Function.update (Function.update (Function.update s.regs
              .eax (h.regs .ebx)) .ecx b) .edx c
            eip := ra
            stack := { mem := h.stack.mem, esp := s.stack.esp + 4 } } := by
  obtain ⟨e, hwords, hesp, hreturn⟩ :=
    doCall_returns idt huser hcode hargs hapart .execute after
  refine ⟨e, hwords, hesp, ?_⟩
  intro p h hsetup hebp hprogram hcs hss hframe hkeep
  obtain ⟨r, hr⟩ : ∃ r, r = haltAsm (h |> movl p.stack.esp .edx |>
    movl (p.regs .ebp) .ecx) := ⟨_, rfl⟩
  have hdone : service .execute e = some r := by
    rw [hexecute, executeCall, hsetup, Option.bind_eq_bind, Option.bind_some, hprogram]
    exact congrArg some hr.symm
  obtain ⟨t, ht, htebp, hteax, htcs, htss, htmem⟩ : ∃ t : Processor, r = leaveRet t ∧
      t.regs .ebp = p.regs .ebp ∧ t.regs .eax = h.regs .ebx ∧ t.cs = h.cs ∧
      t.ss = h.ss ∧ t.stack.mem = h.stack.mem := ⟨_, hr, rfl, rfl, rfl, rfl, rfl⟩
  obtain ⟨hret, hregs⟩ := leaveRet_returned 3 11 (htebp.trans hebp) (htcs.trans hcs)
    (htss.trans hss) (by rwa [htmem])
  rw [← ht] at hret hregs
  have hmem : r.stack.mem = h.stack.mem := by
    rw [ht]
    exact htmem
  have heax : r.regs .eax = h.regs .ebx := by
    rw [hregs]
    exact hteax
  have hresult := hreturn r hdone hret (by rwa [hmem])
  rwa [heax, hmem] at hresult

/-- A process at its call of a library function. -/
def atCall : Processor where
  regs := fun _ => 1
  eip := 0x8048100
  eflags := 0x202
  cs := BitVec.ofNat 32 USER_CS
  ss := BitVec.ofNat 32 USER_DS
  stack := { mem := fun _ => 0, esp := 0x83FFFF0 }

/-- The system calls, with a program that halts at once and returns 5. -/
def haltsAtOnce : Service → Routine
  | .execute => executeCall some fun p => some (p.movl 5 .ebx)
  | _ => sysFail

theorem execute_resumes_atCall :
    ∃ m, doCall (interrupt (fun _ => some (syscallW haltsAtOnce 0x400040))
        (idtInit (fun _ => 0x400000) fun _ => 0) { esp0 := 0x7FFFFC, ss0 := 0x18 }
        VECTOR_SYSTEM_CALL true) 0x8048200 (sysNumber .execute) atCall = some
      { atCall with
        regs := Function.update (Function.update (Function.update atCall.regs
          .eax 5) .ecx 0) .edx 0
        eip := 0
        stack := { mem := m, esp := 0x83FFFF4 } } := by
  obtain ⟨e, _, hesp, hresume⟩ := execute_resumes (s := atCall)
    (fun _ => some (syscallW haltsAtOnce 0x400040)) (fun _ => 0x400000) (fun _ => 0)
    { esp0 := 0x7FFFFC, ss0 := 0x18 } (by decide) rfl rfl rfl (by decide) 0x8048200
  have hkeep : ∀ i, i < 2 →
      (enterFrame e).stack.mem (slot (atCall.stack.esp - 4) i) =
        e.stack.mem (slot (atCall.stack.esp - 4) i) := by
    intro i hi
    have hne : ∀ i, i < 2 →
        slot (atCall.stack.esp - 4) i ≠ (0x7FFFFC : Word) - 60 - 4 := by decide
    have hframe : (enterFrame e).stack = e.stack.push (e.regs .ebp) := rfl
    rw [hframe, WordStack.push, hesp]
    exact Function.update_of_ne (hne i hi) _ _
  exact ⟨_, hresume (enterFrame e) ((enterFrame e).movl 5 .ebx) rfl rfl rfl rfl rfl
    (frameKept_pushes [] (by decide)) hkeep⟩

/-! ## Interrupts -/

section Interrupts

variable {f : Routine} {next : Word} {e r : Processor}

/-- The registers and the flags as `INTERRUPT_WRAP` has pushed them. -/
def savedAll (e : Processor) : Processor := e |> pushal |> pushfl

/-- The words that this puts on the stack, the top first. -/
def savedAllWords (e : Processor) : List Word :=
  [e.eflags, e.regs .edi, e.regs .esi, e.regs .ebp, e.stack.esp, e.regs .ebx,
    e.regs .edx, e.regs .ecx, e.regs .eax]

theorem savedAll_eq (e : Processor) :
    savedAll e = { e with stack := e.stack.pushes (savedAllWords e).reverse } := by
  simp [savedAll, pushal, pushfl, pushl, push, savedAllWords, WordStack.pushes]

theorem savedAll_stack (e : Processor) :
    (savedAll e).stack = e.stack.pushes (savedAllWords e).reverse := by
  rw [savedAll_eq]

/-- They are popped again. -/
theorem popal_popfl (h : r.stack.words 9 = savedAllWords e) :
    (r |> popfl |> popal) = { r with
      regs := e.regs
      eflags := e.eflags
      stack := r.stack.drop 9 } := by
  injection h with heflags h
  injection h with hedi h
  injection h with hesi h
  injection h with hebp h
  injection h with hesp h
  injection h with hebx h
  injection h with hedx h
  injection h with hecx h
  injection h with heax _
  have hstack : ((((((((r.stack.drop 1).drop 1).drop 1).drop 1).drop 1).drop 1).drop
      1).drop 1).drop 1 = r.stack.drop 9 := by
    simp only [← WordStack.drop_add]
  have hregs : (r |> popfl |> popal).regs = e.regs := by
    funext q
    cases q with
    | eax => exact heax
    | ecx => exact hecx
    | edx => exact hedx
    | ebx => exact hebx
    | ebp => exact hebp
    | esi => exact hesi
    | edi => exact hedi
  exact Processor.mk.injEq .. |>.mpr ⟨hregs, rfl, heflags, rfl, rfl, hstack⟩

/-- The wrapper up to its `iret`. -/
theorem interruptWrap_eq {n : Nat} (hn : 9 + n + 1 < 2 ^ 30)
    (hcall : f ((savedAll e).push next) = some r)
    (hret : Returned 0 (9 + n) ((savedAll e).push next) r) :
    ∃ t : Processor, interruptWrap f next e = some t.iret ∧ t.regs = e.regs ∧
      t.cs = e.cs ∧ t.ss = e.ss ∧
      t.stack = { mem := r.stack.mem, esp := e.stack.esp } ∧
      t.stack.words n = e.stack.words n := by
  obtain ⟨hdone, hkept⟩ := call_returned (by omega) hcall hret
  have hzero : ∀ t : WordStack Word, t.drop 0 = t := fun t => by
    unfold WordStack.drop
    rw [slot_zero]
  have hwords : r.stack.words (9 + n) = savedAllWords e ++ e.stack.words n := by
    have hall := hkept.words
    rw [hzero, hzero, savedAll_stack] at hall
    exact hall.trans (WordStack.words_pushes e.stack (savedAllWords e).reverse (by
      have hlength : (savedAllWords e).reverse.length = 9 := rfl
      omega))
  have hnine : r.stack.words 9 = savedAllWords e :=
    WordStack.words_take (l := savedAllWords e) hwords
  have hrest : (r.stack.drop 9).words n = e.stack.words n :=
    WordStack.words_drop (l := savedAllWords e) hwords
  have hesp : slot r.stack.esp 9 = e.stack.esp := by
    have hlength : (savedAllWords e).reverse.length = 9 := rfl
    rw [hkept.esp, savedAll_stack, ← hlength, WordStack.slot_esp_pushes]
  have hstack : r.stack.drop 9 = { mem := r.stack.mem, esp := e.stack.esp } := by
    unfold WordStack.drop
    rw [hesp]
  have hbind : interruptWrap f next e = some (r |> popfl |> popal).iret := by
    have hunfold : interruptWrap f next e =
        (call f next (savedAll e)).bind fun r => some (r |> popfl |> popal).iret := rfl
    rw [hunfold, hdone, Option.bind_some]
  have hcs : r.cs = e.cs := by rw [hkept.cs, savedAll_eq]
  have hss : r.ss = e.ss := by rw [hkept.ss, savedAll_eq]
  refine ⟨_, hbind, ?_⟩
  rw [popal_popfl hnine]
  exact ⟨rfl, hcs, hss, hstack, hrest⟩

end Interrupts

section Devices

variable {f : Routine} {next : Word} {s : Processor} {n : Nat} {h : Handler}
  {code : Word → Option Routine} {address : Handler → Word} {idt : Idt} {tss : Tss}

/-- The devices, with their wrappers. -/
def deviceEntries : List (Nat × Handler) :=
  [(DEVICE_PIT, .irtPit), (DEVICE_KEYBOARD, .irtKb), (DEVICE_RTC, .irtRtc)]

theorem plannedGate_device (address : Handler → Word) (idt : Idt)
    (hdev : (n, h) ∈ deviceEntries) :
    n < NUM_VEC ∧ (plannedGate address idt n).trap = false ∧
      (plannedGate address idt n).offset = address h := by
  have htable : ∀ e ∈ deviceEntries, e.1 < NUM_VEC ∧
      (!decide (0x20 ≤ e.1 ∧ e.1 ≤ 0x2F)) = false ∧
      idtEntries.lookup e.1 = some e.2 := by decide
  obtain ⟨hn, htrap, hlookup⟩ := htable (n, h) hdev
  refine ⟨hn, htrap, ?_⟩
  unfold plannedGate
  rw [hlookup]
  rfl

theorem length_frame_le (s : Processor) : (frame s).length ≤ 5 := by
  unfold frame
  split <;> simp

/-- The state in which the C function of a device is called. -/
def deviceCallee (tss : Tss) (g : Gate) (s : Processor) (next : Word) : Processor :=
  (savedAll (entered tss g s)).push next

theorem deviceCallee_stack (g : Gate) :
    (deviceCallee tss g s next).stack = (frameBase tss s).pushes
      ((frame s).reverse ++ ((savedAllWords (entered tss g s)).reverse ++ [next])) := by
  have hpush : (deviceCallee tss g s next).stack =
      (savedAll (entered tss g s)).stack.pushes [next] := rfl
  have hentry : (entered tss g s).stack = (frameBase tss s).pushes (frame s).reverse :=
    rfl
  rw [hpush, savedAll_stack, hentry, WordStack.pushes_append, WordStack.pushes_append]

theorem deviceCallee_flags (hdev : (n, h) ∈ deviceEntries) :
    Flags.IF.get (deviceCallee tss (plannedGate address idt n) s next).eflags = 0 := by
  have hflags : (deviceCallee tss (plannedGate address idt n) s next).eflags =
      entryFlags false s.eflags := by
    rw [deviceCallee, savedAll_eq, ← (plannedGate_device address idt hdev).2.1]
    rfl
  rw [hflags]
  exact BitField.get_set_of_eq (by decide) rfl 0 _

/-- An interrupt of a device, when its C function returns. -/
theorem device_returns (hlevel : s.cpl = 0 ∨ s.cpl = 3)
    (hdev : (n, h) ∈ deviceEntries)
    (hcode : code (address h) = some (interruptWrap f next)) {r : Processor}
    (hr : f (deviceCallee tss (plannedGate address idt n) s next) = some r)
    (hret : Returned 0 (9 + (frame s).length)
      (deviceCallee tss (plannedGate address idt n) s next) r) :
    interrupt code (idtInit address idt) tss n false s = some
      { s with stack := { mem := r.stack.mem, esp := s.stack.esp } } := by
  obtain ⟨hn, _, heip⟩ := plannedGate_device address idt hdev
  obtain ⟨e, he⟩ : ∃ e, e = entered tss (plannedGate address idt n) s := ⟨_, rfl⟩
  have hsmall := length_frame_le s
  obtain ⟨t, ht, hregs, hcs, hss, hstack, hwords⟩ := interruptWrap_eq (by omega) hr hret
  rw [← he] at ht hregs hcs hss hstack hwords
  have hkernel : (BitVec.ofNat 32 KERNEL_CS).toNat % 4 = 0 := by decide
  have hcpl : t.cpl = 0 := by
    unfold cpl
    rw [hcs, he]
    exact hkernel
  have hesp : t.stack.esp = e.stack.esp := by rw [hstack]
  have hframe : t.stack.words (frame s).length = frame s := by
    have hpushes := WordStack.words_pushes (frameBase tss s) (frame s).reverse
      (n := 0) (by
        rw [List.length_reverse]
        omega)
    rw [List.length_reverse, List.reverse_reverse] at hpushes
    rw [hwords, he]
    exact hpushes.trans (List.append_nil _)
  rw [he] at hss hesp
  have hback := iret_entered hlevel hcpl hss hesp hframe
  have hentry : e.eip = address h := by
    rw [he]
    exact heip
  unfold interrupt
  rw [deliver_eq hn (Or.inl rfl), Option.bind_eq_bind, Option.bind_some, ← he, hentry,
    hcode, Option.bind_eq_bind, Option.bind_some, ht, hback, hregs, hstack, he]
  rfl

/-- An interrupt of a device, in a process or in the kernel.  The C function runs with
the interrupts off, below the words of the interrupted code; when it returns, this
code goes on with every register of the model as it was. -/
theorem irt_transparent (code : Word → Option Routine) (address : Handler → Word)
    (idt : Idt) (tss : Tss) (hlevel : s.cpl = 0 ∨ s.cpl = 3)
    (hdev : (n, h) ∈ deviceEntries)
    (hcode : code (address h) = some (interruptWrap f next)) :
    ∃ c : Processor, c.cs = BitVec.ofNat 32 KERNEL_CS ∧ Flags.IF.get c.eflags = 0 ∧
      slot c.stack.esp (10 + (frame s).length) = (frameBase tss s).esp ∧
      (∀ x, (∀ j, j < 10 + (frame s).length → x ≠ slot c.stack.esp j) →
        c.stack.mem x = s.stack.mem x) ∧
      ∀ r, f c = some r → Returned 0 (9 + (frame s).length) c r →
        interrupt code (idtInit address idt) tss n false s = some
          { s with stack := { mem := r.stack.mem, esp := s.stack.esp } } := by
  obtain ⟨g, hg⟩ : ∃ g, g = plannedGate address idt n := ⟨_, rfl⟩
  have hlength : ((frame s).reverse ++ ((savedAllWords (entered tss g s)).reverse ++
      [next])).length = 10 + (frame s).length := by
    simp [savedAllWords]
    omega
  have hbase : (frameBase tss s).mem = s.stack.mem := by
    unfold frameBase
    split <;> rfl
  have hcs : (deviceCallee tss g s next).cs = BitVec.ofNat 32 KERNEL_CS := by
    rw [deviceCallee, savedAll_eq, hg]
    rfl
  have hflags : Flags.IF.get (deviceCallee tss g s next).eflags = 0 := by
    rw [hg]
    exact deviceCallee_flags hdev
  refine ⟨deviceCallee tss g s next, hcs, hflags, ?_, ?_, ?_⟩
  · rw [deviceCallee_stack, ← hlength]
    exact WordStack.slot_esp_pushes ..
  · intro x hx
    rw [deviceCallee_stack] at hx ⊢
    rw [← hlength] at hx
    exact (WordStack.mem_pushes _ _ hx).trans (congrFun hbase x)
  · intro r hr hret
    rw [hg] at hr hret
    exact device_returns hlevel hdev hcode hr hret

/-- The interrupt of the PIT switches to another process.  However long the kernel is
away, and whatever the general registers are then, the interrupted code goes on with
every register of the model as it was when `process_switch` comes back to it, if its
kernel stack is as it was. -/
theorem pit_resumes {before away : Routine} {back : Word}
    (code : Word → Option Routine) (address : Handler → Word) (idt : Idt) (tss : Tss)
    (hlevel : s.cpl = 0 ∨ s.cpl = 3)
    (hcode : code (address .irtPit) =
      some (interruptWrap (pitIrq before (processSwitch away) back) next)) :
    ∃ c : Processor, Flags.IF.get c.eflags = 0 ∧
      ∀ p b : Processor, before (enterFrame c) = some p →
        p.regs .ebp = (enterFrame c).regs .ebp →
        away (enterFrame (p.push back)) = some b → b.cs = c.cs → b.ss = c.ss →
        p.cs = c.cs → p.ss = c.ss →
        FrameKept 1 0 (p.push back) b.stack.mem →
        FrameKept 0 (9 + (frame s).length) c b.stack.mem →
        interrupt code (idtInit address idt) tss DEVICE_PIT false s = some
          { s with stack := { mem := b.stack.mem, esp := s.stack.esp } } := by
  obtain ⟨c, hc⟩ : ∃ c, c = deviceCallee tss (plannedGate address idt DEVICE_PIT) s next :=
    ⟨_, rfl⟩
  have hif : Flags.IF.get c.eflags = 0 := by
    rw [hc]
    exact deviceCallee_flags (h := .irtPit) (by decide)
  refine ⟨c, hif, ?_⟩
  intro p b hbefore hebp haway hcs hss hpcs hpss hinner houter
  obtain ⟨q, hq⟩ : ∃ q, q = switchAsm (enterFrame (p.push back)).stack.esp
    ((enterFrame (p.push back)).regs .ebp) b := ⟨_, rfl⟩
  obtain ⟨t, ht, htebp, htcs, htss, htmem⟩ : ∃ t : Processor, q = leaveRet t ∧
      t.regs .ebp = (p.push back).stack.esp - 4 ∧ t.cs = b.cs ∧ t.ss = b.ss ∧
      t.stack.mem = b.stack.mem := ⟨_, hq, rfl, rfl, rfl, rfl⟩
  -- `process_switch` returns into the frame of `pit_irq`
  obtain ⟨hret, hregs⟩ := leaveRet_returned 1 0 htebp
    (htcs.trans (hcs.trans hpcs.symm)) (htss.trans (hss.trans hpss.symm))
    (by rwa [htmem])
  rw [← ht] at hret hregs
  have hmem : q.stack.mem = b.stack.mem := by
    rw [ht]
    exact htmem
  have hframe : q.regs .ebp = c.stack.esp - 4 := by
    rw [hregs, Function.update_self]
    exact hebp
  have hqcs : q.cs = c.cs := hret.cs.trans hpcs
  have hqss : q.ss = c.ss := hret.ss.trans hpss
  have hswitch : processSwitch away (p.push back) = some q := by
    rw [processSwitch, haway, Option.bind_eq_bind, Option.bind_some, ← hq]
  obtain ⟨hcall, _⟩ := call_returned (by decide) hswitch hret
  have hdone : pitIrq before (processSwitch away) back c = some (leaveRet q) := by
    rw [pitIrq, hbefore, Option.bind_eq_bind, Option.bind_some, hcall]
    rfl
  obtain ⟨hretc, _⟩ := leaveRet_returned 0 (9 + (frame s).length) hframe hqcs hqss
    (by rwa [hmem])
  rw [hc] at hdone hretc
  have hresult := device_returns hlevel (by decide) hcode hdone hretc
  have hlast : (leaveRet q).stack.mem = b.stack.mem := hmem
  rwa [hlast] at hresult

end Devices

/-- The keyboard interrupts the process, and its C function does nothing. -/
theorem irt_transparent_keyboard :
    ∃ m, interrupt (fun _ => some (interruptWrap (fun c => some c.ret) 0x400040))
      (idtInit (fun _ => 0x400000) fun _ => 0) { esp0 := 0x7FFFFC, ss0 := 0x18 }
      DEVICE_KEYBOARD false atCall = some
        { atCall with stack := { mem := m, esp := 0x83FFFF0 } } := by
  obtain ⟨c, _, _, _, _, hreturn⟩ := irt_transparent (s := atCall) (h := .irtKb)
    (n := DEVICE_KEYBOARD) (f := fun c => some c.ret)
    (fun _ => some (interruptWrap (fun c => some c.ret) 0x400040)) (fun _ => 0x400000)
    (fun _ => 0) { esp0 := 0x7FFFFC, ss0 := 0x18 } (Or.inr (by decide)) (by decide) rfl
  exact ⟨_, hreturn c.ret rfl (returned_ret 0 14 c)⟩

/-- The PIT interrupts the process, and the other process leaves 7 in every register. -/
theorem pit_resumes_atCall :
    ∃ m, interrupt (fun _ => some (interruptWrap (pitIrq some (processSwitch fun x =>
        some { x with regs := fun _ => 7 }) 0x400080) 0x400040))
      (idtInit (fun _ => 0x400000) fun _ => 0) { esp0 := 0x7FFFFC, ss0 := 0x18 }
      DEVICE_PIT false atCall = some
        { atCall with stack := { mem := m, esp := 0x83FFFF0 } } := by
  obtain ⟨c, _, hresume⟩ := pit_resumes (s := atCall)
    (fun _ => some (interruptWrap (pitIrq some (processSwitch fun x =>
      some { x with regs := fun _ => 7 }) 0x400080) 0x400040)) (fun _ => 0x400000)
    (fun _ => 0) { esp0 := 0x7FFFFC, ss0 := 0x18 } (Or.inr (by decide)) rfl
  have hsize : 2 + 0 + (9 + (frame atCall).length) + 2 < 2 ^ 30 := by decide
  exact ⟨_, hresume (enterFrame c) _ rfl rfl rfl rfl rfl rfl rfl
    (frameKept_pushes [] (by decide))
    (frameKept_pushes [0x400080, (enterFrame c).regs .ebp] hsize)⟩

end MongOS.Model.X86
