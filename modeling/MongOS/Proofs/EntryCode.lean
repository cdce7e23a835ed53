import MongOS.Proofs.InterruptGates

/-!
# System calls at the level of the registers

The way of a system call from the `int` of a process to a C function of the kernel
and back.  A C function has three of the caller's registers as arguments, and the
process goes on with its general registers but `eax`, its flags, `esp`, `cs` and
`ss`, whatever the function does with the general registers; a number outside the
table gives -1.

* `int80_user` — `int $0x80`, with any number in `eax`.
* `doCall_returns` — a function of the system call library.
-/

namespace MongOS.Model.X86

open MongOS.Verified Processor

/-! ## Pushing -/

section Pushing

variable (v : Word) (q : Reg) (s : Processor)

@[simp] theorem push_regs : (s.push v).regs = s.regs := rfl
@[simp] theorem push_eflags : (s.push v).eflags = s.eflags := rfl
@[simp] theorem push_cs : (s.push v).cs = s.cs := rfl
@[simp] theorem push_ss : (s.push v).ss = s.ss := rfl
@[simp] theorem pushl_regs : (s.pushl q).regs = s.regs := rfl
@[simp] theorem pushl_eflags : (s.pushl q).eflags = s.eflags := rfl
@[simp] theorem pushl_cs : (s.pushl q).cs = s.cs := rfl
@[simp] theorem pushl_ss : (s.pushl q).ss = s.ss := rfl

end Pushing

/-! ## Comparing -/

section Comparing

variable (a b : Word)

theorem sub_beq_zero : (a - b == 0) = (a == b) := by
  have hiff : a - b = 0 ↔ a = b := by
    constructor
    · intro h
      have hb : a - b + b = b := by
        rw [h]
        exact BitVec.zero_add b
      rwa [BitVec.sub_add_cancel] at hb
    · intro h
      rw [h]
      exact BitVec.sub_self b
  exact Bool.eq_iff_iff.2 (beq_iff_eq.trans (hiff.trans beq_iff_eq.symm))

/-- The sign of the difference, with the overflow. -/
theorem sign_ne_overflow :
    ((a - b).msb != (a.msb != b.msb && (a - b).msb != a.msb)) =
      decide (a.toInt < b.toInt) := by
  have ha := a.le_toInt
  have ha' := a.toInt_lt
  have hb := b.le_toInt
  have hb' := b.toInt_lt
  have hr := (a - b).le_toInt
  have hr' := (a - b).toInt_lt
  -- the difference is exact but for a multiple of 2 ^ 32
  have hwrap : (a - b).toInt =
      a.toInt - b.toInt - 2 ^ 32 * (a.toInt - b.toInt).bdiv (2 ^ 32) := by
    rw [BitVec.toInt_sub]
    exact Int.bmod_eq_self_sub_mul_bdiv ..
  simp only [BitVec.msb_eq_toInt]
  grind

theorem le_sub (eflags : Word) :
    Flags.le (Flags.sub a b eflags) = decide (a.toInt ≤ b.toInt) := by
  have hbit : ∀ x : Bool, (x.toNat % 2 ^ 1 == 1) = x := by decide
  have hbits : ∀ x y : Bool, (x.toNat % 2 ^ 1 != y.toNat % 2 ^ 1) = (x != y) := by
    decide
  have hle : (a == b || decide (a.toInt < b.toInt)) = decide (a.toInt ≤ b.toInt) := by
    have heq : a = b ↔ a.toInt = b.toInt := BitVec.toInt_inj.symm
    rw [Bool.eq_iff_iff, Bool.or_eq_true, beq_iff_eq, decide_eq_true_iff,
      decide_eq_true_iff, heq]
    omega
  unfold Flags.le Flags.sub Flags.status
  simp (disch := decide) only [BitField.get_set_of_eq,
    BitField.get_set_of_disjoint]
  refine (congrArg₂ or (hbit _) (hbits _ _)).trans ?_
  rw [sub_beq_zero, sign_ne_overflow, hle]

end Comparing

/-! ## The jump table -/

/-- The numbers of the system calls are those of the table. -/
theorem jumptable_sysNumber (f : Service) :
    1 ≤ (sysNumber f).toInt ∧ (sysNumber f).toInt ≤ 10 ∧
      syscallJumptable.getD (sysNumber f).toNat none = some f := by
  cases f <;> decide

/-- Between 1 and 10 there is no other number. -/
theorem exists_sysNumber {v : Word} (hlow : 1 ≤ v.toInt) (hhigh : v.toInt ≤ 10) :
    ∃ f, sysNumber f = v := by
  have htable : ∀ n ∈ List.range' 1 10, ∃ f ∈ syscallJumptable.filterMap id,
      sysNumber f = BitVec.ofNat 32 n := by decide
  have hlt := v.isLt
  rw [BitVec.toInt_eq_toNat_cond] at hlow hhigh
  have hmem : v.toNat ∈ List.range' 1 10 := by
    rw [List.mem_range'_1]
    split at hlow <;> omega
  obtain ⟨f, _, hf⟩ := htable v.toNat hmem
  exact ⟨f, hf.trans (BitVec.ofNat_toNat ..)⟩

section Dispatch

variable {service : Service → Routine} {next : Word} {s : Processor}

/-- The state in which the C function of a system call is called. -/
def compared (s : Processor) : Processor := (s.cmpl 0 .eax).cmpl 10 .eax

theorem dispatch_service (service : Service → Routine) (next : Word) {f : Service}
    (h : s.regs .eax = sysNumber f) :
    dispatch service next s = call (service f) next (compared s) := by
  obtain ⟨hlow, hhigh, hentry⟩ := jumptable_sysNumber f
  have hpos : Flags.le (s.cmpl 0 .eax).eflags = false := by
    refine (le_sub (s.regs .eax) 0 s.eflags).trans (decide_eq_false ?_)
    rw [h]
    exact Int.not_le.2 hlow
  have hle : Flags.le (compared s).eflags = true := by
    refine (le_sub (s.regs .eax) 10 _).trans (decide_eq_true ?_)
    rw [h]
    exact hhigh
  have hindex : syscallJumptable.getD ((compared s).regs .eax).toNat none = some f := by
    have heax : (compared s).regs .eax = sysNumber f := h
    rw [heax, hentry]
  unfold dispatch
  simp only [hpos]
  rw [if_neg Bool.false_ne_true]
  have hjump : (!Flags.le ((s.cmpl 0 .eax).cmpl 10 .eax).eflags) = false :=
    congrArg not hle
  rw [hjump, if_neg Bool.false_ne_true]
  exact congrArg (· >>= fun f => call (service f) next (compared s)) hindex

/-- A number outside the table. -/
theorem dispatch_invalid (service : Service → Routine) (next : Word)
    (h : ∀ f, s.regs .eax ≠ sysNumber f) :
    ∃ eflags, dispatch service next s =
      some ({ s with eflags := eflags }.movl (-1) .eax) := by
  have hzero := le_sub (s.regs .eax) 0 s.eflags
  have hten := le_sub (s.regs .eax) 10 (s.cmpl 0 .eax).eflags
  unfold dispatch
  by_cases hlow : (s.regs .eax).toInt ≤ 0
  · have hle : Flags.le (s.cmpl 0 .eax).eflags = true :=
      hzero.trans (decide_eq_true hlow)
    exact ⟨_, by rw [if_pos hle]; rfl⟩
  · have hhigh : ¬ (s.regs .eax).toInt ≤ 10 := by
      intro hhigh
      obtain ⟨f, hf⟩ := exists_sysNumber (by omega) hhigh
      exact h f hf.symm
    have hpos : ¬ Flags.le (s.cmpl 0 .eax).eflags = true := by
      intro hle
      exact hlow (decide_eq_true_iff.1 (hzero.symm.trans hle))
    have hgt : (!Flags.le ((s.cmpl 0 .eax).cmpl 10 .eax).eflags) = true :=
      congrArg not (hten.trans (decide_eq_false hhigh))
    exact ⟨_, by rw [if_neg hpos, if_pos hgt]; rfl⟩

end Dispatch

/-! ## Entering and leaving -/

section Frames

variable {address : Handler → Word} {idt : Idt} {tss : Tss} {g : Gate}
  {s r : Processor}

/-- What the processor pushes, the top first. -/
def frame (s : Processor) : List Word :=
  if s.cpl = 0 then [s.eip, s.cs, s.eflags]
  else [s.eip, s.cs, s.eflags, s.stack.esp, s.ss]

/-- The stack on which it pushes this: the one of the kernel if it comes from a
process. -/
def frameBase (tss : Tss) (s : Processor) : WordStack Word :=
  if s.cpl = 0 then s.stack else { s.stack with esp := tss.esp0 }

/-- The state in which a handler starts. -/
def entered (tss : Tss) (g : Gate) (s : Processor) : Processor :=
  { s with
    eip := g.offset
    cs := BitVec.ofNat 32 g.selector
    ss := if s.cpl = 0 then s.ss else tss.ss0
    eflags := entryFlags g.trap s.eflags
    stack := (frameBase tss s).pushes (frame s).reverse }

/-- A device, or the `int` of the system calls, gets through its gate. -/
theorem deliver_eq {n : Nat} {software : Bool} (hn : n < NUM_VEC)
    (hopen : software = false ∨ n = VECTOR_SYSTEM_CALL) :
    deliver (idtInit address idt) tss n software s =
      some (entered tss (plannedGate address idt n) s) := by
  have hlevel : s.cpl < 4 := Nat.mod_lt _ (by decide)
  have hadmit : ¬ (software = true ∧ (plannedGate address idt n).dpl < s.cpl) := by
    rintro ⟨hsoft, hdpl⟩
    rcases hopen with hdevice | hcall
    · rw [hsoft] at hdevice
      cases hdevice
    · have hthree : (plannedGate address idt n).dpl = 3 := if_pos hcall
      omega
  unfold deliver
  rw [decodeGate_idtInit hn, Option.bind_eq_bind, Option.bind_some, if_neg hadmit]
  unfold entered frameBase frame
  by_cases hkernel : s.cpl = 0
  · have hsame : ¬ (plannedGate address idt n).selector % 4 < s.cpl := by
      rw [hkernel]
      exact Nat.not_lt_zero _
    rw [if_neg hsame]
    simp only [hkernel, if_true]
    rfl
  · have hzero : KERNEL_CS % 4 = 0 := by decide
    have hswitch : (plannedGate address idt n).selector % 4 < s.cpl :=
      Nat.lt_of_le_of_lt (Nat.le_of_eq hzero) (Nat.pos_of_ne_zero hkernel)
    rw [if_pos hswitch]
    simp only [hkernel, if_false]
    rfl

/-- `iret` at the same level. -/
theorem iret_same (h : (r.stack.drop 1).top.toNat % 4 ≤ r.cpl) :
    r.iret = { r with
      eip := r.stack.top
      cs := (r.stack.drop 1).top
      eflags := (r.stack.drop 2).top
      stack := r.stack.drop 3 } := if_neg (Nat.not_lt.2 h)

/-- `iret` to an outer level. -/
theorem iret_outer (h : r.cpl < (r.stack.drop 1).top.toNat % 4) :
    r.iret = { r with
      eip := r.stack.top
      cs := (r.stack.drop 1).top
      eflags := (r.stack.drop 2).top
      ss := ((r.stack.drop 3).drop 1).top
      stack := { mem := r.stack.mem, esp := (r.stack.drop 3).top } } := if_pos h

/-- `iret` with the frame on top goes back to where the processor came from. -/
theorem iret_entered (hlevel : s.cpl = 0 ∨ s.cpl = 3) (hcpl : r.cpl = 0)
    (hss : r.ss = (entered tss g s).ss)
    (hesp : r.stack.esp = (entered tss g s).stack.esp)
    (hwords : r.stack.words (frame s).length = frame s) :
    r.iret = { s with
      regs := r.regs
      stack := { mem := r.stack.mem, esp := s.stack.esp } } := by
  have hlevel' : s.cs.toNat % 4 = s.cpl := rfl
  rcases hlevel with hkernel | huser
  · have hframe : frame s = [s.eip, s.cs, s.eflags] := if_pos hkernel
    have hbase : frameBase tss s = s.stack := if_pos hkernel
    have hback : slot r.stack.esp 3 = s.stack.esp := by
      have hpush : (entered tss g s).stack = s.stack.pushes [s.eflags, s.cs, s.eip] := by
        show (frameBase tss s).pushes (frame s).reverse = _
        rw [hbase, hframe]
        rfl
      rw [hesp, hpush]
      exact WordStack.slot_esp_pushes s.stack [s.eflags, s.cs, s.eip]
    have hsame : r.ss = s.ss := hss.trans (if_pos hkernel)
    rw [hframe] at hwords
    injection hwords with heip hwords
    injection hwords with hcs hwords
    injection hwords with hflags _
    have hinner : (r.stack.drop 1).top.toNat % 4 ≤ r.cpl := by
      rw [hcs, hlevel', hcpl, hkernel]
    rw [iret_same hinner, WordStack.drop_add r.stack 1 1, heip, hcs, hflags, hsame]
    unfold WordStack.drop
    rw [hback]
  · have hne : ¬ s.cpl = 0 := by omega
    have hframe : frame s = [s.eip, s.cs, s.eflags, s.stack.esp, s.ss] := if_neg hne
    rw [hframe] at hwords
    injection hwords with heip hwords
    injection hwords with hcs hwords
    injection hwords with hflags hwords
    injection hwords with husp hwords
    injection hwords with huss _
    have houter : r.cpl < (r.stack.drop 1).top.toNat % 4 := by
      rw [hcs, hlevel', hcpl, huser]
      decide
    rw [iret_outer houter, WordStack.drop_add r.stack 1 2,
      WordStack.drop_add (r.stack.drop 1) 1 1, WordStack.drop_add r.stack 1 1, heip,
      hcs, hflags, husp, huss]

end Frames

/-! ## C functions -/

section Calls

variable {args kept : Nat} {f : Routine} {next : Word} {s c r : Processor}

/-- A C function has come back to its caller: to the address on the stack, which
it has popped, with the words above its arguments as they were. -/
structure Returned (args kept : Nat) (c r : Processor) : Prop where
  eip : r.eip = c.stack.top
  esp : r.stack.esp = slot c.stack.esp 1
  cs : r.cs = c.cs
  ss : r.ss = c.ss
  words : (r.stack.drop args).words kept = (c.stack.drop (args + 1)).words kept

/-- The stack of the caller after a call. -/
structure Kept (args kept : Nat) (s r : Processor) : Prop where
  esp : r.stack.esp = s.stack.esp
  cs : r.cs = s.cs
  ss : r.ss = s.ss
  words : (r.stack.drop args).words kept = (s.stack.drop args).words kept

theorem call_returned (hsize : args + kept + 1 < 2 ^ 30)
    (hcall : f (s.push next) = some r) (hret : Returned args kept (s.push next) r) :
    call f next s = some r ∧ Kept args kept s r := by
  have heip : r.eip = next := hret.eip.trans (Function.update_self ..)
  have hesp : slot (s.push next).stack.esp 1 = s.stack.esp :=
    BitVec.sub_add_cancel s.stack.esp 4
  have hdrop : ((s.push next).stack.drop (args + 1)).words kept =
      (s.stack.drop args).words kept := by
    have hall := WordStack.words_push s.stack next (n := args + kept) hsize
    have hsum : args + kept + 1 = (args + 1) + kept := by omega
    rw [hsum, WordStack.words_append, WordStack.words_append s.stack] at hall
    rw [← List.cons_append] at hall
    exact (List.append_inj hall (by simp)).2
  refine ⟨?_, ⟨hret.esp.trans hesp, hret.cs, hret.ss, hret.words.trans hdrop⟩⟩
  unfold call
  rw [hcall, Option.bind_eq_bind, Option.bind_some, if_pos heip]

/-- A C function without a frame. -/
theorem returned_ret (args kept : Nat) (c : Processor) : Returned args kept c c.ret := by
  refine ⟨rfl, rfl, rfl, rfl, ?_⟩
  have hstack : c.ret.stack = c.stack.drop 1 := rfl
  rw [hstack, ← WordStack.drop_add, Nat.add_comm]

end Calls

/-! ## `syscall_w` -/

section SystemCall

variable {service : Service → Routine} {next : Word} {s e r : Processor}
  {rest : List Word}

/-- The registers as `syscall_w` has pushed them, with the parameters on top. -/
def savedRegs (e : Processor) : Processor :=
  e |> pushl .edx |> pushl .ecx |> pushl .ebx |> pushl .edi |> pushl .ebp
    |> pushl .esi |> pushl .edx |> pushl .ecx |> pushl .ebx

theorem cs_savedRegs (e : Processor) : (savedRegs e).cs = e.cs := by
  simp [savedRegs]

theorem ss_savedRegs (e : Processor) : (savedRegs e).ss = e.ss := by
  simp [savedRegs]

theorem regs_savedRegs (e : Processor) : (savedRegs e).regs = e.regs := by
  simp [savedRegs]

/-- The words that this puts on the stack, the top first. -/
def savedWords (e : Processor) : List Word :=
  [e.regs .ebx, e.regs .ecx, e.regs .edx, e.regs .esi, e.regs .ebp, e.regs .edi,
    e.regs .ebx, e.regs .ecx, e.regs .edx]

theorem words_savedRegs {n : Nat} (hn : 9 + n < 2 ^ 30) :
    (savedRegs e).stack.words (9 + n) = savedWords e ++ e.stack.words n :=
  WordStack.words_pushes e.stack (savedWords e).reverse hn

theorem words_savedRegs_drop {n : Nat} (hn : 9 + n < 2 ^ 30) :
    ((savedRegs e).stack.drop 3).words (6 + n) =
      (savedWords e).drop 3 ++ e.stack.words n := by
  have hall := words_savedRegs (e := e) hn
  have hsum : 9 + n = 3 + (6 + n) := by omega
  rw [hsum] at hall
  exact WordStack.words_drop (l := (savedWords e).take 3) hall

/-- The end of `syscall_w`. -/
def restoreRegs (r : Processor) : Processor :=
  r.addEsp 12 |> popl .esi |> popl .ebp |> popl .edi |> popl .ebx |> popl .ecx
    |> popl .edx

theorem syscallW_bind (service : Service → Routine) (next : Word) (e : Processor) :
    syscallW service next e =
      (dispatch service next (savedRegs e)).bind fun r =>
        some (restoreRegs r).iret := rfl

/-- The six registers are as they were pushed. -/
theorem restoreRegs_eq (h : (r.stack.drop 3).words 6 = (savedWords e).drop 3) :
    ∃ eflags, restoreRegs r = { r with
      regs := Function.update e.regs .eax (r.regs .eax)
      eflags := eflags
      stack := r.stack.drop 9 } := by
  injection h with hesi h
  injection h with hebp h
  injection h with hedi h
  injection h with hebx h
  injection h with hecx h
  injection h with hedx _
  have hstack : (((((((r.stack.drop 3).drop 1).drop 1).drop 1).drop 1).drop 1).drop 1) =
      r.stack.drop 9 := by
    simp only [← WordStack.drop_add]
  have hregs : (restoreRegs r).regs = Function.update e.regs .eax (r.regs .eax) := by
    funext q
    cases q with
    | eax => rfl
    | ecx => exact hecx
    | edx => exact hedx
    | ebx => exact hebx
    | ebp => exact hebp
    | esi => exact hesi
    | edi => exact hedi
  refine ⟨(restoreRegs r).eflags, Processor.mk.injEq .. |>.mpr ⟨hregs, rfl, rfl, rfl,
    rfl, hstack⟩⟩

/-- `syscall_w` up to its `iret`, when the dispatch has left the stack as it was
above the parameters. -/
theorem syscallW_eq {n : Nat} (hn : 9 + n < 2 ^ 30)
    (hdispatch : dispatch service next (savedRegs e) = some r)
    (hkept : Kept 3 (6 + n) (savedRegs e) r) :
    ∃ t : Processor, syscallW service next e = some t.iret ∧
      t.regs = Function.update e.regs .eax (r.regs .eax) ∧ t.cs = e.cs ∧
      t.ss = e.ss ∧ t.stack = { mem := r.stack.mem, esp := e.stack.esp } ∧
      t.stack.words n = e.stack.words n := by
  have hwords := hkept.words.trans (words_savedRegs_drop hn)
  have hsplit := hwords
  rw [WordStack.words_append] at hsplit
  obtain ⟨hsix, hrest⟩ := List.append_inj hsplit (WordStack.length_words _ 6)
  obtain ⟨eflags, hrestore⟩ := restoreRegs_eq hsix
  have hesp : slot r.stack.esp 9 = e.stack.esp := by
    have hpushes : (savedRegs e).stack = e.stack.pushes (savedWords e).reverse := rfl
    have hlength : (savedWords e).reverse.length = 9 := rfl
    rw [hkept.esp, hpushes, ← hlength, WordStack.slot_esp_pushes]
  have hstack : r.stack.drop 9 = { mem := r.stack.mem, esp := e.stack.esp } := by
    unfold WordStack.drop
    rw [hesp]
  rw [← WordStack.drop_add] at hrest
  refine ⟨restoreRegs r, ?_, ?_⟩
  · rw [syscallW_bind, hdispatch, Option.bind_some]
  · rw [hrestore]
    have hcs := hkept.cs.trans (cs_savedRegs e)
    have hss := hkept.ss.trans (ss_savedRegs e)
    exact ⟨rfl, hcs, hss, hstack, hrest⟩

/-- The state in which a C function is called. -/
def callee (e : Processor) (next : Word) : Processor :=
  (compared (savedRegs e)).push next

theorem callee_stack (e : Processor) (next : Word) :
    (callee e next).stack = e.stack.pushes ((savedWords e).reverse ++ [next]) :=
  WordStack.pushes_append e.stack (savedWords e).reverse [next]

theorem callee_regs (e : Processor) (next : Word) : (callee e next).regs = e.regs := by
  simp [callee, compared, cmpl, regs_savedRegs]

theorem callee_cs (e : Processor) (next : Word) : (callee e next).cs = e.cs := by
  simp [callee, compared, cmpl, cs_savedRegs]

theorem callee_ss (e : Processor) (next : Word) : (callee e next).ss = e.ss := by
  simp [callee, compared, cmpl, ss_savedRegs]

end SystemCall

section FromProcess

variable {service : Service → Routine} {next : Word} {s : Processor}
  {code : Word → Option Routine} {address : Handler → Word} {idt : Idt} {tss : Tss}

/-- The state in which `syscall_w` starts. -/
def callEntry (address : Handler → Word) (idt : Idt) (tss : Tss) (s : Processor) :
    Processor := entered tss (plannedGate address idt VECTOR_SYSTEM_CALL) s

/-- The C function for a process's call. -/
abbrev userCallee (address : Handler → Word) (idt : Idt) (tss : Tss) (s : Processor)
    (next : Word) : Processor := callee (callEntry address idt tss s) next

theorem frame_user (huser : s.cpl = 3) :
    frame s = [s.eip, s.cs, s.eflags, s.stack.esp, s.ss] := if_neg (by omega)

theorem callEntry_stack (huser : s.cpl = 3) :
    (callEntry address idt tss s).stack =
      ({ s.stack with esp := tss.esp0 } : WordStack Word).pushes (frame s).reverse := by
  have hbase : frameBase tss s = { s.stack with esp := tss.esp0 } :=
    if_neg (by omega)
  show (frameBase tss s).pushes (frame s).reverse = _
  rw [hbase]

theorem callEntry_words (huser : s.cpl = 3) :
    (callEntry address idt tss s).stack.words 5 = frame s := by
  have hlength : (frame s).reverse.length = 5 := by
    rw [frame_user huser]
    rfl
  have hwords := WordStack.words_pushes { s.stack with esp := tss.esp0 }
    (frame s).reverse (n := 0) (by omega)
  rw [List.reverse_reverse, hlength, ← callEntry_stack huser] at hwords
  exact hwords.trans (List.append_nil _)

theorem userCallee_stack (huser : s.cpl = 3) :
    (userCallee address idt tss s next).stack =
      ({ s.stack with esp := tss.esp0 } : WordStack Word).pushes
        ((frame s).reverse ++ ((savedWords s).reverse ++ [next])) := by
  have hsaved : savedWords (callEntry address idt tss s) = savedWords s := rfl
  rw [userCallee, callee_stack, callEntry_stack huser, hsaved, WordStack.pushes_append]

/-- The return address and the parameters are on top. -/
theorem userCallee_words (huser : s.cpl = 3) :
    (userCallee address idt tss s next).stack.words 4 =
      [next, s.regs .ebx, s.regs .ecx, s.regs .edx] := by
  rw [userCallee_stack huser, frame_user huser]
  have hwords := WordStack.words_pushes { s.stack with esp := tss.esp0 }
    ([s.eip, s.cs, s.eflags, s.stack.esp, s.ss].reverse ++
      ((savedWords s).reverse ++ [next])) (n := 0) (by simp [savedWords])
  exact WordStack.words_take (l := [next, s.regs .ebx, s.regs .ecx, s.regs .edx])
    (k := (savedWords s).drop 3 ++ [s.eip, s.cs, s.eflags, s.stack.esp, s.ss])
    (n := 11) hwords

/-- The call begins 15 words below the top of the kernel stack. -/
theorem userCallee_esp (huser : s.cpl = 3) :
    slot (userCallee address idt tss s next).stack.esp 15 = tss.esp0 := by
  rw [userCallee_stack huser, frame_user huser]
  exact WordStack.slot_esp_pushes { s.stack with esp := tss.esp0 }
    ([s.eip, s.cs, s.eflags, s.stack.esp, s.ss].reverse ++
      ((savedWords s).reverse ++ [next]))

/-- The rest of the memory is as the process had it. -/
theorem userCallee_mem (huser : s.cpl = 3) {x : Word}
    (hx : ∀ j, j < 15 → x ≠ slot (userCallee address idt tss s next).stack.esp j) :
    (userCallee address idt tss s next).stack.mem x = s.stack.mem x := by
  rw [userCallee_stack huser, frame_user huser] at hx ⊢
  exact WordStack.mem_pushes { s.stack with esp := tss.esp0 } _ hx

/-- From `syscall_w` back to the process. -/
theorem interrupt_returns (huser : s.cpl = 3)
    (hcode : code (address .syscallW) = some (syscallW service next)) {r : Processor}
    (hdispatch : dispatch service next (savedRegs (callEntry address idt tss s)) =
      some r)
    (hkept : Kept 3 11 (savedRegs (callEntry address idt tss s)) r) :
    interrupt code (idtInit address idt) tss VECTOR_SYSTEM_CALL true s = some
      { s with
        regs := Function.update s.regs .eax (r.regs .eax)
        stack := { mem := r.stack.mem, esp := s.stack.esp } } := by
  obtain ⟨t, ht, hregs, hcs, hss, hstack, hwords⟩ :=
    syscallW_eq (n := 5) (by decide) hdispatch hkept
  have hkernel : (BitVec.ofNat 32 KERNEL_CS).toNat % 4 = 0 := by decide
  have hcpl : t.cpl = 0 := by
    unfold cpl
    rw [hcs]
    exact hkernel
  have hesp : t.stack.esp = (callEntry address idt tss s).stack.esp := by
    rw [hstack]
  have hlength : (frame s).length = 5 := by
    rw [frame_user huser]
    rfl
  have htop : t.stack.words (frame s).length = frame s := by
    rw [hlength]
    exact hwords.trans (callEntry_words huser)
  have hback := iret_entered (Or.inr huser) hcpl hss hesp htop
  unfold interrupt
  rw [deliver_eq (by decide) (Or.inr rfl), Option.bind_eq_bind, Option.bind_some]
  have heip : (entered tss (plannedGate address idt VECTOR_SYSTEM_CALL) s).eip =
      address .syscallW := rfl
  rw [heip, hcode, Option.bind_eq_bind, Option.bind_some]
  refine ht.trans ?_
  rw [hback, hregs, hstack]
  rfl

/-- A system call of a process, when its C function returns. -/
theorem int80_service (huser : s.cpl = 3)
    (hcode : code (address .syscallW) = some (syscallW service next)) {f : Service}
    (hf : s.regs .eax = sysNumber f) {r : Processor}
    (hcall : service f (userCallee address idt tss s next) = some r)
    (hret : Returned 3 11 (userCallee address idt tss s next) r) :
    interrupt code (idtInit address idt) tss VECTOR_SYSTEM_CALL true s = some
      { s with
        regs := Function.update s.regs .eax (r.regs .eax)
        stack := { mem := r.stack.mem, esp := s.stack.esp } } := by
  have heax : (savedRegs (callEntry address idt tss s)).regs .eax = sysNumber f := by
    rw [regs_savedRegs]
    exact hf
  obtain ⟨hdone, hkept⟩ := call_returned (by decide) hcall hret
  have hdispatch := dispatch_service service next heax
  exact interrupt_returns huser hcode (hdispatch.trans hdone)
    ⟨hkept.esp, hkept.cs, hkept.ss, hkept.words⟩

end FromProcess

/-- `int $0x80` of a process.  The C function of the number in `eax` is called on
the kernel stack with `ebx`, `ecx` and `edx` as its arguments; when it returns, the
process goes on with its result in `eax` and the rest of the model as it was.  With a
number that no system call has, no function is called and the result is -1. -/
theorem int80_user {service : Service → Routine} {next : Word} {s : Processor}
    (code : Word → Option Routine) (address : Handler → Word) (idt : Idt) (tss : Tss)
    (huser : s.cpl = 3)
    (hcode : code (address .syscallW) = some (syscallW service next)) :
    ∃ c : Processor, c.regs = s.regs ∧ c.cs = BitVec.ofNat 32 KERNEL_CS ∧
      c.ss = tss.ss0 ∧
      c.stack.words 4 = [next, s.regs .ebx, s.regs .ecx, s.regs .edx] ∧
      slot c.stack.esp 15 = tss.esp0 ∧
      (∀ x, (∀ j, j < 15 → x ≠ slot c.stack.esp j) →
        c.stack.mem x = s.stack.mem x) ∧
      (∀ f r, s.regs .eax = sysNumber f → service f c = some r → Returned 3 11 c r →
        interrupt code (idtInit address idt) tss VECTOR_SYSTEM_CALL true s = some
          { s with
            regs := Function.update s.regs .eax (r.regs .eax)
            stack := { mem := r.stack.mem, esp := s.stack.esp } }) ∧
      ((∀ f, s.regs .eax ≠ sysNumber f) →
        ∃ m, (∀ x, (∀ j, j < 15 → x ≠ slot c.stack.esp j) → m x = s.stack.mem x) ∧
          interrupt code (idtInit address idt) tss VECTOR_SYSTEM_CALL true s = some
            { s with
              regs := Function.update s.regs .eax (-1)
              stack := { mem := m, esp := s.stack.esp } }) := by
  have hcs : (callEntry address idt tss s).cs = BitVec.ofNat 32 KERNEL_CS := rfl
  have hss : (callEntry address idt tss s).ss = tss.ss0 := if_neg (by omega)
  have heax : (savedRegs (callEntry address idt tss s)).regs = s.regs :=
    regs_savedRegs (callEntry address idt tss s)
  refine ⟨userCallee address idt tss s next, callee_regs _ _, (callee_cs _ _).trans hcs,
    (callee_ss _ _).trans hss, userCallee_words huser, userCallee_esp huser,
    fun x => userCallee_mem huser, ?_, ?_⟩
  · intro f r hf hcall hret
    exact int80_service huser hcode hf hcall hret
  · intro hf
    obtain ⟨eflags, hdispatch⟩ := dispatch_invalid service next
      (s := savedRegs (callEntry address idt tss s)) (by rwa [heax])
    refine ⟨(savedRegs (callEntry address idt tss s)).stack.mem, ?_, ?_⟩
    · intro x hx
      have hpush : (userCallee address idt tss s next).stack =
          (savedRegs (callEntry address idt tss s)).stack.pushes [next] := rfl
      have hmem := WordStack.mem_pushes (savedRegs (callEntry address idt tss s)).stack
        [next] (x := x) (fun j hj => hx j (by simp at hj; omega))
      rw [← hmem, ← hpush]
      exact userCallee_mem huser hx
    · exact interrupt_returns huser hcode hdispatch ⟨rfl, rfl, rfl, rfl⟩

/-- A process that calls `set_handler`, the service of number 9. -/
def setHandlerCall : Processor where
  regs
    | .eax => 9
    | _ => 0
  eip := 0x8048100
  eflags := 0x202
  cs := BitVec.ofNat 32 USER_CS
  ss := BitVec.ofNat 32 USER_DS
  stack := { mem := fun _ => 0, esp := 0x83FFFF0 }

theorem int80_user_setHandler :
    ∃ m, interrupt (fun _ => some (syscallW (fun _ => sysFail) 0x400040))
      (idtInit (fun _ => 0x400000) fun _ => 0) { esp0 := 0x7FFFFC, ss0 := 0x18 }
      VECTOR_SYSTEM_CALL true setHandlerCall = some
        { setHandlerCall with
          regs := Function.update setHandlerCall.regs .eax (-1)
          stack := { mem := m, esp := 0x83FFFF0 } } := by
  obtain ⟨c, _, _, _, _, _, _, hservice, _⟩ :=
    int80_user (s := setHandlerCall)
      (fun _ => some (syscallW (fun _ => sysFail) 0x400040)) (fun _ => 0x400000)
      (fun _ => 0) { esp0 := 0x7FFFFC, ss0 := 0x18 } (by decide) rfl
  have hret := returned_ret 3 11 (c.movl (-1) .eax)
  exact ⟨_, hservice .setHandler _ rfl rfl
    ⟨hret.eip, hret.esp, hret.cs, hret.ss, hret.words⟩⟩

end MongOS.Model.X86
