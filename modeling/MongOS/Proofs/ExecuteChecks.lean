import MongOS.Proofs.ProcTable
import MongOS.Proofs.SampleImage

/-!
# What `execute` checks, loads and reports

`execute` looks at the first 40 bytes of a file before it takes a pid, and
reads the file a second time once the process is installed.

* `handleExecuableCheck_eq` — the check accepts the regular files with an ELF
  header and returns the entry point in it.
* `failed_execute_leaves_no_trace` — an `execute` that returns has changed
  nothing.
* `program_loaded_iff` — the second read delivers `PROCCESS_STACK_SIZE` bytes,
  so that a longer program is loaded only if its rest was there before.
* `reports_failure_iff` — which of the failures come back as `-1`.
-/

namespace MongOS.Proofs.ExecuteChecks

open MongOS.Model
open MongOS.Verified
open MongOS.Proofs.ReadData
open MongOS.Proofs.ProcTable

variable {σ : Type}

/-! ## The executable check -/

/-- Bytes 24 to 27 of a file, the least significant first. -/
def entryPoint (fs : FileSys) (inode : Inode) : Nat :=
  (fileByte fs inode 24).toNat + (fileByte fs inode 25).toNat * 2 ^ 8 +
    (fileByte fs inode 26).toNat * 2 ^ 16 + (fileByte fs inode 27).toNat * 2 ^ 24

/-- A regular file that is no shorter than the header and begins with the ELF
magic number. -/
structure HasHeader (fs : FileSys) (d : Dentry) : Prop where
  regular : d.type = 2
  long : MAGIC_LEN ≤ (fs.inodeSt d.indexNode).size
  magic : fileByte fs (fs.inodeSt d.indexNode) 0 = 0x7f ∧
    fileByte fs (fs.inodeSt d.indexNode) 1 = 0x45 ∧
    fileByte fs (fs.inodeSt d.indexNode) 2 = 0x4c ∧
    fileByte fs (fs.inodeSt d.indexNode) 3 = 0x46

/-- The read of the header fills the buffer, or it is too short. -/
theorem readHeader (fs : FileSys) (inode : Inode) (hinit : fs.bootB ≠ none) :
    (inode.size < MAGIC_LEN ∧
      (readData fs inode 0 (fun _ => 0) MAGIC_LEN).1 ≠ MAGIC_LEN) ∨
    (MAGIC_LEN ≤ inode.size ∧
      (readData fs inode 0 (fun _ => 0) MAGIC_LEN).1 = MAGIC_LEN ∧
      ∀ j < MAGIC_LEN, (readData fs inode 0 (fun _ => 0) MAGIC_LEN).2 j =
        fileByte fs inode j) := by
  have hlen : MAGIC_LEN = 40 := rfl
  rcases Nat.eq_zero_or_pos inode.size with hempty | hpos
  · left
    rw [readData_eof fs inode 0 _ _ hinit (by omega)]
    refine ⟨by omega, ?_⟩
    exact (by decide : (0 : Int) ≠ MAGIC_LEN)
  · rw [readData_spec fs inode 0 _ _ hinit hpos (by decide)]
    dsimp only
    rw [toInt32_of_lt (by omega)]
    rcases Nat.lt_or_ge inode.size MAGIC_LEN with hshort | hlong
    · exact .inl ⟨hshort, by omega⟩
    · right
      refine ⟨hlong, by omega, fun j hj => ?_⟩
      rw [if_pos (by omega), Nat.zero_add]

/-- The check returns the entry point of a file with a header, and fails on
every other file. -/
theorem handleExecuableCheck_eq (fs : FileSys) (d : Dentry)
    (hinit : fs.bootB ≠ none) :
    (HasHeader fs d →
      handleExecuableCheck fs d = entryPoint fs (fs.inodeSt d.indexNode)) ∧
    (¬ HasHeader fs d → handleExecuableCheck fs d = FAIL_U32) := by
  unfold handleExecuableCheck
  by_cases htype : d.type = 2
  case neg =>
    rw [if_pos htype]
    exact ⟨fun h => absurd h.regular htype, fun _ => rfl⟩
  rw [if_neg (not_not.2 htype)]
  dsimp only
  have hlen : MAGIC_LEN = 40 := rfl
  rcases readHeader fs (fs.inodeSt d.indexNode) hinit with
    ⟨hshort, hread⟩ | ⟨hlong, hread, hbytes⟩
  · rw [if_pos hread]
    exact ⟨fun h => absurd h.long (Nat.not_le.2 hshort), fun _ => rfl⟩
  rw [if_neg (not_not.2 hread), hbytes 0 (by omega), hbytes 1 (by omega),
    hbytes 2 (by omega), hbytes 3 (by omega), hbytes 24 (by omega),
    hbytes 25 (by omega), hbytes 26 (by omega), hbytes 27 (by omega)]
  constructor
  · rintro ⟨-, -, h0, h1, h2, h3⟩
    rw [if_neg (by simp [h0, h1, h2, h3])]
    rfl
  · intro hno
    rw [if_pos]
    by_contra hmagic
    simp only [not_or, not_not] at hmagic
    exact hno { regular := htype, long := hlong, magic := hmagic }

/-- The command can be executed: its first word names a file with a header,
whose entry point is not the failure value. -/
theorem runnable_iff {fs : FileSys} {stk command : CStr} :
    Runnable fs stk command ↔
      ∃ d, readDentryByName fs (fnamePtr stk (handleCommand command.bytes).1) =
          some d ∧
        HasHeader fs d ∧ entryPoint fs (fs.inodeSt d.indexNode) ≠ FAIL_U32 := by
  unfold Runnable
  constructor
  · rintro ⟨d, hfound, hcheck⟩
    obtain ⟨hpass, hfail⟩ := handleExecuableCheck_eq fs d (bootB_of_found hfound)
    by_cases hheader : HasHeader fs d
    · exact ⟨d, hfound, hheader, hpass hheader ▸ hcheck⟩
    · exact absurd (hfail hheader) hcheck
  · rintro ⟨d, hfound, hheader, hentry⟩
    obtain ⟨hpass, -⟩ := handleExecuableCheck_eq fs d (bootB_of_found hfound)
    exact ⟨d, hfound, (hpass hheader).symm ▸ hentry⟩

/-! ## An `execute` that returns -/

/-- An `execute` that comes back to its caller has changed nothing, and the
second read of the program does not fail, whatever was installed before it. -/
theorem failed_execute_leaves_no_trace {fs : FileSys} (hfs : Accepted fs)
    (stk : CStr) (k : Kernel σ) (command : Option CStr) (esp ebp : σ) :
    (∀ k' value, execute fs stk k command esp ebp = (k', .ret value) →
      k' = k) ∧
    ∀ (new : Kernel σ) inode, (loadProgram fs new inode).2 ≠ -1 := by
  constructor
  · intro k' value hreturn
    rcases execute_cases fs stk k command esp ebp with ⟨v, hret⟩ | hspawn
    · rw [hret] at hreturn
      cases hreturn
      rfl
    · obtain ⟨i, entAdd, -, henter, -⟩ := hspawn
      rw [hreturn] at henter
      cases henter
  · exact fun new inode => loadProgram_ne_fail fs new inode hfs.mounted

theorem shellImage_accepted : Accepted SampleImage.shellImage :=
  accepted_iff.2 ⟨_, rfl, by decide⟩

/-- A command that names no file. -/
def missingCmd : CStr := { before := 0, bytes := [120] }

theorem missing_leaves_no_trace :
    (execute SampleImage.shellImage ⟨0, []⟩ SampleImage.shellRunEnd
        (some missingCmd) 50 51).1 = SampleImage.shellRunEnd ∧
      ∀ (new : Kernel Nat) inode,
        (loadProgram SampleImage.shellImage new inode).2 ≠ -1 := by
  have hmissing : readDentryByName SampleImage.shellImage
      (fnamePtr ⟨0, []⟩ (handleCommand missingCmd.bytes).1) = none := rfl
  have hvalue : (execute SampleImage.shellImage ⟨0, []⟩
      SampleImage.shellRunEnd (some missingCmd) 50 51).2 = .ret (-1) := by
    simp only [execute, hmissing]
  obtain ⟨hkeep, hload⟩ := failed_execute_leaves_no_trace shellImage_accepted
    ⟨0, []⟩ SampleImage.shellRunEnd (some missingCmd) 50 51
  exact ⟨hkeep _ (-1) (Prod.ext rfl hvalue), hload⟩

/-! ## An `execute` that enters user mode -/

/-- Installing a process leaves the user pages alone and maps the page of the
new process. -/
theorem installProcess_page (k : Kernel σ) (pid : Int) (fname farg : Nat → Byte)
    (esp ebp : σ) :
    (installProcess k pid fname farg esp ebp).userMem = k.userMem ∧
      (installProcess k pid fname farg esp ebp).pde = PDE_ST + pid - 1 := by
  unfold installProcess
  dsimp only
  split <;> exact ⟨rfl, rfl⟩

/-- Data of the control blocks that `execute` does not store stack pointers in:
the block of the new process is initialised, all others are kept. -/
theorem installProcess_proj {α : Type} (proj : Pcb σ → α)
    (hsaved : ∀ pcb esp ebp,
      proj { pcb with savedEsp := esp, savedEbp := ebp } = proj pcb)
    (hesp0 : ∀ pcb x, proj { pcb with esp0 := x } = proj pcb) (k : Kernel σ)
    (pid : Int) (fname farg : Nat → Byte) (esp ebp : σ) (p : Int) :
    proj ((installProcess k pid fname farg esp ebp).pcb p) =
      if p = pid then proj (initPcb (k.pcb pid) pid k.running fname farg)
      else proj (k.pcb p) := by
  have hinit : proj ((k.modifyPcb pid fun q =>
      initPcb q pid k.running fname farg).pcb p) =
      if p = pid then proj (initPcb (k.pcb pid) pid k.running fname farg)
      else proj (k.pcb p) := by
    unfold Kernel.modifyPcb
    dsimp only
    by_cases hp : p = pid
    · subst hp
      rw [Function.update_self, if_pos rfl]
    · rw [Function.update_of_ne hp, if_neg hp]
  rw [← hinit]
  unfold installProcess
  dsimp only
  rw [proj_modifyPcb proj _ _ _ _ fun pcb => hesp0 pcb _]
  split
  · rw [proj_modifyPcb proj _ _ _ _ fun pcb => hsaved pcb esp ebp]
    rfl
  · rfl

/-- `get_pid` changes the allocation only. -/
theorem getPid_keeps (k : Kernel σ) :
    (getPid k).1.userMem = k.userMem ∧ (getPid k).1.pcb = k.pcb ∧
      (getPid k).1.con = k.con := by
  unfold getPid
  split <;> exact ⟨rfl, rfl, rfl⟩

/-- The kernel with the new process, before its program is read. -/
def installed (k : Kernel σ) (command : CStr) (i : Nat) (esp ebp : σ) :
    Kernel σ :=
  installProcess (getPid k).1 ((i : Int) + 1) (handleCommand command.bytes).1
    (handleCommand command.bytes).2 esp ebp

/-- An `execute` that enters user mode has installed a process on the lowest
free pid and read the file with the name, which has a header. -/
theorem execute_enters {fs : FileSys} {stk command : CStr} {k : Kernel σ}
    {esp ebp : σ} {d : Dentry} {pid : Int} {entAdd : Nat}
    (hfound : readDentryByName fs
      (fnamePtr stk (handleCommand command.bytes).1) = some d)
    (henter : (execute fs stk k (some command) esp ebp).2 = .enter pid entAdd) :
    ∃ i, (table k).lowestFree = some i ∧ pid = (i : Int) + 1 ∧
      HasHeader fs d ∧ entAdd = entryPoint fs (fs.inodeSt d.indexNode) ∧
      (execute fs stk k (some command) esp ebp).1 =
        (loadProgram fs (installed k command i esp ebp)
          (fs.inodeSt d.indexNode)).1 := by
  have hinit := bootB_of_found hfound
  obtain ⟨hpass, hfail⟩ := handleExecuableCheck_eq fs d hinit
  by_cases hcheck : handleExecuableCheck fs d = FAIL_U32
  · simp only [execute, hfound, if_pos hcheck] at henter
    cases henter
  cases hfree : (table k).lowestFree with
  | none =>
      simp only [execute, hfound, if_neg hcheck, getPid_none hfree, if_true]
        at henter
      cases henter
  | some i =>
      obtain ⟨hpid, -, -⟩ := getPid_some hfree
      have hpos : (i : Int) + 1 ≠ -1 := by omega
      have hload := fun k' : Kernel σ =>
        loadProgram_ne_fail fs k' (fs.inodeSt d.indexNode) hinit
      have hheader : HasHeader fs d := by
        by_contra hno
        exact hcheck (hfail hno)
      simp only [execute, hfound, if_neg hcheck, hpid, if_neg hpos,
        if_neg (hload _)] at henter ⊢
      cases henter
      exact ⟨i, rfl, rfl, hheader, hpass hheader, rfl⟩

/-- Only a name with an entry is executed. -/
theorem found_of_enter {fs : FileSys} {stk : CStr} {k : Kernel σ}
    {command : Option CStr} {esp ebp : σ} {pid : Int} {entAdd : Nat}
    (henter : (execute fs stk k command esp ebp).2 = .enter pid entAdd) :
    ∃ c d, command = some c ∧
      readDentryByName fs (fnamePtr stk (handleCommand c.bytes).1) = some d := by
  cases command with
  | none => cases henter
  | some c =>
      cases hfound : readDentryByName fs
          (fnamePtr stk (handleCommand c.bytes).1) with
      | none =>
          simp only [execute, hfound] at henter
          cases henter
      | some d => exact ⟨c, d, rfl, hfound⟩

/-- The bytes of the user page after the program has been read. -/
theorem loadProgram_byte (fs : FileSys) (k : Kernel σ) (inode : Inode)
    (hinit : fs.bootB ≠ none) (j : Nat) :
    (loadProgram fs k inode).1.userByte (USER_BASE + PROGRAM_ADDR_OFF + j) =
      if j < min PROCCESS_STACK_SIZE.toNat inode.size then fileByte fs inode j
      else k.userMem k.pde (PROGRAM_ADDR_OFF + j) := by
  have hoff : USER_BASE + PROGRAM_ADDR_OFF + j - USER_BASE =
      PROGRAM_ADDR_OFF + j := by omega
  have hbehind : ¬ PROGRAM_ADDR_OFF + j < PROGRAM_ADDR_OFF := by omega
  have hback : PROGRAM_ADDR_OFF + j - PROGRAM_ADDR_OFF = j := by omega
  simp only [Kernel.userByte, loadProgram, Function.update_self, hoff,
    if_neg hbehind, hback]
  rcases Nat.eq_zero_or_pos inode.size with hempty | hpos
  · rw [readData_eof fs inode 0 _ _ hinit (by omega), if_neg (by omega)]
  · rw [readData_spec fs inode 0 _ _ hinit hpos (by decide)]
    simp only [Nat.sub_zero, Nat.zero_add]

/-- The program of a file is in place at `0x08048000`, and `entAdd` is the
entry point in its header. -/
structure ProgramLoaded (fs : FileSys) (inode : Inode) (k : Kernel σ)
    (entAdd : Nat) : Prop where
  bytes : ∀ j < inode.size,
    k.userByte (USER_BASE + PROGRAM_ADDR_OFF + j) = fileByte fs inode j
  entry : entAdd = entryPoint fs inode

/-- What the file has behind its first `PROCCESS_STACK_SIZE` bytes is already
on the user page of the next process. -/
def RestInPlace (fs : FileSys) (inode : Inode) (k : Kernel σ) : Prop :=
  ∀ i, (table k).lowestFree = some i → ∀ j,
    PROCCESS_STACK_SIZE.toNat ≤ j → j < inode.size →
      k.userMem (PDE_ST + i) (PROGRAM_ADDR_OFF + j) = fileByte fs inode j

theorem restInPlace_of_small {fs : FileSys} {inode : Inode} (k : Kernel σ)
    (hsmall : inode.size ≤ PROCCESS_STACK_SIZE.toNat) :
    RestInPlace fs inode k := fun _ _ _ _ _ => by omega

/-- When `execute` enters user mode, the whole program is loaded if and only if
it has no more than `PROCCESS_STACK_SIZE` bytes or the rest of it was on the
page before. -/
theorem program_loaded_iff {fs : FileSys} {stk command : CStr} {k : Kernel σ}
    {esp ebp : σ} {d : Dentry} {pid : Int} {entAdd : Nat}
    (hfound : readDentryByName fs
      (fnamePtr stk (handleCommand command.bytes).1) = some d)
    (henter : (execute fs stk k (some command) esp ebp).2 = .enter pid entAdd) :
    ProgramLoaded fs (fs.inodeSt d.indexNode)
        (finishExecute (execute fs stk k (some command) esp ebp)) entAdd ↔
      RestInPlace fs (fs.inodeSt d.indexNode) k := by
  have hinit := bootB_of_found hfound
  obtain ⟨i, hfree, -, -, hentry, hload⟩ := execute_enters hfound henter
  obtain ⟨huser, hpde⟩ := installProcess_page (getPid k).1 ((i : Int) + 1)
    (handleCommand command.bytes).1 (handleCommand command.bytes).2 esp ebp
  have hpage : PDE_ST + ((i : Int) + 1) - 1 = PDE_ST + i := by omega
  generalize hresult : execute fs stk k (some command) esp ebp = r
    at henter hload ⊢
  obtain ⟨k', res⟩ := r
  subst henter
  subst hload
  have hbyte : ∀ j,
      (finishExecute ((loadProgram fs (installed k command i esp ebp)
        (fs.inodeSt d.indexNode)).1, .enter pid entAdd)).userByte
        (USER_BASE + PROGRAM_ADDR_OFF + j) =
      if j < min PROCCESS_STACK_SIZE.toNat (fs.inodeSt d.indexNode).size then
        fileByte fs (fs.inodeSt d.indexNode) j
      else k.userMem (PDE_ST + i) (PROGRAM_ADDR_OFF + j) := by
    intro j
    rw [← (getPid_keeps k).1, ← huser, ← hpage, ← hpde]
    exact loadProgram_byte fs (installed k command i esp ebp)
      (fs.inodeSt d.indexNode) hinit j
  constructor
  · intro hloaded i' hi' j hbehind hj
    rw [hfree] at hi'
    cases hi'
    have hsame := hloaded.bytes j hj
    rwa [hbyte, if_neg (by omega)] at hsame
  · intro hrest
    refine { bytes := fun j hj => ?_, entry := hentry }
    rw [hbyte]
    by_cases hread : j < min PROCCESS_STACK_SIZE.toNat
        (fs.inodeSt d.indexNode).size
    · rw [if_pos hread]
    · rw [if_neg hread]
      exact hrest i hfree j (by omega) hj

theorem found_shell (fs : FileSys) (hboot : fs.bootB = SampleImage.shellImage.bootB) :
    readDentryByName fs (fnamePtr ⟨0, []⟩ (handleCommand shellCmd.bytes).1) =
      some SampleImage.shellEntry := by
  unfold readDentryByName
  rw [hboot]
  rfl

/-- The program of the sample image fits one read. -/
theorem shell_loaded :
    ProgramLoaded SampleImage.shellImage
      (SampleImage.shellImage.inodeSt SampleImage.shellEntry.indexNode)
      (finishExecute (execute SampleImage.shellImage ⟨0, []⟩
        (SampleImage.idleKernel 0) (some shellCmd) 10 11)) 0x08048000 := by
  have henter : (execute SampleImage.shellImage ⟨0, []⟩
      (SampleImage.idleKernel 0) (some shellCmd) 10 11).2 =
      .enter 1 0x08048000 := rfl
  exact (program_loaded_iff (found_shell _ rfl) henter).2
    (restInPlace_of_small _ (by decide))

/-- A program of 8193 bytes whose last byte is 1. -/
def longImage : FileSys :=
  { SampleImage.shellImage with
    inodeSt := fun _ => { size := 8193, dataBlocks := fun i => i }
    datab := fun i =>
      if i = 8192 then 1 else SampleImage.programBytes.getD i 0 }

/-- Its last byte is not loaded. -/
theorem long_program_truncated :
    (execute longImage ⟨0, []⟩ (SampleImage.idleKernel 0) (some shellCmd)
        10 11).2 = .enter 1 0x08048000 ∧
      ¬ ProgramLoaded longImage
        (longImage.inodeSt SampleImage.shellEntry.indexNode)
        (finishExecute (execute longImage ⟨0, []⟩ (SampleImage.idleKernel 0)
          (some shellCmd) 10 11)) 0x08048000 := by
  refine ⟨rfl, fun hloaded => ?_⟩
  have hlast := hloaded.bytes 8192 (by decide)
  have hpage : (finishExecute (execute longImage ⟨0, []⟩
      (SampleImage.idleKernel 0) (some shellCmd) 10 11)).userByte
      (USER_BASE + PROGRAM_ADDR_OFF + 8192) = 0 := by decide +kernel
  have hfile : fileByte longImage
      (longImage.inodeSt SampleImage.shellEntry.indexNode) 8192 = 1 := by
    decide +kernel
  rw [hpage, hfile] at hlast
  exact absurd hlast (by decide)

/-! ## Reported failures -/

/-- The commands that cannot be executed: a `NULL` command, a name without an
entry, an entry that is no regular file with a header, and any command while
no pid is free. -/
inductive CannotExecute (fs : FileSys) (stk : CStr) (k : Kernel σ) :
    Option CStr → Prop
  | null : CannotExecute fs stk k none
  | noEntry (c : CStr)
      (h : readDentryByName fs (fnamePtr stk (handleCommand c.bytes).1) = none) :
      CannotExecute fs stk k (some c)
  | noProgram (c : CStr) (d : Dentry)
      (hfound : readDentryByName fs (fnamePtr stk (handleCommand c.bytes).1) =
        some d)
      (h : ¬ HasHeader fs d) : CannotExecute fs stk k (some c)
  | noPid (c : CStr) (h : ¬ PidFree k) : CannotExecute fs stk k (some c)

/-- A command that cannot be executed is answered with `-1`. -/
def ReportsFailure (fs : FileSys) (stk : CStr) (k : Kernel σ)
    (command : Option CStr) (esp ebp : σ) : Prop :=
  CannotExecute fs stk k command →
    (execute fs stk k command esp ebp).2 = .ret (-1)

/-- The failures are reported as `-1` if and only if there is a command, and
with an executable behind it there is also a free pid: `NULL` and a full
process table are answered with 0. -/
theorem reports_failure_iff (fs : FileSys) (stk : CStr) (k : Kernel σ)
    (command : Option CStr) (esp ebp : σ) :
    ReportsFailure fs stk k command esp ebp ↔
      ∃ c, command = some c ∧ (Runnable fs stk c → PidFree k) := by
  have hzero : ExecResult.ret 0 ≠ .ret (-1) := by
    intro h
    cases h
  constructor
  · intro hreports
    cases command with
    | none => exact absurd (hreports .null) hzero
    | some c =>
        refine ⟨c, rfl, fun hrun => ?_⟩
        by_contra hfull
        have hret := hreports (.noPid c hfull)
        rw [execute_no_pid esp ebp hrun hfull] at hret
        exact hzero hret
  · rintro ⟨c, rfl, hfree⟩ hcannot
    have hno : ¬ Runnable fs stk c := by
      intro hrun
      obtain ⟨d, hfound, hheader, -⟩ := runnable_iff.1 hrun
      cases hcannot with
      | noEntry _ hnone =>
          rw [hfound] at hnone
          cases hnone
      | noProgram _ d' hfound' hnone =>
          rw [hfound] at hfound'
          cases hfound'
          exact hnone hheader
      | noPid _ hfull => exact hfull (hfree hrun)
    rw [execute_unrunnable_some esp ebp hno]

/-- With six processes alive a seventh `shell` is answered with 0, and so is a
`NULL` command. -/
theorem failure_reported_as_zero :
    Run (ProcStep SampleImage.shellImage) (SampleImage.idleKernel 0)
        SampleImage.sixShells SampleImage.sixShellsEnd ∧
      (execute SampleImage.shellImage ⟨0, []⟩ SampleImage.sixShellsEnd
        (some shellCmd) 30 31).2 = .ret 0 ∧
      ¬ ReportsFailure SampleImage.shellImage ⟨0, []⟩ SampleImage.sixShellsEnd
        (some shellCmd) 30 31 ∧
      ¬ ReportsFailure SampleImage.shellImage ⟨0, []⟩ SampleImage.sixShellsEnd
        none 30 31 := by
  have hzero : ExecResult.ret 0 ≠ .ret (-1) := by
    intro h
    cases h
  have hfull : ¬ PidFree SampleImage.sixShellsEnd := by
    rw [pidFree_iff]
    decide +kernel
  have hresult := execute_no_pid 30 31
    (⟨_, found_shell _ rfl, by decide⟩ :
      Runnable SampleImage.shellImage ⟨0, []⟩ shellCmd) hfull
  refine ⟨SampleImage.sixShells_run, congrArg Prod.snd hresult, ?_, ?_⟩
  · intro hreports
    have hret := hreports (.noPid shellCmd hfull)
    rw [hresult] at hret
    exact hzero hret
  · exact fun hreports => hzero (hreports .null)

end MongOS.Proofs.ExecuteChecks
