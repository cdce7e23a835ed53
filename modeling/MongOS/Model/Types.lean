import Mathlib.Algebra.Order.Ring.Int
import Mathlib.Data.List.Infix
import Mathlib.Logic.Function.Basic

/-!
# Kernel data

The global data of the kernel that its functions read and write, under the
names of the sources: the process control blocks and the descriptor tables in
them (`syscall.h`), the terminals (`control.h`), the page-table entries that
change after boot (`x86_desc.h`), and the file system as it is seen through
`boot_b`, `inode_st` and `datab_st` (`filesys.h`).

Arrays that the code indexes by an `int` are functions of the index.  Process
ids are `Int`, because `-1` stands for "no process"; the control block of `pid`
lies at `KERNEL_STACK_BUTTOM - PROCCESS_STACK_SIZE * pid`, so `pcb` is indexed
by the pid.  The kernel never computes with a saved stack pointer, it only
stores it and loads it again; the type `σ` of such a value is a parameter.
-/

namespace MongOS.Model

/-- `uint8_t`. -/
abbrev Byte := UInt8

/-- The index of a terminal, below `TERMINAL_SIZE`. -/
abbrev Tid := Fin 3

instance tid_neZero : NeZero 3 := ⟨by decide⟩

/-- The value of an `int8_t`. -/
def signed (b : Byte) : Int := if b.toNat < 128 then b.toNat else b.toNat - 256

/-- The `int32_t` with the bits of the `uint32_t` `n`. -/
def toInt32 (n : Nat) : Int :=
  if n % 2 ^ 32 < 2 ^ 31 then (n % 2 ^ 32 : Nat) else (n % 2 ^ 32 : Nat) - 2 ^ 32

theorem toInt32_of_lt {n : Nat} (h : n < 2 ^ 31) : toInt32 n = n := by
  unfold toInt32
  rw [Nat.mod_eq_of_lt (by omega), if_pos h]

/-- `n++` on a `uint32_t`. -/
def incU32 (n : Nat) : Nat := if n = 2 ^ 32 - 1 then 0 else n + 1

/-- `n--` on a `uint32_t`. -/
def decU32 (n : Nat) : Nat := if n = 0 then 2 ^ 32 - 1 else n - 1

/-! ## Processes -/

/-- The largest pid. -/
def MAX_PROCESS : Int := 6
def MAX_PID : Nat := 6
def FILE_NAME : Nat := 32
def MAX_ARG_LENGTH : Nat := 128
def FREE : Nat := 0
def OPEN : Nat := 1

/-- The operation tables a descriptor may point to (`terminal_opss`,
`rtc_ops`, `file_ops`, `dir_ops`). -/
inductive Ops where
  | terminal
  | rtc
  | file
  | dir
  deriving DecidableEq, Repr

/-- `f_array_t`; a `NULL` operation table is `none`. -/
structure FArray where
  fotp : Option Ops
  inode : Nat
  filePos : Nat
  flags : Nat

/-- `Pcb_t`. -/
structure Pcb (σ : Type) where
  pid : Int
  parPid : Int
  farray : Int → FArray
  savedEsp : σ
  savedEbp : σ
  esp0 : Int
  args : Nat → Byte
  name : Nat → Byte
  vidmap : Nat
  rtcTrigger : Int
  rtcCounter : Int
  rtcMaxcount : Int

/-! ## Terminals and screens -/

/-- `terminal_t`. -/
structure Terminal where
  keyboardBuffer : Nat → Byte
  bufferSize : Nat
  terminalEnable : Bool
  screenX : Int
  screenY : Int
  videoCurPos : Int
  vidmap : Nat
  runningPid : Int

/-- The fields of a `pte_t` that the kernel changes after boot. -/
structure Pte where
  present : Nat
  address : Int

/-- The modifier variables of `keyboard.c`. -/
structure Modifiers where
  capsLock : Int
  lrShift : Int
  lCtrl : Int
  lAlt : Int
  capsOn : Int
  deriving DecidableEq

/-- Terminals, video memory and keyboard.  `screenT` is the terminal whose
cursor `screen_xt` and `screen_yt` point to, `pageTableVideo` is
`page_table[VID_MEM >> 12].address`, `mem` is physical memory and `cursorPos`
the position last written to the cursor registers.  `stored` records, newest
first, the addresses the screen output stored to; nothing reads it. -/
structure Console where
  multiTerminal : Tid → Terminal
  currentTid : Tid
  displayTerminal : Tid
  pageTableVideo : Int
  userMapping : Int → Pte
  screenT : Tid
  mem : Int → Byte
  cursorPos : Int
  keys : Modifiers
  stored : List Int

/-- Assign to fields of one terminal. -/
def Console.modify (c : Console) (t : Tid) (f : Terminal → Terminal) : Console :=
  { c with multiTerminal :=
      Function.update c.multiTerminal t (f (c.multiTerminal t)) }

/-- The kernel: terminals, process table, address space.  `pde` is
`page_directory[PDE_INDEX].mb.address`, and `userMem` the 4 MB physical user
pages by that address. -/
structure Kernel (σ : Type) where
  con : Console
  pidCnt : Nat
  pidSt : Int → Int
  pcb : Int → Pcb σ
  pde : Int
  tssEsp0 : Int
  userMem : Int → Nat → Byte

namespace Kernel

variable {σ : Type}

/-- `multi_terminal[t].running_pid`. -/
def runningPid (k : Kernel σ) (t : Tid) : Int :=
  (k.con.multiTerminal t).runningPid

/-- The pid of the process that runs on the current terminal. -/
def running (k : Kernel σ) : Int := k.runningPid k.con.currentTid

/-- Assign to fields of one control block. -/
def modifyPcb (k : Kernel σ) (pid : Int) (f : Pcb σ → Pcb σ) : Kernel σ :=
  { k with pcb := Function.update k.pcb pid (f (k.pcb pid)) }

end Kernel

/-! ## The file system -/

/-- `dentry_t`. -/
structure Dentry where
  filename : List Byte
  type : Nat
  indexNode : Nat
  reserved : List Byte

/-- `btblk_t`. -/
structure BootBlock where
  numDirEntries : Nat
  numInodes : Nat
  numDataBlocks : Nat
  dirEntries : Nat → Dentry

/-- `inode_t`; the table is the memory behind it, so it has no last index. -/
structure Inode where
  size : Nat
  dataBlocks : Nat → Nat

/-- The global pointers of the file system and what they point to: `bootB` is
`none` while `boot_b` is `NULL`, and `datab` is the memory from `datab_st` on. -/
structure FileSys where
  bootB : Option BootBlock
  inodeSt : Nat → Inode
  datab : Nat → Byte

/-- What the code reads through a `const uint8_t*`: the byte before the
pointer, and the bytes from it on; behind them comes a NUL. -/
structure CStr where
  before : Byte
  bytes : List Byte

end MongOS.Model
