import MongOS.Model.Descriptor

/-!
# Processes: `execute`, `halt` and `process_switch` (`syscall.c`)

The three functions that create, end and switch processes, with the helpers
they call.  Two of them end by leaving C: `execute` with an `IRET` to the new
program, `halt` and `process_switch` by loading a saved stack pointer.  They
return the kernel state together with how they end.

The parameter `stk` of a function that calls `execute` stands for what lies on
the kernel stack around the local array `fname` of that call; it is read when
the first word of the command fills the array.  Console output of `printf` is
not part of these functions.
-/

namespace MongOS.Model

variable {σ : Type}

/-- `KERNEL_STACK_BUTTOM`. -/
def KERNEL_STACK_BUTTOM : Int := 0x800000
/-- `PROCCESS_STACK_SIZE`. -/
def PROCCESS_STACK_SIZE : Int := 0x2000
def FENCE_FOUR : Int := 4
def CAL_PCB : Int := 1
def PDE_ST : Int := 2
/-- `USER_BASE`, the start of the user page, behind `PDE_INDEX`. -/
def USER_BASE : Nat := 0x8000000
def PROGRAM_ADDR_OFF : Nat := 0x48000
def MAGIC_LEN : Nat := 40
/-- `SYS_FAIL` as a `uint32_t`. -/
def FAIL_U32 : Nat := 2 ^ 32 - 1
def PDE_INDEX : Nat := 0x20
def PDE_OFFSET : Nat := 22
/-- `VIDEO_OF12`, the page of the video memory. -/
def VIDEO_OF12 : Int := 0xB8
/-- `SCREENST`, the user address of page `OUR_VID_MAP` behind entry 33 of the
page directory. -/
def SCREENST : Nat := 33 * 0x400000 + 0x22000
def EXCEPTION : Byte := 0xFF
def EXCEPT_RET : Nat := 256

namespace Kernel

/-- `current_terminal->running_pid = pid`. -/
def setRunning (k : Kernel σ) (pid : Int) : Kernel σ :=
  { k with
    con := k.con.modify k.con.currentTid (fun t => { t with runningPid := pid }) }

/-- `current_terminal->vidmap = vidmap`. -/
def setVidmap (k : Kernel σ) (vidmap : Nat) : Kernel σ :=
  { k with
    con := k.con.modify k.con.currentTid (fun t => { t with vidmap := vidmap }) }

/-- The byte at an address of the user page. -/
def userByte (k : Kernel σ) (va : Nat) : Byte := k.userMem k.pde (va - USER_BASE)

end Kernel

/-- `tss.esp0` for the kernel stack of a process. -/
def stackTop (pid : Int) : Int :=
  KERNEL_STACK_BUTTOM - (pid - CAL_PCB) * PROCCESS_STACK_SIZE - FENCE_FOUR

/-! ## Process ids -/

/-- `get_pid`: the lowest free pid, or `-1`. -/
def getPid (k : Kernel σ) : Kernel σ × Int :=
  match (List.range MAX_PID).find? fun (i : Nat) => k.pidSt i == 0 with
  | some i =>
      ({ k with
        pidCnt := incU32 k.pidCnt
        pidSt := Function.update k.pidSt i 1 }, i + 1)
  | none => (k, -1)

/-- `free_pid`. -/
def freePid (k : Kernel σ) (pid : Int) : Kernel σ :=
  { k with
    pidSt := Function.update k.pidSt (pid - 1) 0
    pidCnt := decU32 k.pidCnt }

/-! ## Loading a program -/

/-- The first loop of `handle_command`: the first word, up to the size of
`fname`. -/
def firstWord : Nat → List Byte → List Byte
  | 0, _ => []
  | _ + 1, [] => []
  | n + 1, b :: bs => if b = 32 then [] else b :: firstWord n bs

/-- `handle_command` on zeroed buffers: the contents of `fname` and of `farg`.
The second loop starts where the spaces end and stops at index
`MAX_ARG_LENGTH` of the command. -/
def handleCommand (command : List Byte) : (Nat → Byte) × (Nat → Byte) :=
  let command := command.take (strlen command)
  let word := firstWord FILE_NAME command
  let spaces := ((command.drop word.length).takeWhile (· == 32)).length
  let i := word.length + spaces
  let rest := (command.take MAX_ARG_LENGTH).drop i
  (fun j => word.getD j 0, fun j => rest.getD j 0)

/-- The bytes of an array of `n` bytes. -/
def arrayBytes (n : Nat) (a : Nat → Byte) : List Byte := (List.range n).map a

/-- What `read_dentry_by_name` can read through `fname`. -/
def fnamePtr (stk : CStr) (fname : Nat → Byte) : CStr :=
  { before := stk.before, bytes := arrayBytes FILE_NAME fname ++ stk.bytes }

/-- `handle_execuable_check`: the entry point, or `FAIL_U32`. -/
def handleExecuableCheck (fs : FileSys) (dentry : Dentry) : Nat :=
  if dentry.type ≠ 2 then FAIL_U32
  else
    let r := readData fs (fs.inodeSt dentry.indexNode) 0 (fun _ => 0) MAGIC_LEN
    if r.1 ≠ MAGIC_LEN then FAIL_U32
    else if r.2 0 ≠ 0x7f ∨ r.2 1 ≠ 0x45 ∨ r.2 2 ≠ 0x4c ∨ r.2 3 ≠ 0x46 then
      FAIL_U32
    else
      (r.2 24).toNat + (r.2 25).toNat * 2 ^ 8 + (r.2 26).toNat * 2 ^ 16 +
        (r.2 27).toNat * 2 ^ 24

/-- `handle_exe_paging`. -/
def handleExePaging (k : Kernel σ) (pid : Int) : Kernel σ :=
  { k with pde := PDE_ST + pid - 1 }

/-- `handle_switch_paging`. -/
def handleSwitchPaging (k : Kernel σ) (pid : Int) : Kernel σ :=
  { k with pde := PDE_ST + pid - 1 }

/-- The new contents of a control block: `execute` sets every descriptor, but
the operation table only of the first two. -/
def initPcb (p : Pcb σ) (pid parPid : Int) (fname farg : Nat → Byte) : Pcb σ :=
  { p with
    pid := pid
    parPid := parPid
    vidmap := 0
    args := farg
    name := fname
    farray := fun i =>
      { flags := if i < 2 then 1 else 0
        inode := 0
        filePos := 0
        fotp := if i < 2 then some .terminal else (p.farray i).fotp } }

/-- How `execute` ends: it returns to its caller, or enters user mode, with the
values of `pid` and `ent_add` that the instructions behind `sti` use. -/
inductive ExecResult where
  | ret (value : Int)
  | enter (pid : Int) (entAdd : Nat)

/-- Parts 4 and 5 of `execute`: the new control block, the address space and,
if there is a parent, its saved stack pointers. -/
def installProcess (k : Kernel σ) (pid : Int) (fname farg : Nat → Byte)
    (esp ebp : σ) : Kernel σ :=
  let parPid := k.running
  let k := k.modifyPcb pid fun p => initPcb p pid parPid fname farg
  let k := k.setRunning pid
  let k := handleExePaging k pid
  let k :=
    if parPid ≠ -1 then
      k.modifyPcb parPid fun p => { p with savedEsp := esp, savedEbp := ebp }
    else k
  k.modifyPcb pid fun p => { p with esp0 := stackTop pid }

/-- Part 6 of `execute`: the program is read into the user page. -/
def loadProgram (fs : FileSys) (k : Kernel σ) (inode : Inode) :
    Kernel σ × Int :=
  let r := readData fs inode 0 (fun i => k.userMem k.pde (PROGRAM_ADDR_OFF + i))
    PROCCESS_STACK_SIZE.toNat
  let page := fun i =>
    if i < PROGRAM_ADDR_OFF then k.userMem k.pde i
    else r.2 (i - PROGRAM_ADDR_OFF)
  ({ k with userMem := Function.update k.userMem k.pde page }, r.1)

/-- `execute` up to `sti`; `esp` and `ebp` are its own stack pointers. -/
def execute (fs : FileSys) (stk : CStr) (k : Kernel σ) (command : Option CStr)
    (esp ebp : σ) : Kernel σ × ExecResult :=
  match command with
  | none => (k, .ret 0)
  | some command =>
      let (fname, farg) := handleCommand command.bytes
      match readDentryByName fs (fnamePtr stk fname) with
      | none => (k, .ret (-1))
      | some tmpdentry =>
          let exeRet := handleExecuableCheck fs tmpdentry
          if exeRet = FAIL_U32 then (k, .ret (-1))
          else
            let (k, pid) := getPid k
            if pid = -1 then (k, .ret 0)
            else
              let k := installProcess k pid fname farg esp ebp
              let r := loadProgram fs k (fs.inodeSt tmpdentry.indexNode)
              if r.2 = -1 then (r.1, .ret (-1))
              else (r.1, .enter pid exeRet)

/-- What `execute` does between `sti` and `IRET`. -/
def executeTail (k : Kernel σ) (pid : Int) : Kernel σ :=
  { k with tssEsp0 := stackTop pid }

/-- The string `"shell"` in the kernel's data. -/
def shellCmd : CStr := { before := 0, bytes := [115, 104, 101, 108, 108] }

/-! ## Arguments -/

/-- The loop of `getargs` that goes back over newlines and NULs from index `i`
on, along the bytes from there down: it has no lower bound, and faults where the
memory below the array ends. -/
def trimIndex : List Byte → Int → Option Int
  | [], _ => none
  | b :: bs, i => if b = 10 ∨ b = 0 then trimIndex bs (i - 1) else some i

/-- `getargs`; a `NULL` buffer is `none`.  `above` and `below` are what lies on
the kernel stack on both sides of the local array `tmpargs`, from it outwards,
and `room` is how many bytes are mapped from the buffer on.  The comparison of
the length with `nbytes` is unsigned, and `strncpy` stores `nbytes` bytes,
however long the string is. -/
def getargs (k : Kernel σ) (below above : List Byte) (room : Nat)
    (buf : Option (Nat → Byte)) (nbytes : Int) : CallResult :=
  match buf with
  | none => .ret (-1) fun _ => 0
  | some buf =>
      let tmpargs := arrayBytes MAX_ARG_LENGTH k.curPcb.args ++ above
      let tmplen := strlen tmpargs
      let n := (nbytes % 2 ^ 32).toNat
      if tmplen > n then .ret (-1) buf
      else
        match trimIndex ((tmpargs.take tmplen).reverse ++ below)
          (tmplen - 1) with
        | none => .faults
        | some i =>
            if i = -1 then .ret (-1) buf
            else if n > room then .faults
            else .ret 0 (strncpy buf tmpargs n)

/-! ## Ending -/

/-- The clean-up loop of `halt`. -/
def closeAll (fs : FileSys) (k : Kernel σ) (pid : Int) : Kernel σ :=
  [2, 3, 4, 5, 6, 7].foldl
    (fun k i =>
      if ((k.pcb pid).farray i).flags = FREE then k else (close fs k i).1) k

/-- `paging_halt`. -/
def pagingHalt (k : Kernel σ) (parentPid : Int) : Kernel σ :=
  let entry :=
    if k.con.displayTerminal = k.con.currentTid then OUR_VID_MAP
    else OUR_VID_MAP + 1 + k.con.currentTid.val
  let pte := { k.con.userMapping entry with present := 0 }
  { k with
    pde := PDE_ST + parentPid - 1
    con := { k.con with
      userMapping := Function.update k.con.userMapping entry pte } }

/-- How `halt` ends: a base shell is started again, or `halt_asm` loads a saved
stack pointer and the return value of the parent's `execute`. -/
inductive HaltResult (σ : Type) where
  | restart (r : ExecResult)
  | resume (esp ebp : σ) (returnValue : Nat)

/-- `halt`; `esp` and `ebp` are the stack pointers of an `execute` it calls. -/
def halt (fs : FileSys) (stk : CStr) (k : Kernel σ) (status : Byte)
    (esp ebp : σ) : Kernel σ × HaltResult σ :=
  let returnValue := if status = EXCEPTION then EXCEPT_RET else status.toNat
  let pid := k.running
  let k := freePid k (k.pcb pid).pid
  let k := closeAll fs k pid
  let parPid := (k.pcb pid).parPid
  if parPid = -1 then
    let r := execute fs stk (k.setRunning (-1)) (some shellCmd) esp ebp
    (r.1, .restart r.2)
  else
    let parPcb := k.pcb parPid
    let k := k.setRunning parPid
    let k := { k with tssEsp0 := stackTop parPid }
    let k := pagingHalt k parPid
    let k := k.setVidmap parPcb.vidmap
    (k, .resume parPcb.savedEsp parPcb.savedEbp returnValue)

/-- `err_handle`, the end of a process by an exception; the number of the
exception only selects the text that is printed. -/
def errHandle (fs : FileSys) (stk : CStr) (k : Kernel σ) (esp ebp : σ) :
    Kernel σ × HaltResult σ := halt fs stk k EXCEPTION esp ebp

/-! ## The video memory of user programs -/

/-- `*screen_start = (uint8_t*) SCREENST`, on the user page.  A pointer that reaches
over the end of the page makes the store fault, which ends the process; that is a
call of `vidmap` and then a `halt` with the status `EXCEPTION`. -/
def storeScreenStart (k : Kernel σ) (screenStart : Nat) : Kernel σ :=
  let off := screenStart - USER_BASE
  let page := fun i =>
    if off ≤ i ∧ i < off + 4 then (le32 SCREENST).getD (i - off) 0
    else k.userMem k.pde i
  { k with userMem := Function.update k.userMem k.pde page }

/-- `vidmap`, called with the address `screenStart`. -/
def vidmap (k : Kernel σ) (screenStart : Nat) : Kernel σ × Int :=
  if screenStart = 0 then (k, -1)
  else if PDE_INDEX ≠ screenStart / 2 ^ PDE_OFFSET then (k, -1)
  else
    let k := k.modifyCur fun p => { p with vidmap := OPEN }
    let k := k.setVidmap OPEN
    let entry :=
      if k.con.displayTerminal = k.con.currentTid then OUR_VID_MAP
      else OUR_VID_MAP + 1 + k.con.currentTid.val
    let pte : Pte := { present := OPEN, address := VIDEO_OF12 }
    let k :=
      { k with con := { k.con with
          userMapping := Function.update k.con.userMapping entry pte } }
    (storeScreenStart k screenStart, 0)

/-! ## Switching -/

/-- How `process_switch` ends: it has called `execute` for a terminal without a
process, or it loads the saved stack pointer of the process there. -/
inductive SwitchResult (σ : Type) where
  | started (r : ExecResult)
  | resume (esp ebp : σ)

/-- `process_switch`; `esp` and `ebp` are its own stack pointers, and those of
an `execute` it calls are `espExe` and `ebpExe`. -/
def processSwitch (fs : FileSys) (stk : CStr) (k : Kernel σ) (tid : Tid)
    (esp ebp espExe ebpExe : σ) : Kernel σ × SwitchResult σ :=
  let oldProcess := k.running
  let esp0 := k.tssEsp0
  let k :=
    if oldProcess > 0 ∧ oldProcess ≤ MAX_PROCESS then
      k.modifyPcb oldProcess fun p =>
        { p with savedEbp := ebp, savedEsp := esp, esp0 := esp0 }
    else k
  let newProcess := k.runningPid tid
  if newProcess = -1 then
    let k := { k with con := { k.con with currentTid := tid } }
    let r := execute fs stk k (some shellCmd) espExe ebpExe
    (r.1, .started r.2)
  else
    let k := handleSwitchPaging k newProcess
    let tmpPcb := k.pcb newProcess
    let k := { k with tssEsp0 := tmpPcb.esp0 }
    let k := { k with con := { k.con with currentTid := tid } }
    (k, .resume tmpPcb.savedEsp tmpPcb.savedEbp)

/-- `pit_irq`: the video page follows the next terminal, then the process
switch. -/
def pitIrq (fs : FileSys) (stk : CStr) (k : Kernel σ) (esp ebp espExe ebpExe : σ) :
    Kernel σ × SwitchResult σ :=
  let tmpid := k.con.currentTid + 1
  processSwitch fs stk { k with con := vidMem k.con tmpid } tmpid
    esp ebp espExe ebpExe

end MongOS.Model
