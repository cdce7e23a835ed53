import MongOS.Model.FileSys
import MongOS.Model.Keyboard

/-!
# Descriptor calls and the virtual RTC (`syscall.c`, `rtc.c`)

`read`, `write`, `open` and `close` check the descriptor, look up the operation
table of the slot and call through it.  Every call acts on the process that
runs on the current terminal.  A call through a `NULL` table pointer faults.
-/

namespace MongOS.Model

variable {σ : Type}

def FD_ARRAY_ST : Int := 0
def FD_ARRAY_MIN : Int := 2
def FD_ARRAY_MAX : Int := 8
def ROOT_FD : Int := 2
def FILE_FD : Int := 3
def MAX_FREQ : Int := 1024
def MIN_FREQ : Int := 2

namespace Kernel

/-- `cur_pcb`. -/
def curPcb (k : Kernel σ) : Pcb σ := k.pcb k.running

/-- Assign to fields of `cur_pcb`. -/
def modifyCur (k : Kernel σ) (f : Pcb σ → Pcb σ) : Kernel σ :=
  k.modifyPcb k.running f

/-- Assign to fields of `cur_pcb->farray[fd]`. -/
def modifySlot (k : Kernel σ) (fd : Int) (f : FArray → FArray) : Kernel σ :=
  k.modifyCur fun p =>
    { p with farray := Function.update p.farray fd (f (p.farray fd)) }

end Kernel

/-! ## The virtual RTC -/

/-- `rtc_open`. -/
def rtcOpen (k : Kernel σ) : Kernel σ :=
  k.modifyCur fun p =>
    { p with
      rtcCounter := 0, rtcMaxcount := MAX_FREQ / MIN_FREQ, rtcTrigger := 0 }

/-- `rtc_close`. -/
def rtcClose (k : Kernel σ) : Kernel σ :=
  k.modifyCur fun p =>
    { p with rtcCounter := 0, rtcMaxcount := 0, rtcTrigger := 0 }

/-- The part of `rtc_read` before it waits for the trigger. -/
def rtcReadArm (k : Kernel σ) : Kernel σ :=
  k.modifyCur fun p => { p with rtcTrigger := 0 }

/-- `rtc_write`, for a non-`NULL` buffer. -/
def rtcWrite (k : Kernel σ) (buf : Nat → Byte) (nbytes : Int) :
    Kernel σ × Int :=
  if nbytes ≠ 4 then (k, -1)
  else
    let setFreq := toInt32 ((buf 0).toNat + (buf 1).toNat * 2 ^ 8 +
      (buf 2).toNat * 2 ^ 16 + (buf 3).toNat * 2 ^ 24)
    let setFreq := if setFreq > MAX_FREQ then MAX_FREQ else setFreq
    let setFreq := if setFreq < MIN_FREQ then MIN_FREQ else setFreq
    (k.modifyCur fun p =>
      { p with rtcMaxcount := MAX_FREQ / setFreq, rtcCounter := 0 }, 4)

/-- The body of the loop of `RTC_irq` on one control block. -/
def rtcTick (p : Pcb σ) : Pcb σ :=
  if p.rtcMaxcount = 0 then p
  else if p.rtcCounter + 1 ≥ p.rtcMaxcount then
    { p with rtcTrigger := 1, rtcCounter := 0 }
  else { p with rtcCounter := p.rtcCounter + 1 }

/-- `RTC_irq`: every control block from 1 to `MAX_PROCESS`, in use or not. -/
def rtcIrq (k : Kernel σ) : Kernel σ :=
  [1, 2, 3, 4, 5, 6].foldl (fun k i => k.modifyPcb i rtcTick) k

/-! ## The operation tables -/

/-- `fotp->open(filename)`. -/
def openOp (fs : FileSys) (k : Kernel σ) (filename : CStr) :
    Ops → Kernel σ × Int
  | .terminal => (k, 0)
  | .rtc => (rtcOpen k, 0)
  | .file => (k, openF fs filename)
  | .dir => (k, openD fs)

/-- `fotp->close(fd)`. -/
def closeOp (fs : FileSys) (k : Kernel σ) : Ops → Kernel σ × Int
  | .terminal => (k, 0)
  | .rtc => (rtcClose k, 0)
  | .file => (k, closeF fs)
  | .dir => (k, closeD fs)

/-- What a call through the jump table comes to: a result, a wait for an
interrupt, or a fault. -/
inductive CallResult where
  | ret (value : Int) (buf : Nat → Byte)
  | waits
  | faults

/-- `fotp->read(inode, &file_pos, buf, nbytes)`: the kernel, the position and
the result. -/
def readOp (fs : FileSys) (k : Kernel σ) (inode pos : Nat) (buf : Nat → Byte)
    (nbytes : Int) : Ops → Kernel σ × Nat × CallResult
  | .terminal =>
      match readTerminal k.con buf nbytes with
      | none => (k, pos, .waits)
      | some (con, value, buf) => ({ k with con := con }, pos, .ret value buf)
  | .rtc => (rtcReadArm k, pos, .waits)
  | .file =>
      let r := readF fs (fs.inodeSt inode) pos buf nbytes
      (k, r.2.1, .ret r.1 r.2.2)
  | .dir =>
      match fs.bootB with
      | none => (k, pos, .faults)
      | some boot =>
          let r := readD boot pos buf nbytes
          (k, r.2.1, .ret r.1 r.2.2)

/-- `fotp->write(fd, buf, nbytes)`; files and directories are read-only. -/
def writeOp (k : Kernel σ) (buf : Nat → Byte) (nbytes : Int) :
    Ops → Kernel σ × Int
  | .terminal =>
      let r := writeTerminal k.con buf nbytes
      ({ k with con := r.1 }, r.2)
  | .rtc => rtcWrite k buf nbytes
  | .file => (k, -1)
  | .dir => (k, -1)

/-! ## The system calls -/

/-- The descriptor `read` and `close` use for `fd`: for a program whose name
begins with `gr` every descriptor but `ROOT_FD` becomes `FILE_FD`. -/
def forceFd (name : Nat → Byte) (fd : Int) : Int :=
  if name 0 = 103 ∧ name 1 = 114 then if fd ≠ ROOT_FD then FILE_FD else fd
  else fd

/-- `read`; a `NULL` buffer is `none`. -/
def read (fs : FileSys) (k : Kernel σ) (fd : Int) (buf : Option (Nat → Byte))
    (nbytes : Int) : Kernel σ × CallResult :=
  let fd := forceFd k.curPcb.name fd
  if fd < FD_ARRAY_ST ∨ fd ≥ FD_ARRAY_MAX then
    (k, .ret (-1) (buf.getD fun _ => 0))
  else
    match buf with
    | none => (k, .ret (-1) fun _ => 0)
    | some buf =>
        if nbytes < 0 then (k, .ret (-1) buf)
        else if fd = 1 then (k, .ret (-1) buf)
        else
          let slot := k.curPcb.farray fd
          if slot.flags = FREE then (k, .ret (-1) buf)
          else
            match slot.fotp with
            | none => (k, .faults)
            | some ops =>
                let r := readOp fs k slot.inode slot.filePos buf nbytes ops
                (r.1.modifySlot fd fun s => { s with filePos := r.2.1 }, r.2.2)

/-- `write`; a `NULL` buffer is `none`. -/
def write (k : Kernel σ) (fd : Int) (buf : Option (Nat → Byte))
    (nbytes : Int) : Kernel σ × CallResult :=
  if fd < FD_ARRAY_ST ∨ fd ≥ FD_ARRAY_MAX then
    (k, .ret (-1) (buf.getD fun _ => 0))
  else
    match buf with
    | none => (k, .ret (-1) fun _ => 0)
    | some buf =>
        if nbytes < 0 then (k, .ret (-1) buf)
        else if fd = 0 then (k, .ret (-1) buf)
        else
          let slot := k.curPcb.farray fd
          if slot.flags = FREE then (k, .ret (-1) buf)
          else
            match slot.fotp with
            | none => (k, .faults)
            | some ops =>
                let r := writeOp k buf nbytes ops
                (r.1, .ret r.2 buf)

/-- The operation table `open` chooses for the type of an entry. -/
def opsOfType (type : Nat) : Ops :=
  if type = 0 then .rtc else if type = 1 then .dir else .file

/-- The first free slot of `FD_ARRAY_MIN .. FD_ARRAY_MAX - 1`. -/
def freeSlot (p : Pcb σ) : Option Int :=
  [2, 3, 4, 5, 6, 7].find? fun i => (p.farray i).flags == FREE

/-- `open`. -/
def «open» (fs : FileSys) (k : Kernel σ) (filename : CStr) : Kernel σ × Int :=
  if strlen filename.bytes = 0 then (k, -1)
  else
    match readDentryByName fs filename with
    | none => (k, -1)
    | some dentry =>
        match freeSlot k.curPcb with
        | none => (k, -1)
        | some i =>
            let ops := opsOfType dentry.type
            let k := k.modifySlot i fun _ =>
              { filePos := 0, inode := dentry.indexNode, flags := OPEN
                fotp := some ops }
            let r := openOp fs k filename ops
            (r.1, if r.2 ≠ -1 then i else -1)

/-- `close`. -/
def close (fs : FileSys) (k : Kernel σ) (fd : Int) : Kernel σ × Int :=
  let fd := forceFd k.curPcb.name fd
  if fd < FD_ARRAY_MIN ∨ fd ≥ FD_ARRAY_MAX then (k, -1)
  else
    let slot := k.curPcb.farray fd
    match slot.fotp with
    | none => (k, -1)
    | some ops =>
        if slot.flags = FREE then (k, -1)
        else
          let r := closeOp fs k ops
          if r.2 = 0 then
            (r.1.modifySlot fd fun _ =>
              { fotp := none, inode := 0, filePos := 0, flags := FREE }, 0)
          else (r.1, -1)

end MongOS.Model
