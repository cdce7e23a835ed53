import MongOS.Model.Library
import MongOS.Verified.Calls

/-!
# User programs (`ece391cat.c`, `ece391ls.c`, `ece391grep.c`)

The programs that read files and directories, with the functions of
`ece391support.c` they use, as programs over the system calls.  A local array is
a function of the index, and a pointer to a string the bytes from it on.  Loops
have a bound on their rounds; a program that reaches it, or stores behind an
array, has no exit status.

`perform` is a system call of the process that runs on the current terminal,
carried out by the kernel.  A `read` of the RTC returns after an interrupt; one
of the terminal has a reply only while a line is waiting.
-/

namespace MongOS.Model

open MongOS.Verified

variable {σ : Type}

/-! ## System calls -/

/-- The system calls of the programs. -/
inductive UserCall where
  | getargs (buf : Nat → Byte) (nbytes : Int)
  | «open» (filename : List Byte)
  | read (fd : Int) (buf : Nat → Byte) (nbytes : Int)
  | write (fd : Int) (buf : Nat → Byte) (nbytes : Int)
  | close (fd : Int)
  | vidmap (screenStart : Nat)

/-- The return value, and the buffer after the call; for `vidmap` that is the pointer
at `screenStart`. -/
structure Reply where
  value : Int
  buf : Nat → Byte

/-- A program, or a function of one. -/
abbrev UserProg := Prog UserCall Reply

def ece391Getargs (buf : Nat → Byte) (nbytes : Int) : UserProg Reply :=
  .make (.getargs buf nbytes)

def ece391Open (filename : List Byte) : UserProg Reply := .make (.open filename)

def ece391Read (fd : Int) (buf : Nat → Byte) (nbytes : Int) : UserProg Reply :=
  .make (.read fd buf nbytes)

def ece391Write (fd : Int) (buf : Nat → Byte) (nbytes : Int) : UserProg Reply :=
  .make (.write fd buf nbytes)

def ece391Close (fd : Int) : UserProg Reply := .make (.close fd)

def ece391Vidmap (screenStart : Nat) : UserProg Reply := .make (.vidmap screenStart)

/-- A string constant with its NUL. -/
def literal (s : String) : List Byte := str s ++ [0]

/-! ## `ece391support.c` -/

/-- `ece391_strlen`, the same loop as `strlen`. -/
def ece391Strlen (s : List Byte) : Nat := strlen s

/-- `ece391_fdputs`. -/
def ece391Fdputs (fd : Int) (s : List Byte) : UserProg Unit := do
  let _ ← ece391Write fd (fun i => s.getD i 0) (ece391Strlen s)
  return ()

/-- `ece391_strcpy` inside one array, with `n` bytes of the array from `src`
on. -/
def ece391Strcpy : Nat → Nat → Nat → (Nat → Byte) → Option (Nat → Byte)
  | 0, _, _, _ => none
  | n + 1, dst, src, m =>
      let b := m src
      let m := Function.update m dst b
      if b = 0 then some m else ece391Strcpy n (dst + 1) (src + 1) m

/-- `ece391_strncmp`. -/
def ece391Strncmp (s1 s2 : List Byte) : Nat → Int
  | 0 => 0
  | n + 1 =>
      if s1.headD 0 = s2.headD 0 then
        if s1.headD 0 = 0 then 0 else ece391Strncmp s1.tail s2.tail n
      else (s1.headD 0).toNat - (s2.headD 0).toNat

/-! ## `cat` and `ls` -/

def SBUFSIZE : Nat := 33

/-- The loop of `main` in both programs: they read `nbytes` bytes at a time, and
write the buffer and the number of bytes that `line` makes of a reply. -/
def copyLoop (nbytes : Int) (failed : List Byte)
    (line : Reply → (Nat → Byte) × Int) (fd : Int) :
    Nat → (Nat → Byte) → UserProg (Option Int)
  | 0, _ => return none
  | n + 1, buf => do
      let r ← ece391Read fd buf nbytes
      if r.value = 0 then return some 0
      else if r.value = -1 then do
        ece391Fdputs 1 failed
        return some 3
      else do
        let (buf, cnt) := line r
        let w ← ece391Write 1 buf cnt
        if w.value = -1 then return some 3
        else copyLoop nbytes failed line fd n buf

/-- The loop of `cat`. -/
def catLoop (fd : Int) : Nat → (Nat → Byte) → UserProg (Option Int) :=
  copyLoop 1024 (literal "file read failed\n") (fun r => (r.buf, r.value)) fd

/-- `main` of `ece391cat.c`. -/
def cat (rounds : Nat) (buf : Nat → Byte) : UserProg (Option Int) := do
  let r ← ece391Getargs buf 1024
  if r.value ≠ 0 then do
    ece391Fdputs 1 (literal "could not read arguments\n")
    return some 3
  else do
    let o ← ece391Open (arrayBytes 1024 r.buf)
    if o.value = -1 then do
      ece391Fdputs 1 (literal "file not found\n")
      return some 2
    else catLoop o.value rounds r.buf

/-- The loop of `ls`. -/
def lsLoop (fd : Int) : Nat → (Nat → Byte) → UserProg (Option Int) :=
  copyLoop (SBUFSIZE - 1) (literal "directory entry read failed\n")
    (fun r => (Function.update r.buf r.value.toNat 10, r.value + 1)) fd

/-- `main` of `ece391ls.c`. -/
def ls (rounds : Nat) (buf : Nat → Byte) : UserProg (Option Int) := do
  let o ← ece391Open (literal ".")
  if o.value = -1 then do
    ece391Fdputs 1 (literal "directory open failed\n")
    return some 2
  else lsLoop o.value rounds buf

/-! ## `grep` -/

def BUFSIZE : Nat := 1024

/-- `while (line_end < last && '\n' != data[line_end]) line_end++;` -/
def findLineEnd (data : Nat → Byte) (last : Nat) : Nat → Nat → Nat
  | 0, lineEnd => lineEnd
  | n + 1, lineEnd =>
      if lineEnd < last ∧ data lineEnd ≠ 10 then findLineEnd data last n (lineEnd + 1)
      else lineEnd

/-- What `data + i` points to. -/
def dataFrom (data : Nat → Byte) (i : Nat) : List Byte :=
  arrayBytes (BUFSIZE + 1 - i) fun j => data (i + j)

/-- A `char` as an integer: `char` is signed. -/
def charValue (b : Byte) : Int := if b.toNat < 128 then b.toNat else b.toNat - 256

/-- The loop over `check`, with `n` places to go: whether it finds the string.  The
string is an array of `char` and the buffer one of `uint8_t`. -/
def searchLine (s : List Byte) (sLen : Nat) (data : Nat → Byte) : Nat → Nat → Bool
  | 0, _ => false
  | n + 1, check =>
      if charValue (s.headD 0) = (data check).toNat ∧
          ece391Strncmp (dataFrom data check) s sLen = 0 then
        true
      else searchLine s sLen data n (check + 1)

/-- The four lines that print a line of the file. -/
def printMatch (fname line : List Byte) : UserProg Unit := do
  ece391Fdputs 1 fname
  ece391Fdputs 1 (literal ":")
  ece391Fdputs 1 line
  ece391Fdputs 1 (literal "\n")

/-- The search of the line from `lineStart` to its NUL at `lineEnd`. -/
def searchAndPrint (s fname : List Byte) (sLen : Nat) (data : Nat → Byte)
    (lineStart lineEnd : Nat) : UserProg Unit :=
  if searchLine s sLen data (lineEnd - lineStart) lineStart then
    printMatch fname (dataFrom data lineStart)
  else return ()

/-- The loop of `do_one_file` over the lines in the buffer, after a read of
`cnt` bytes: the buffer and `last` where it ends. -/
def lineLoop (s fname : List Byte) (sLen cnt last : Nat) :
    Nat → (Nat → Byte) → Nat → UserProg (Option ((Nat → Byte) × Nat))
  | 0, _, _ => return none
  | n + 1, data, lineStart =>
      let lineEnd := findLineEnd data last (last - lineStart) lineStart
      if data lineEnd ≠ 10 ∧ cnt ≠ 0 ∧ lineStart ≠ 0 then
        let data := Function.update data lineEnd 0
        return (ece391Strcpy (BUFSIZE + 1 - lineStart) 0 lineStart data).map
          fun data => (data, last - lineStart)
      else do
        let data := Function.update data lineEnd 0
        searchAndPrint s fname sLen data lineStart lineEnd
        let lineStart := lineEnd + 1
        if lineStart ≥ last then return some (data, 0)
        else lineLoop s fname sLen cnt last n data lineStart

/-- The loop of `do_one_file` over the reads: whether they all succeed. -/
def fileLoop (s fname : List Byte) (sLen : Nat) (fd : Int) :
    Nat → (Nat → Byte) → Nat → UserProg (Option Bool)
  | 0, _, _ => return none
  | n + 1, data, last => do
      let r ← ece391Read fd (fun i => data (last + i)) ((BUFSIZE - last : Nat) : Int)
      if r.value = -1 then do
        ece391Fdputs 1 (literal "file read failed\n")
        return some false
      else do
        let cnt := r.value.toNat
        let data := fun i => if last ≤ i then r.buf (i - last) else data i
        let last := last + cnt
        let lines ← lineLoop s fname sLen cnt last (last + 1) data 0
        match lines with
        | none => return none
        | some (data, last) =>
            if cnt = 0 then return some true
            else fileLoop s fname sLen fd n data last

/-- `do_one_file`; `data` is what the local array holds at first. -/
def doOneFile (s fname : List Byte) (rounds : Nat) (data : Nat → Byte) :
    UserProg (Option Int) := do
  let sLen := ece391Strlen s
  let o ← ece391Open fname
  if o.value = -1 then do
    ece391Fdputs 1 (literal "file open failed\n")
    return some (-1)
  else do
    let done ← fileLoop s fname sLen o.value rounds data 0
    match done with
    | none => return none
    | some false => return some (-1)
    | some true => do
        let c ← ece391Close o.value
        if c.value = -1 then do
          ece391Fdputs 1 (literal "file close failed\n")
          return some (-1)
        else return some 0

/-- The loop of `main` over the entries of the directory; `datas n` is what the
array of `do_one_file` holds with `n` rounds to go. -/
def grepLoop (search : List Byte) (fd : Int) (rounds : Nat)
    (datas : Nat → Nat → Byte) : Nat → (Nat → Byte) → UserProg (Option Int)
  | 0, _ => return none
  | n + 1, buf => do
      let r ← ece391Read fd buf (SBUFSIZE - 1)
      let cnt := r.value
      if cnt = 0 then return some 0
      else if cnt = -1 then do
        ece391Fdputs 1 (literal "directory entry read failed\n")
        return some 3
      else if r.buf 0 = 46 then grepLoop search fd rounds datas n r.buf
      else do
        let buf := Function.update r.buf cnt.toNat 0
        let f ← doOneFile search (arrayBytes SBUFSIZE buf) rounds (datas n)
        if f = none then return none
        else if f ≠ some 0 then return some 3
        else grepLoop search fd rounds datas n buf

/-- `main` of `ece391grep.c`. -/
def grep (rounds entries : Nat) (datas : Nat → Nat → Byte)
    (search buf : Nat → Byte) : UserProg (Option Int) := do
  let r ← ece391Getargs search BUFSIZE
  if r.value ≠ 0 then do
    ece391Fdputs 1 (literal "could not read argument\n")
    return some 3
  else do
    let o ← ece391Open (literal ".")
    if o.value = -1 then do
      ece391Fdputs 1 (literal "directory open failed\n")
      return some 2
    else grepLoop (arrayBytes BUFSIZE r.buf) o.value rounds datas entries buf

/-! ## The system below a program -/

/-- The kernel, and the characters the program has put on its terminal. -/
structure User (σ : Type) where
  kernel : Kernel σ
  wrote : List Byte

/-- What lies around the strings that the kernel reads: in user memory before a
file name and behind it, and on the kernel stack below and above `tmpargs`.  The
array that a program gives to `getargs` lies on its page, which goes on for
`room` bytes. -/
structure Around where
  before : Byte
  behind : List Byte
  below : List Byte
  above : List Byte
  room : Nat
  fits : BUFSIZE ≤ room

/-- The characters that a `write` puts on the terminal. -/
def putOut (k : Kernel σ) (fd : Int) (buf : Nat → Byte) (nbytes : Int) :
    List Byte :=
  let slot := k.curPcb.farray fd
  if 0 < fd ∧ fd < FD_ARRAY_MAX ∧ slot.flags ≠ FREE ∧ slot.fotp = some .terminal then
    arrayBytes nbytes.toNat buf
  else []

/-- One system call of the running process. -/
def perform (fs : FileSys) (around : Around) (s : User σ) :
    UserCall → Option (User σ × Reply)
  | .getargs buf nbytes =>
      match getargs s.kernel around.below around.above around.room (some buf)
        nbytes with
      | .ret value buf => some (s, ⟨value, buf⟩)
      | _ => none
  | .open filename =>
      let r := «open» fs s.kernel ⟨around.before, filename ++ around.behind⟩
      some ({ s with kernel := r.1 }, ⟨r.2, fun _ => 0⟩)
  | .read fd buf nbytes =>
      match read fs s.kernel fd (some buf) nbytes with
      | (k, .ret value buf) => some ({ s with kernel := k }, ⟨value, buf⟩)
      | (k, .waits) =>
          let slot := s.kernel.curPcb.farray (forceFd s.kernel.curPcb.name fd)
          if slot.fotp = some .rtc then some ({ s with kernel := k }, ⟨0, buf⟩)
          else none
      | (_, .faults) => none
  | .write fd buf nbytes =>
      match write s.kernel fd (some buf) nbytes with
      | (k, .ret value buf') =>
          some ({ kernel := k, wrote := s.wrote ++ putOut s.kernel fd buf nbytes },
            ⟨value, buf'⟩)
      | _ => none
  | .close fd =>
      let r := close fs s.kernel fd
      some ({ s with kernel := r.1 }, ⟨r.2, fun _ => 0⟩)
  | .vidmap screenStart =>
      let r := vidmap s.kernel screenStart
      some ({ s with kernel := r.1 }, ⟨r.2, fun i => (le32 SCREENST).getD i 0⟩)

/-- What other processes and the interrupts leave alone between two calls of a
program, when it runs again: its terminal, name, arguments and descriptors. -/
structure Undisturbed (s t : User σ) : Prop where
  running : t.kernel.running = s.kernel.running
  name : t.kernel.curPcb.name = s.kernel.curPcb.name
  args : t.kernel.curPcb.args = s.kernel.curPcb.args
  farray : t.kernel.curPcb.farray = s.kernel.curPcb.farray
  wrote : t.wrote = s.wrote

end MongOS.Model
