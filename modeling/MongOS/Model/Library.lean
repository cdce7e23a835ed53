import MongOS.Model.Process

/-!
# Numbers and formatted output (`lib.c`, `keyboard.c`)

`itoa` and the in-place `strrev` it ends with, `puts`, `printf` and
`display_printf`.  A function that stores into an array takes the size of the
array; `none` is a store behind its end.  `printf` reads its format byte by
byte; `none` is a read behind the bytes that are listed.
-/

namespace MongOS.Model

/-- The bytes of a string constant. -/
def str (s : String) : List Byte := s.toList.map fun c => UInt8.ofNat c.toNat

/-! ## `itoa` -/

/-- `lookup[i]`. -/
def lookup (i : Nat) : Byte :=
  (str "0123456789ABCDEFGHIJKLMNOPQRSTUVWXYZ").getD i 0

/-- `tmp = s[end]; s[end] = s[beg]; s[beg] = tmp;` -/
def swapBytes (s : Nat → Byte) (beg end_ : Nat) : Nat → Byte :=
  let tmp := s end_
  let s := Function.update s end_ (s beg)
  Function.update s beg tmp

/-- The loop of `strrev`, with `end` and `beg`. -/
def strrevLoop : Nat → Nat → (Nat → Byte) → Nat → Byte
  | 0, _, s => s
  | end_ + 1, beg, s =>
      if beg < end_ + 1 then strrevLoop end_ (beg + 1) (swapBytes s beg (end_ + 1))
      else s

/-- `strrev` of a string in an array of `size` bytes. -/
def strrev (size : Nat) (s : Nat → Byte) : Nat → Byte :=
  strrevLoop (strlen (arrayBytes size s) - 1) 0 s

/-- The loop of `itoa` and the store of the NUL behind it, with `newbuf` at
index `i` and `room` bytes of the array from there on. -/
def itoaLoop (radix : Nat) : Nat → Nat → Nat → (Nat → Byte) →
    Option (Nat → Byte)
  | 0, _, _, _ => none
  | room + 1, newval, i, buf =>
      if newval = 0 then some (Function.update buf i 0)
      else itoaLoop radix room (newval / radix) (i + 1)
        (Function.update buf i (lookup (newval % radix)))

/-- `itoa` into an array of `size` bytes. -/
def itoa (size value : Nat) (buf : Nat → Byte) (radix : Nat) :
    Option (Nat → Byte) :=
  if value = 0 then
    if size < 2 then none
    else some (Function.update (Function.update buf 0 48) 1 0)
  else (itoaLoop radix size value 0 buf).map (strrev size)

/-! ## `printf` -/

/-- `puts` of the string at the front of `s`: what it writes. -/
def puts (c : Console) (s : List Byte) : Console :=
  (s.take (strlen s)).foldl putc c

/-- Where `printf` is in its format: in the text, or behind a `%`, with the
variable `alternate`. -/
inductive Scan where
  | text
  | conversion (alternate : Bool)

/-- `itoa(*esp, &conv_buf[8], 16)` and zeros before it up to eight digits: the
string at `&conv_buf[starting_index]`. -/
def alternateHex (value : Nat) (convBuf : Nat → Byte) : Option (List Byte) :=
  (itoa 56 value (fun i => convBuf (8 + i)) 16).map fun digits =>
    let startingIndex := strlen (arrayBytes 56 digits)
    let convBuf : Nat → Byte := fun i =>
      if 8 ≤ i then digits (i - 8)
      else if startingIndex ≤ i then 48
      else convBuf i
    (arrayBytes 64 convBuf).drop startingIndex

/-- The string that `%d` puts. -/
def signedDecimal (value : Int) (convBuf : Nat → Byte) : Option (List Byte) :=
  if value < 0 then
    (itoa 35 (-value).toNat (fun i => convBuf (1 + i)) 10).map fun digits =>
      45 :: arrayBytes 35 digits
  else (itoa 36 value.toNat convBuf 10).map (arrayBytes 36)

/-- The conversion `spec` with the argument word `arg`: the string it puts, and
whether it takes the argument.  `strings` is the memory that `%s` reads, and
`convBuf` what lies in the local array. -/
def convert (strings : UInt32 → List Byte) (convBuf : Nat → Byte)
    (alternate : Bool) (spec : Byte) (arg : UInt32) : Option (List Byte × Bool) :=
  if spec = 37 then some ([37], false)
  else if spec = 120 then
    if alternate then (alternateHex arg.toNat convBuf).map fun s => (s, true)
    else (itoa 64 arg.toNat convBuf 16).map fun s => (arrayBytes 64 s, true)
  else if spec = 117 then
    (itoa 36 arg.toNat convBuf 10).map fun s => (arrayBytes 36 s, true)
  else if spec = 100 then
    (signedDecimal (toInt32 arg.toNat) convBuf).map fun s => (s, true)
  else if spec = 115 then some (strings arg, true)
  else some ([], false)

/-- The loop of `printf` at `buf`, `pos` bytes behind `format`, with the
arguments from `esp` on. -/
def printfLoop (strings : UInt32 → List Byte) (convBuf : Nat → Byte)
    (esp : Nat → UInt32) :
    Scan → List Byte → Nat → Nat → Console → Option (Console × Nat)
  | _, [], _, _, _ => none
  | .text, b :: bs, pos, i, c =>
      if b = 0 then some (c, pos)
      else if b = 37 then
        printfLoop strings convBuf esp (.conversion false) bs (pos + 1) i c
      else printfLoop strings convBuf esp .text bs (pos + 1) i (putc c b)
  | .conversion alternate, b :: bs, pos, i, c =>
      if b = 35 then
        printfLoop strings convBuf esp (.conversion true) bs (pos + 1) i c
      else if b = 99 then
        -- putc((uint8_t) *((int32_t *)esp));
        printfLoop strings convBuf esp .text bs (pos + 1) (i + 1)
          (putc c (esp i).toUInt8)
      else
        match convert strings convBuf alternate b (esp i) with
        | none => none
        | some (s, takes) =>
            printfLoop strings convBuf esp .text bs (pos + 1)
              (if takes then i + 1 else i) (puts c s)

/-- `printf`, with the bytes from `format` on and the argument words on the
stack: the console and the return value. -/
def printf (strings : UInt32 → List Byte) (convBuf : Nat → Byte)
    (format : List Byte) (esp : Nat → UInt32) (c : Console) : Option (Console × Nat) :=
  printfLoop strings convBuf esp .text format 0 0 c

/-- `display_printf`. -/
def displayPrintf (strings : UInt32 → List Byte) (convBuf : Nat → Byte)
    (key : List Byte) (esp : Nat → UInt32) (c : Console) : Option Console :=
  (printf strings convBuf key esp (vidMem c c.displayTerminal)).map fun r =>
    let c := updateCursor r.1 r.1.screenX r.1.screenY
    vidMem c c.currentTid

end MongOS.Model
