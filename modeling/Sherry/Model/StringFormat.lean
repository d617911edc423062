import Sherry.Model.StringEdits

/-!
# Numbers and formats in dynamic strings

The decimal numbers of `sds`, which are written into a small buffer from the last digit on and then
reversed in place, and the two functions that append a formatted text: `sdscatprintf`, which has
the C library write it, and `sdscatfmt`, which writes it itself.
-/

namespace Sherry

/-- `SDS_LLSTR_SIZE`. -/
def sdsLlstrSize : Nat := 21

/-- Assign one byte of a buffer. -/
def putByte (buf : List UInt8) (i : Nat) (c : UInt8) : SdsM (List UInt8) :=
  if i < buf.length then return buf.set i c else throw .overrun

/-- The loop that writes the digits from `p` on, the last one first, into a buffer with as many
bytes `left`. -/
def putDigits : (left : Nat) → List UInt8 → (p : Nat) → UInt64 → SdsM (List UInt8 × Nat)
  | 0, _, _, _ => throw .overrun
  | left + 1, buf, p, v => do
    let buf ← putByte buf p (48 + (v % 10).toUInt8)
    if v / 10 = 0 then return (buf, p + 1) else putDigits left buf (p + 1) (v / 10)

/-- The loop that reverses the bytes from `s` to `p`. -/
def swapBytes : List UInt8 → (s p : Nat) → List UInt8
  | buf, _, 0 => buf
  | buf, s, p + 1 =>
    if s < p + 1 then
      let aux := buf.getD s 0
      swapBytes ((buf.set s (buf.getD (p + 1) 0)).set (p + 1) aux) (s + 1) p
    else buf

/-- The end of `sdsll2str` and `sdsull2str`: the terminator, the reversal and the length. -/
def endNumber (buf : List UInt8) (p : Nat) : SdsM (List UInt8 × Nat) := do
  let buf ← putByte buf p 0
  return (swapBytes buf 0 (p - 1), p)

/-- The magnitude that `sdsll2str` prints, `v`. -/
def magnitude (value : Int64) : UInt64 :=
  if value < 0 then
    if value ≠ Int64.minValue then (-value).toUInt64 else Int64.maxValue.toUInt64 + 1
  else value.toUInt64

/-- `sdsll2str`, with the bytes of the buffer and the length it returns. -/
def sdsll2str (buf : List UInt8) (value : Int64) : SdsM (List UInt8 × Nat) := do
  let (buf, p) ← putDigits buf.length buf 0 (magnitude value)
  if value < 0 then endNumber (← putByte buf p 45) (p + 1) else endNumber buf p

/-- `sdsull2str`. -/
def sdsull2str (buf : List UInt8) (v : UInt64) : SdsM (List UInt8 × Nat) := do
  let (buf, p) ← putDigits buf.length buf 0 v
  endNumber buf p

variable (A : Allocator)

/-- `sdsfromlonglong`, with what the buffer on the stack holds before. -/
def sdsfromlonglong (stack : Vector UInt8 sdsLlstrSize) (value : Int64) : SdsM SdsString := do
  let (buf, len) ← sdsll2str stack.toList value
  sdsnewlen A (.bytes buf) len

/-- A buffer of `sdscatvprintf`: `staticbuf`, or a block. -/
structure PrintBuffer where
  /-- The block, if it is one. -/
  block : Option Nat
  /-- The bytes of the buffer. -/
  bytes : List UInt8

/-- `if (buf != staticbuf) s_free(buf)`. -/
def PrintBuffer.release (buf : PrintBuffer) : SdsM Unit :=
  match buf.block with
  | none => return
  | some block => Allocator.free block

/-- `vsnprintf` of a text into a buffer: as much of the text as fits before a terminator, and the
length of the whole text; or `-1` when there is no text, or it is longer than an `int` says. -/
def vsnprintf (text : Option (List UInt8)) (buf : List UInt8) : List UInt8 × Int :=
  match text with
  | none => (buf, -1)
  | some text =>
    if text.length < 2 ^ 31 then
      (if buf.length = 0 then buf
        else Bytes.overwrite buf 0 (text.take (buf.length - 1) ++ [0]), text.length)
    else (buf, -1)

/-- `s_malloc` of a buffer. -/
def newBuffer (buflen : Nat) : SdsM PrintBuffer := do
  let (block, bytes) ← A.malloc .outOfMemory (sizeT buflen)
  return { block := some block, bytes }

/-- The loop of `sdscatvprintf`, which prints again into a larger buffer when the text did not
fit, followed for a number of rounds. -/
def printLoop (text : Option (List UInt8)) : (rounds : Nat) → PrintBuffer →
    SdsM (PrintBuffer × Nat)
  | 0, _ => throw .unfinished
  | rounds + 1, buf => do
    let (bytes, bufstrlen) := vsnprintf text buf.bytes
    if bufstrlen < 0 then
      buf.release
      throw .formatFailed
    else if bufstrlen ≥ buf.bytes.length then
      buf.release
      printLoop text rounds (← newBuffer A (bufstrlen.toNat + 1))
    else return ({ buf with bytes }, bufstrlen.toNat)

/-- The buffer that `sdscatvprintf` prints into first. -/
def firstBuffer (stack : Vector UInt8 1024) (fmt : List UInt8) : SdsM PrintBuffer :=
  let buflen := (cstr fmt).length * 2
  if buflen > 1024 then newBuffer A buflen else return { block := none, bytes := stack.toList }

/-- The end of `sdscatvprintf`, which appends what was printed and gives the buffer back. -/
def catPrinted (s : SdsString) (buf : PrintBuffer) (bufstrlen : Nat) : SdsM SdsString := do
  let t ← tryCatch (sdscatlen A s (buf.bytes.take bufstrlen)) fun e => do
    buf.release
    throw e
  buf.release
  return t

/-- `sdscatvprintf` and `sdscatprintf`, with what the static buffer holds before and the text that
the format and the arguments make, and the loop followed for a number of rounds. -/
def sdscatvprintf (rounds : Nat) (stack : Vector UInt8 1024) (s : SdsString) (fmt : List UInt8)
    (text : Option (List UInt8)) : SdsM SdsString := do
  let (buf, bufstrlen) ← printLoop A text rounds (← firstBuffer A stack fmt)
  catPrinted A s buf bufstrlen

/-- An argument of `sdscatfmt`. -/
inductive FmtArg
  /-- A C string. -/
  | str (text : List UInt8)
  /-- A dynamic string. -/
  | sds (s : SdsString)
  /-- `int`. -/
  | int (value : Int32)
  /-- `long long`. -/
  | longLong (value : Int64)
  /-- `unsigned int`. -/
  | uint (value : UInt32)
  /-- `unsigned long long`. -/
  | ulongLong (value : UInt64)

/-- The branches of `sdscatfmt` that ask for room where the free space is too small. -/
def fmtRoom (s : SdsString) (short : Bool) (addlen : Nat) : SdsM SdsString :=
  if short then sdsMakeRoomFor A s addlen else return s

/-- The assignments of `sdscatfmt` that append bytes and count them. -/
def fmtPut (s : SdsString) (i : Nat) (bytes : List UInt8) : SdsM SdsString := do
  let s ← s.write i bytes
  return sdsinclen s bytes.length

/-- `va_arg` and the conversion of the argument for a specifier, with what the buffer on the stack
holds before; nothing for a specifier that takes no argument. -/
def fmtArg (stack : Vector UInt8 sdsLlstrSize) (next : UInt8) (args : List FmtArg) :
    SdsM (Option (List UInt8 × List FmtArg)) := do
  if next = 's'.toUInt8 then
    match args with
    | .str text :: args => return some (cstr text, args)
    | _ => throw .badArgument
  else if next = 'S'.toUInt8 then
    match args with
    | .sds t :: args => return some (← t.read 0 (sdslen t), args)
    | _ => throw .badArgument
  else if next = 'i'.toUInt8 then
    match args with
    | .int value :: args =>
      let (buf, l) ← sdsll2str stack.toList value.toInt64
      return some (buf.take l, args)
    | _ => throw .badArgument
  else if next = 'I'.toUInt8 then
    match args with
    | .longLong value :: args =>
      let (buf, l) ← sdsll2str stack.toList value
      return some (buf.take l, args)
    | _ => throw .badArgument
  else if next = 'u'.toUInt8 then
    match args with
    | .uint value :: args =>
      let (buf, l) ← sdsull2str stack.toList value.toUInt64
      return some (buf.take l, args)
    | _ => throw .badArgument
  else if next = 'U'.toUInt8 then
    match args with
    | .ulongLong value :: args =>
      let (buf, l) ← sdsull2str stack.toList value
      return some (buf.take l, args)
    | _ => throw .badArgument
  else return none

/-- The loop of `sdscatfmt` over the rest of the format, with the position `i` of the next byte. -/
def fmtLoop (stack : Vector UInt8 sdsLlstrSize) :
    (f : List UInt8) → SdsString → (i : Nat) → List FmtArg → SdsM (SdsString × Nat)
  | [], s, i, _ => return (s, i)
  | c :: f, s, i, args => do
    let s ← fmtRoom A s (sdsavail s = 0) 1
    if c = '%'.toUInt8 then
      match f with
      | [] => return (s, i)
      | next :: f =>
        match ← fmtArg stack next args with
        | some (str, args) =>
          let s ← fmtRoom A s (sdsavail s < str.length) str.length
          fmtLoop stack f (← fmtPut s i str) (i + str.length) args
        | none => fmtLoop stack f (← fmtPut s i [next]) (i + 1) args
    else fmtLoop stack f (← fmtPut s i [c]) (i + 1) args

/-- `sdscatfmt`, with what its buffer for numbers holds before. -/
def sdscatfmt (stack : Vector UInt8 sdsLlstrSize) (s : SdsString) (fmt : List UInt8)
    (args : List FmtArg) : SdsM SdsString := do
  let initlen := sdslen s
  let s ← sdsMakeRoomFor A s (initlen + (cstr fmt).length * 2)
  let (s, i) ← fmtLoop A stack (cstr fmt) s initlen args
  s.write i [0]

end Sherry
