import Sherry.Model.StringFormat

/-!
# Tokens of dynamic strings

The functions of `sds` that make many strings out of one and one out of many: `sdssplitlen` and
`sdsjoinsds` with a separator, `sdscatrepr` and `sdssplitargs` with quoted arguments. A line is
given with the bytes of its array, and each byte of it that the code tests is read from there.
-/

namespace Sherry

variable (A : Allocator)

/-- The array of strings that is built, `NULL` at the start of `sdssplitargs`. -/
structure TokenArray where
  /-- The block of the array. -/
  block : Option Nat := none
  /-- The size of the block. -/
  size : Nat := 0
  /-- How many pointers it was made for. -/
  slots : Nat := 0
  /-- The strings in the array. -/
  elements : List SdsString := []

/-- `sizeof(sds)`. -/
def sizeofSds : Nat := 8

/-- `s_malloc` or `s_realloc` of the array. -/
def TokenArray.resize (tokens : TokenArray) (slots : Nat) : SdsM TokenArray :=
  match tokens.block with
  | none => do
    let (block, bytes) ← A.malloc .outOfMemory (sizeT (sizeofSds * slots))
    return { tokens with block := some block, size := bytes.length, slots }
  | some old => do
    let (block, bytes) ← A.realloc .outOfMemory old [] (sizeT (sizeofSds * slots))
    return { tokens with block := some block, size := bytes.length, slots }

/-- Assign the next element of the array. -/
def TokenArray.push (tokens : TokenArray) (s : SdsString) : SdsM TokenArray :=
  if sizeofSds * (tokens.elements.length + 1) ≤ tokens.size then
    return { tokens with elements := tokens.elements ++ [s] }
  else throw .overrun

/-- Give some strings back, in order, and then the block of the array. -/
def freeElements : List SdsString → Option Nat → SdsM Unit
  | [], none => return
  | [], some block => Allocator.free block
  | t :: elements, block => do
    sdsfree (some t)
    freeElements elements block

/-- `sdsfreesplitres`. -/
def sdsfreesplitres (tokens : Option TokenArray) : SdsM Unit :=
  match tokens with
  | none => return
  | some tokens => freeElements tokens.elements.reverse tokens.block

/-- The part of `sdssplitlen` behind `cleanup`, for an allocation that failed. -/
def cleanup {α : Type} (tokens : TokenArray) (x : SdsM α) : SdsM α :=
  tryCatch x fun e => do
    freeElements tokens.elements tokens.block
    throw e

/-- Make room in the array of `sdssplitlen` for the next element and the final one. -/
def makeSlots (tokens : TokenArray) : SdsM TokenArray :=
  if tokens.slots < tokens.elements.length + 2 then
    cleanup tokens (tokens.resize A (tokens.slots * 2))
  else return tokens

/-- Make the next element of the array, of `n` bytes of the text. -/
def addToken (tokens : TokenArray) (bytes : List UInt8) (n : Nat) : SdsM TokenArray := do
  let token ← cleanup tokens (sdsnewlen A (.bytes bytes) n)
  tokens.push token

/-- The loop of `sdssplitlen`, from position `j` on, for at most `fuel` bytes, with what it leaves
in `start`. -/
def splitLoop (text sep : List UInt8) :
    (fuel j start : Nat) → TokenArray → SdsM (TokenArray × Nat)
  | 0, _, start, tokens => return (tokens, start)
  | fuel + 1, j, start, tokens =>
    if (j : Int) < text.length - (sep.length - 1) then do
      let tokens ← makeSlots A tokens
      if (sep.length = 1 ∧ text[j]? = sep[0]?) ∨ Bytes.segment text j sep.length = sep then
        let tokens ← addToken A tokens (text.drop start) (j - start)
        splitLoop text sep fuel (j + (sep.length - 1) + 1) (j + sep.length) tokens
      else splitLoop text sep fuel (j + 1) start tokens
    else return (tokens, start)

/-- `sdssplitlen`, with all the bytes of the text and of the separator. -/
def sdssplitlen (text sep : List UInt8) : SdsM (Option TokenArray) :=
  if sep.length < 1 ∨ text.length = 0 then return none
  else do
    let tokens ← TokenArray.resize A {} 5
    let (tokens, start) ← splitLoop A text sep text.length 0 0 tokens
    return some (← addToken A tokens (text.drop start) (text.length - start))

/-- The loop of `sdsjoin` and `sdsjoinsds` over the rest of the array, with how they append an
element and the separator. -/
def joinLoop {α : Type} (add : SdsString → α → SdsM SdsString) (sep : SdsString → SdsM SdsString) :
    List α → SdsString → SdsM SdsString
  | [], join => return join
  | t :: [], join => add join t
  | t :: argv, join => do
    let join ← add join t
    joinLoop add sep argv (← sep join)

/-- `sdsjoin`, of C strings. -/
def sdsjoin (argv : List (List UInt8)) (sep : List UInt8) : SdsM SdsString := do
  joinLoop (sdscat A) (fun join => sdscat A join sep) argv (← sdsempty A)

/-- `sdsjoinsds`. -/
def sdsjoinsds (argv : List SdsString) (sep : List UInt8) : SdsM SdsString := do
  joinLoop (sdscatsds A) (fun join => sdscatlen A join sep) argv (← sdsempty A)

/-- The bytes of a literal. -/
def literal (text : List Char) : List UInt8 := text.map Char.toUInt8

/-- `isprint` of the C locale. -/
def isprint (c : UInt8) : Bool := 32 ≤ c ∧ c < 127

/-- `isspace` of the C locale. -/
def isspace (c : UInt8) : Bool := c = 32 ∨ (9 ≤ c ∧ c ≤ 13)

/-- A digit that `%02x` prints. -/
def hexDigit (n : UInt8) : UInt8 := if n < 10 then '0'.toUInt8 + n else 'a'.toUInt8 + (n - 10)

/-- What one byte adds in the loop of `sdscatrepr`. -/
def reprByte (stack : Vector UInt8 1024) (s : SdsString) (c : UInt8) : SdsM SdsString :=
  if c = '\\'.toUInt8 ∨ c = '"'.toUInt8 then
    sdscatvprintf A 2 stack s (literal ['\\', '%', 'c']) (some ['\\'.toUInt8, c])
  else if c = '\n'.toUInt8 then sdscatlen A s (literal ['\\', 'n'])
  else if c = '\r'.toUInt8 then sdscatlen A s (literal ['\\', 'r'])
  else if c = '\t'.toUInt8 then sdscatlen A s (literal ['\\', 't'])
  else if c = 7 then sdscatlen A s (literal ['\\', 'a'])
  else if c = 8 then sdscatlen A s (literal ['\\', 'b'])
  else if isprint c then sdscatvprintf A 2 stack s (literal ['%', 'c']) (some [c])
  else
    sdscatvprintf A 2 stack s (literal ['\\', 'x', '%', '0', '2', 'x'])
      (some (literal ['\\', 'x'] ++ [hexDigit (c / 16), hexDigit (c % 16)]))

/-- `sdscatrepr`, with what the buffer of `sdscatprintf` on the stack holds before. -/
def sdscatrepr (stack : Vector UInt8 1024) (s : SdsString) (p : List UInt8) : SdsM SdsString := do
  let s ← sdscatlen A s (literal ['"'])
  let s ← p.foldlM (reprByte A stack) s
  sdscatlen A s (literal ['"'])

/-- `is_hex_digit`. -/
def isHexDigit (c : UInt8) : Bool :=
  ('0'.toUInt8 ≤ c ∧ c ≤ '9'.toUInt8) ∨ ('a'.toUInt8 ≤ c ∧ c ≤ 'f'.toUInt8) ∨
    ('A'.toUInt8 ≤ c ∧ c ≤ 'F'.toUInt8)

/-- `hex_digit_to_int`. -/
def hexDigitToInt (c : UInt8) : UInt8 :=
  if '0'.toUInt8 ≤ c ∧ c ≤ '9'.toUInt8 then c - '0'.toUInt8
  else if 'a'.toUInt8 ≤ c ∧ c ≤ 'f'.toUInt8 then c - 'a'.toUInt8 + 10
  else if 'A'.toUInt8 ≤ c ∧ c ≤ 'F'.toUInt8 then c - 'A'.toUInt8 + 10
  else 0

/-- The byte that stands behind a backslash in double quotes, as it is meant. -/
def unescape (c : UInt8) : UInt8 :=
  if c = 'n'.toUInt8 then '\n'.toUInt8
  else if c = 'r'.toUInt8 then '\r'.toUInt8
  else if c = 't'.toUInt8 then '\t'.toUInt8
  else if c = 'b'.toUInt8 then 8
  else if c = 'a'.toUInt8 then 7
  else c

/-- `*(p+i)`, with the bytes of the line from `p` to the end of its array. -/
def peek (p : List UInt8) (i : Nat) : SdsM UInt8 :=
  match p[i]? with
  | some c => return c
  | none => throw .overrun

/-- Where the loop for a token is: the variables `inq` and `insq`. -/
inductive ArgMode
  /-- Outside of quotes. -/
  | plain
  /-- In double quotes, `inq`. -/
  | double
  /-- In single quotes, `insq`. -/
  | single
  deriving DecidableEq, Repr

/-- What one round of the loop for a token does. -/
inductive ArgStep
  /-- Append a byte, with `p` moved on by so many bytes. -/
  | put (c : UInt8) (moved : Nat)
  /-- Go on in quotes. -/
  | enter (mode : ArgMode)
  /-- The token is complete. -/
  | done
  /-- `goto err`. -/
  | err
  deriving DecidableEq, Repr

/-- The test for a hexadecimal escape, one byte after the other. -/
def isHexEscape (p : List UInt8) : SdsM Bool :=
  (peek p 0 <&> (· == '\\'.toUInt8)) <&&> (peek p 1 <&> (· == 'x'.toUInt8)) <&&>
    (peek p 2 <&> isHexDigit) <&&> (peek p 3 <&> isHexDigit)

/-- What follows a closing quote decides. -/
def closeQuote (p : List UInt8) : SdsM ArgStep := do
  let next ← peek p 1
  if next ≠ 0 ∧ ¬ isspace next then return .err else return .done

/-- The branch for double quotes. -/
def doubleStep (p : List UInt8) : SdsM ArgStep := do
  if ← isHexEscape p then
    return .put (hexDigitToInt (← peek p 2) * 16 + hexDigitToInt (← peek p 3)) 3
  else if ← (peek p 0 <&> (· == '\\'.toUInt8)) <&&> (peek p 1 <&> (· != 0)) then
    return .put (unescape (← peek p 1)) 1
  else
    let c ← peek p 0
    if c = '"'.toUInt8 then closeQuote p
    else if c = 0 then return .err
    else return .put c 0

/-- The branch for single quotes. -/
def singleStep (p : List UInt8) : SdsM ArgStep := do
  if ← (peek p 0 <&> (· == '\\'.toUInt8)) <&&> (peek p 1 <&> (· == '\''.toUInt8)) then
    return .put '\''.toUInt8 1
  else
    let c ← peek p 0
    if c = '\''.toUInt8 then closeQuote p
    else if c = 0 then return .err
    else return .put c 0

/-- The bytes that end a token outside of quotes. -/
def endsToken (c : UInt8) : Bool :=
  c = ' '.toUInt8 ∨ c = '\n'.toUInt8 ∨ c = '\r'.toUInt8 ∨ c = '\t'.toUInt8 ∨ c = 0

/-- The branch outside of quotes. -/
def plainStep (p : List UInt8) : SdsM ArgStep := do
  let c ← peek p 0
  if endsToken c then return .done
  else if c = '"'.toUInt8 then return .enter .double
  else if c = '\''.toUInt8 then return .enter .single
  else return .put c 0

/-- One round of the loop for a token. -/
def argStep (mode : ArgMode) (p : List UInt8) : SdsM ArgStep :=
  match mode with
  | .plain => plainStep p
  | .double => doubleStep p
  | .single => singleStep p

/-- `if (*p) p++`. -/
def advance (p : List UInt8) : SdsM (List UInt8) := do
  if (← peek p 0) ≠ 0 then return p.drop 1 else return p

/-- The loop for a token, with the bytes behind it, or nothing when it goes to `err`. -/
def argLoop : (fuel : Nat) → ArgMode → List UInt8 → SdsString →
    SdsM (SdsString × Option (List UInt8))
  | 0, _, _, _ => throw .unfinished
  | fuel + 1, mode, p, current => do
    match ← argStep mode p with
    | .put c moved =>
      let current ← sdscatlen A current [c]
      argLoop fuel mode (← advance (p.drop moved)) current
    | .enter mode => argLoop fuel mode (← advance p) current
    | .done => return (current, some (← advance p))
    | .err => return (current, none)

/-- `while(*p && isspace(*p)) p++`. -/
def skipBlanks : List UInt8 → SdsM (List UInt8)
  | [] => throw .overrun
  | c :: p => if c ≠ 0 ∧ isspace c then skipBlanks p else return c :: p

/-- The return at the end of the line, which gives an array even without arguments. -/
def returnArgs (tokens : TokenArray) : SdsM (Option TokenArray) :=
  match tokens.block with
  | none => do return some (← tokens.resize A 1)
  | some _ => return some tokens

/-- Make room in the array of `sdssplitargs` for one more token, and add it. -/
def addArg (tokens : TokenArray) (token : SdsString) : SdsM TokenArray := do
  let tokens ← tokens.resize A (tokens.elements.length + 1)
  tokens.push token

/-- The loop of `sdssplitargs`. -/
def argsLoop : (fuel : Nat) → List UInt8 → TokenArray → SdsM (Option TokenArray)
  | 0, _, _ => throw .unfinished
  | fuel + 1, p, tokens => do
    let p ← skipBlanks p
    if (← peek p 0) ≠ 0 then
      let (current, rest) ← argLoop A (p.length + 1) .plain p (← sdsempty A)
      match rest with
      | some p => argsLoop fuel p (← addArg A tokens current)
      | none =>
        freeElements tokens.elements.reverse tokens.block
        sdsfree (some current)
        return none
    else returnArgs A tokens

/-- `sdssplitargs`, with the array that `line` points to. -/
def sdssplitargs (line : List UInt8) : SdsM (Option TokenArray) :=
  argsLoop A (line.length + 1) line {}

end Sherry
