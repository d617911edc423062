import Sherry.Model.Strings

/-!
# Changing dynamic strings

The functions of `sds` that append to a string, replace it, cut it and map its bytes, where the
code reads and writes them. The C strings a function is given are the bytes before the first null
byte.
-/

namespace Sherry

/-- `strlen(s)`. -/
def strlen (s : SdsString) : Nat := (cstr (s.block.drop s.offset)).length

/-- `sdsupdatelen`. -/
def sdsupdatelen (s : SdsString) : SdsString := sdssetlen s (strlen s)

/-- `sdsclear`. -/
def sdsclear (s : SdsString) : SdsM SdsString := (sdssetlen s 0).write 0 [0]

/-- The conversion of an increment that the assertion of `sdsIncrLen` compares with free space. -/
def SdsType.upward (type : SdsType) (incr : Int) : Int :=
  match type with
  | .type32 => incr % 2 ^ 32
  | .type64 => incr % 2 ^ 64
  | _ => incr

/-- The conversion of a decrement that the assertion of `sdsIncrLen` compares with the length. -/
def SdsType.downward (type : SdsType) (incr : Int) : Int :=
  match type with
  | .type64 => -incr % 2 ^ 64
  | _ => -incr % 2 ^ 32

/-- `sdsIncrLen`. -/
def sdsIncrLen (s : SdsString) (incr : Int) : SdsM SdsString :=
  match s.type with
  | some .type5 =>
    let oldlen : Int := s.type5Len
    if (incr > 0 ∧ oldlen + incr < 32) ∨
        (incr < 0 ∧ oldlen ≥ SdsType.type5.downward incr) then
      if oldlen + incr < 0 then throw .overrun
      else
        let len := (oldlen + incr).toNat
        (s.setType5Len len).write len [0]
    else throw .assertFailed
  | some type =>
    let len := s.hdrLen type
    let avail : Int := s.hdrAlloc type - len
    if (incr ≥ 0 ∧ avail ≥ type.upward incr) ∨ (incr < 0 ∧ len ≥ type.downward incr) then
      let len := ((len + incr) % 256 ^ type.width).toNat
      (s.setHdrLen type len).write len [0]
    else throw .assertFailed
  | none => s.write 0 [0]

/-- `strchr(cset, c)`, which also finds the terminator. -/
def strchr (cset : List UInt8) (c : UInt8) : Bool := c = 0 ∨ c ∈ cstr cset

/-- The first loop of `sdstrim`, from a position on, for at most `fuel` bytes. -/
def trimStart (text cset : List UInt8) : Nat → Nat → Nat
  | 0, sp => sp
  | fuel + 1, sp =>
    if sp < text.length ∧ strchr cset (text.getD sp 0) then trimStart text cset fuel (sp + 1)
    else sp

/-- The second loop of `sdstrim`, down from a position, for at most `fuel` bytes. -/
def trimEnd (text cset : List UInt8) (sp : Int) : Nat → Int → Int
  | 0, ep => ep
  | fuel + 1, ep =>
    if ep > sp ∧ strchr cset (text.getD ep.toNat 0) then trimEnd text cset sp fuel (ep - 1) else ep

/-- The end of `sdstrim` and `sdsrange`, which moves bytes to the front, writes the terminator
behind them and sets the length. -/
def keepRange (s : SdsString) (moves : Bool) (sp len : Nat) : SdsM SdsString := do
  let s ← if moves then do s.write 0 (← s.read sp len) else pure s
  let s ← s.write len [0]
  return sdssetlen s len

/-- `sdstrim`. The loops read the string from `s` to its last byte at `end`. -/
def sdstrim (s : SdsString) (cset : List UInt8) : SdsM SdsString := do
  let text ← s.read 0 (sdslen s)
  let sp := trimStart text cset text.length 0
  let ep := trimEnd text cset sp text.length (text.length - 1)
  keepRange s (sp != 0) sp (ep - sp + 1).toNat

/-- An index of `sdsrange`, from the end when it is negative, but not before the start. -/
def rangeIndex (len i : Int) : Int := if i < 0 then max 0 (len + i) else i

/-- The length that `sdsrange` computes from the two indexes. -/
def rangeLength (len start stop : Int) : Int :=
  let newlen := if start > stop then 0 else stop - start + 1
  if newlen ≠ 0 then
    if start ≥ len then 0 else if stop ≥ len then len - 1 - start + 1 else newlen
  else newlen

/-- `sdsrange`. -/
def sdsrange (s : SdsString) (start stop : Int) : SdsM SdsString := do
  let len := sdslen s
  if len = 0 then return s
  else
    let start := rangeIndex len start
    let newlen := rangeLength len start (rangeIndex len stop)
    keepRange s (start != 0 && newlen != 0) start.toNat newlen.toNat

/-- The loops of `sdstolower`, `sdstoupper` and `sdsmapchars` over the bytes of a string. -/
def mapBytes (f : UInt8 → UInt8) (s : SdsString) : SdsM SdsString := do
  let text ← s.read 0 (sdslen s)
  s.write 0 (text.map f)

/-- `tolower` of the C locale. -/
def tolower (c : UInt8) : UInt8 := if 65 ≤ c ∧ c ≤ 90 then c + 32 else c

/-- `toupper` of the C locale. -/
def toupper (c : UInt8) : UInt8 := if 97 ≤ c ∧ c ≤ 122 then c - 32 else c

/-- `sdstolower`. -/
def sdstolower (s : SdsString) : SdsM SdsString := mapBytes tolower s

/-- `sdstoupper`. -/
def sdstoupper (s : SdsString) : SdsM SdsString := mapBytes toupper s

/-- The inner loop of `sdsmapchars`: the first of the bytes `fromSet` that matches decides. -/
def mapchar : List UInt8 → List UInt8 → UInt8 → UInt8
  | a :: fromSet, b :: toSet, c => if c = a then b else mapchar fromSet toSet c
  | _, _, c => c

/-- `sdsmapchars`, with the `setlen` bytes of `from` and of `to`. -/
def sdsmapchars (s : SdsString) (fromSet toSet : List UInt8) : SdsM SdsString :=
  mapBytes (mapchar fromSet toSet) s

/-- `memcmp` of two lists of one length, as a sign. -/
def memcmp : List UInt8 → List UInt8 → Int
  | a :: as, b :: bs => if a < b then -1 else if b < a then 1 else memcmp as bs
  | _, _ => 0

/-- `sdscmp`. -/
def sdscmp (s t : SdsString) : SdsM Int := do
  let minlen := if sdslen s < sdslen t then sdslen s else sdslen t
  let cmp := memcmp (← s.read 0 minlen) (← t.read 0 minlen)
  if cmp = 0 then return if sdslen s > sdslen t then 1 else if sdslen s < sdslen t then -1 else 0
  else return cmp

variable (A : Allocator)

/-- `sdsgrowzero`. -/
def sdsgrowzero (s : SdsString) (len : Nat) : SdsM SdsString := do
  let curlen := sdslen s
  if len ≤ curlen then return s
  else
    let s ← sdsMakeRoomFor A s (len - curlen)
    let s ← s.write curlen (List.replicate (len - curlen + 1) 0)
    return sdssetlen s len

/-- `sdscatlen`. -/
def sdscatlen (s : SdsString) (t : List UInt8) : SdsM SdsString := do
  let curlen := sdslen s
  let s ← sdsMakeRoomFor A s t.length
  let s ← s.write curlen t
  (sdssetlen s (curlen + t.length)).write (curlen + t.length) [0]

/-- `sdscat`. -/
def sdscat (s : SdsString) (t : List UInt8) : SdsM SdsString := sdscatlen A s (cstr t)

/-- `sdscatsds`. -/
def sdscatsds (s t : SdsString) : SdsM SdsString := do
  sdscatlen A s (← t.read 0 (sdslen t))

/-- `sdscpylen`. -/
def sdscpylen (s : SdsString) (t : List UInt8) : SdsM SdsString := do
  let s ←
    if sdsalloc s < t.length then sdsMakeRoomFor A s (t.length - sdslen s) else pure s
  let s ← s.write 0 t
  let s ← s.write t.length [0]
  return sdssetlen s t.length

/-- `sdscpy`. -/
def sdscpy (s : SdsString) (t : List UInt8) : SdsM SdsString := sdscpylen A s (cstr t)

end Sherry
