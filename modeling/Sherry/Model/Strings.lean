import Sherry.Library.Allocator
import Sherry.Library.Bytes

/-!
# Dynamic strings

The payload of a message is a string of the library `sds`: a block with a packed header, the
bytes of the string, a null terminator and free space. The pointer that callers hold points
behind the header, whose last byte tells how wide the fields before it are. The functions read
and write the bytes of the block where the code does. A function that would touch a byte outside
of its block stops, and so does one whose allocation fails.
-/

namespace Sherry

/-- What stops a function on strings. -/
inductive SdsFault
  /-- The allocator refused; the function returns `NULL`. -/
  | outOfMemory
  /-- A byte outside of the block is read or written. -/
  | overrun
  /-- An assertion fails. -/
  | assertFailed
  /-- `s_free` or `s_realloc` is given a pointer that is not the start of a block. -/
  | invalidFree
  /-- `vsnprintf` fails; the function returns `NULL`. -/
  | formatFailed
  /-- An argument is missing or has another type than the format says. -/
  | badArgument
  /-- A loop goes on after the number of rounds that it is followed for. -/
  | unfinished
  deriving DecidableEq, Repr

/-- Functions on strings. -/
abbrev SdsM : Type → Type := Allocating SdsFault

/-- `SDS_TYPE_5` to `SDS_TYPE_64`. -/
inductive SdsType
  | type5
  | type8
  | type16
  | type32
  | type64
  deriving DecidableEq, Repr

namespace SdsType

/-- The value of the macro. -/
def code : SdsType → Nat
  | type5 => 0
  | type8 => 1
  | type16 => 2
  | type32 => 3
  | type64 => 4

/-- The type in the flags byte, `flags & SDS_TYPE_MASK`; nothing for a value without a case. -/
def ofFlags (flags : UInt8) : Option SdsType :=
  match (flags &&& 7).toNat with
  | 0 => some type5
  | 1 => some type8
  | 2 => some type16
  | 3 => some type32
  | 4 => some type64
  | _ => none

/-- The bytes of `len`, and of `alloc`; type 5 has neither field. -/
def width : SdsType → Nat
  | type5 => 0
  | type8 => 1
  | type16 => 2
  | type32 => 4
  | type64 => 8

end SdsType

/-- `SDS_MAX_PREALLOC`. -/
def sdsMaxPrealloc : Nat := 1024 * 1024

/-- `size_t` arithmetic. -/
def sizeT (n : Nat) : Nat := n % 2 ^ 64

/-- `sdsHdrSize` of a type. -/
def sdsHdrSize : SdsType → Nat
  | .type5 => 1
  | .type8 => 3
  | .type16 => 5
  | .type32 => 9
  | .type64 => 17

/-- `sdsReqType`. -/
def sdsReqType (size : Nat) : SdsType :=
  if size < 2 ^ 5 then .type5
  else if size < 2 ^ 8 then .type8
  else if size < 2 ^ 16 then .type16
  else if size < 2 ^ 32 then .type32
  else .type64

/-- The C string at the start of some bytes. -/
def cstr (bytes : List UInt8) : List UInt8 := bytes.takeWhile (· ≠ 0)

/-- `sds`: the pointer to the bytes, with the block it points into. -/
structure SdsString where
  /-- The block. -/
  base : Nat
  /-- The bytes of the block. -/
  block : List UInt8
  /-- How far behind the start of the block the pointer points. -/
  offset : Nat
  deriving DecidableEq, Repr

namespace SdsString

/-- `s[-1]`. -/
def flags (s : SdsString) : UInt8 := s.block.getD (s.offset - 1) 0

/-- Assign `s[-1]`. -/
def setFlags (s : SdsString) (flags : Nat) : SdsString :=
  { s with block := Bytes.overwrite s.block (s.offset - 1) [UInt8.ofNat flags] }

/-- The type of the header. -/
def type (s : SdsString) : Option SdsType := SdsType.ofFlags s.flags

/-- `sdsHdrSize(s[-1])`. -/
def hdrSize (s : SdsString) : Nat := s.type.elim 0 sdsHdrSize

/-- `SDS_TYPE_5_LEN(s[-1])`. -/
def type5Len (s : SdsString) : Nat := s.flags.toNat >>> 3

/-- Assign the length of a header of type 5. -/
def setType5Len (s : SdsString) (n : Nat) : SdsString :=
  s.setFlags (SdsType.type5.code ||| n <<< 3)

/-- `SDS_HDR(T,s)->len`. -/
def hdrLen (s : SdsString) (type : SdsType) : Nat :=
  Bytes.value (Bytes.segment s.block (s.offset - sdsHdrSize type) type.width)

/-- Assign `SDS_HDR(T,s)->len`. -/
def setHdrLen (s : SdsString) (type : SdsType) (n : Nat) : SdsString :=
  { s with
    block := Bytes.overwrite s.block (s.offset - sdsHdrSize type) (Bytes.little type.width n) }

/-- `SDS_HDR(T,s)->alloc`. -/
def hdrAlloc (s : SdsString) (type : SdsType) : Nat :=
  Bytes.value (Bytes.segment s.block (s.offset - sdsHdrSize type + type.width) type.width)

/-- Assign `SDS_HDR(T,s)->alloc`. -/
def setHdrAlloc (s : SdsString) (type : SdsType) (n : Nat) : SdsString :=
  { s with
    block := Bytes.overwrite s.block (s.offset - sdsHdrSize type + type.width)
      (Bytes.little type.width n) }

/-- Read the bytes `s[i]` to `s[i+n-1]`. -/
def read (s : SdsString) (i n : Nat) : SdsM (List UInt8) :=
  if s.offset + i + n ≤ s.block.length then return Bytes.segment s.block (s.offset + i) n
  else throw .overrun

/-- Write bytes from `s[i]` on. -/
def write (s : SdsString) (i : Nat) (bytes : List UInt8) : SdsM SdsString :=
  if s.offset + i + bytes.length ≤ s.block.length then
    return { s with block := Bytes.overwrite s.block (s.offset + i) bytes }
  else throw .overrun

end SdsString

/-- `sdslen`. -/
def sdslen (s : SdsString) : Nat :=
  match s.type with
  | some .type5 => s.type5Len
  | some type => s.hdrLen type
  | none => 0

/-- `sdsavail`. -/
def sdsavail (s : SdsString) : Nat :=
  match s.type with
  | some .type5 => 0
  | some type => s.hdrAlloc type - s.hdrLen type
  | none => 0

/-- `sdssetlen`. -/
def sdssetlen (s : SdsString) (newlen : Nat) : SdsString :=
  match s.type with
  | some .type5 => s.setType5Len newlen
  | some type => s.setHdrLen type newlen
  | none => s

/-- `sdsinclen`. -/
def sdsinclen (s : SdsString) (inc : Nat) : SdsString :=
  match s.type with
  | some .type5 => s.setType5Len ((s.type5Len + inc) % 2 ^ 8)
  | some type => s.setHdrLen type (s.hdrLen type + inc)
  | none => s

/-- `sdsalloc`. -/
def sdsalloc (s : SdsString) : Nat :=
  match s.type with
  | some .type5 => s.type5Len
  | some type => s.hdrAlloc type
  | none => 0

/-- `sdssetalloc`. -/
def sdssetalloc (s : SdsString) (newlen : Nat) : SdsString :=
  match s.type with
  | some .type5 => s
  | some type => s.setHdrAlloc type newlen
  | none => s

/-- `sdsAllocSize`. -/
def sdsAllocSize (s : SdsString) : Nat := s.hdrSize + sdsalloc s + 1

variable (A : Allocator)

/-- `s_free` of the block of a string. -/
def sFree (s : SdsString) : SdsM Unit :=
  if s.hdrSize = s.offset then Allocator.free s.base else throw .invalidFree

/-- `s_realloc` of the block of a string. -/
def sRealloc (s : SdsString) (n : Nat) : SdsM (Nat × List UInt8) :=
  if s.hdrSize = s.offset then A.realloc .outOfMemory s.base s.block n else throw .invalidFree

/-- What the parameter `init` of `sdsnewlen` points to. -/
inductive SdsInit
  /-- `SDS_NOINIT`. -/
  | noinit
  /-- `NULL`. -/
  | null
  /-- These bytes. -/
  | bytes (content : List UInt8)
  deriving DecidableEq, Repr

/-- The type of header that `sdsnewlen` takes for a length. -/
def newType (initlen : Nat) : SdsType :=
  if sdsReqType initlen = .type5 ∧ initlen = 0 then .type8 else sdsReqType initlen

/-- The switch of `sdsnewlen` that fills in the header. -/
def initHeader (s : SdsString) (type : SdsType) (initlen : Nat) : SdsString :=
  match type with
  | .type5 => s.setType5Len initlen
  | type => ((s.setHdrLen type initlen).setHdrAlloc type initlen).setFlags type.code

/-- The end of `sdsnewlen`, which copies the bytes that are given and writes the terminator. -/
def initContent (s : SdsString) (init : SdsInit) (initlen : Nat) : SdsM SdsString :=
  match init with
  | .bytes content => do
    if initlen ≤ content.length then
      let s ← s.write 0 (content.take initlen)
      s.write initlen [0]
    else throw .overrun
  | _ => s.write initlen [0]

/-- `sdsnewlen`. -/
def sdsnewlen (init : SdsInit) (initlen : Nat) : SdsM SdsString := do
  let type := newType initlen
  let hdrlen := sdsHdrSize type
  let (base, block) ← A.malloc .outOfMemory (sizeT (hdrlen + initlen + 1))
  let block := if init = .null then List.replicate block.length 0 else block
  initContent (initHeader { base, block, offset := hdrlen } type initlen) init initlen

/-- `sdsempty`. -/
def sdsempty : SdsM SdsString := sdsnewlen A (.bytes []) 0

/-- `sdsnew`. -/
def sdsnew (init : Option (List UInt8)) : SdsM SdsString :=
  match init with
  | none => sdsnewlen A .null 0
  | some text => sdsnewlen A (.bytes (cstr text)) (cstr text).length

/-- `sdsdup`. -/
def sdsdup (s : SdsString) : SdsM SdsString :=
  sdsnewlen A (.bytes (s.block.drop s.offset)) (sdslen s)

/-- `sdsfree`. -/
def sdsfree (s : Option SdsString) : SdsM Unit :=
  match s with
  | none => return
  | some s => sFree s

/-- The branch of `sdsMakeRoomFor` and `sdsRemoveFreeSpace` that keeps the header. -/
def resizeBlock (s : SdsString) (hdrlen newlen : Nat) : SdsM SdsString := do
  let (base, block) ← sRealloc A s (sizeT (hdrlen + newlen + 1))
  return sdssetalloc { base, block, offset := hdrlen } newlen

/-- The branch of `sdsMakeRoomFor` and `sdsRemoveFreeSpace` that copies the string behind a
header of another type. -/
def moveBlock (s : SdsString) (type : SdsType) (newlen : Nat) : SdsM SdsString := do
  let len := sdslen s
  let hdrlen := sdsHdrSize type
  let (base, block) ← A.malloc .outOfMemory (sizeT (hdrlen + newlen + 1))
  let content ← s.read 0 (len + 1)
  let new ← SdsString.write { base, block, offset := hdrlen } 0 content
  sFree s
  return sdssetalloc (sdssetlen (new.setFlags type.code) len) newlen

/-- The room that `sdsMakeRoomFor` asks for. -/
def prealloc (reqlen : Nat) : Nat :=
  sizeT (if reqlen < sdsMaxPrealloc then reqlen * 2 else reqlen + sdsMaxPrealloc)

/-- The type of header that `sdsMakeRoomFor` takes for a room. -/
def roomType (newlen : Nat) : SdsType :=
  if sdsReqType newlen = .type5 then .type8 else sdsReqType newlen

/-- `sdsMakeRoomFor`. -/
def sdsMakeRoomFor (s : SdsString) (addlen : Nat) : SdsM SdsString := do
  if sdsavail s ≥ addlen then return s
  else
    let reqlen := sizeT (sdslen s + addlen)
    let newlen := prealloc reqlen
    let type := roomType newlen
    let hdrlen := sdsHdrSize type
    if sizeT (hdrlen + newlen + 1) > reqlen then
      if s.type = some type then resizeBlock A s hdrlen newlen else moveBlock A s type newlen
    else throw .assertFailed

/-- `sdsRemoveFreeSpace`. -/
def sdsRemoveFreeSpace (s : SdsString) : SdsM SdsString :=
  if sdsavail s = 0 then return s
  else
    let len := sdslen s
    let type := sdsReqType len
    if s.type = some type ∨ type.code > SdsType.type8.code then resizeBlock A s s.hdrSize len
    else moveBlock A s type len

end Sherry
