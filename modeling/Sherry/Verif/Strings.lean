import Sherry.Model.Strings

/-!
# The layout of dynamic strings

A string in memory is a header, the bytes of the string, a null terminator and free space, up to
the end of its block. Each function of the header reads or changes one field of it; the bytes
behind the header never move it, and no field is too narrow for what it holds.
-/

namespace Sherry

open Std.Do

set_option mvcgen.warning false

/-- The bits of the length field. -/
def SdsType.bits : SdsType → Nat
  | .type5 => 5
  | .type8 => 8
  | .type16 => 16
  | .type32 => 32
  | .type64 => 64

/-- The flags byte, which for type 5 holds the length too. -/
def SdsType.flags (type : SdsType) (len : Nat) : UInt8 :=
  match type with
  | .type5 => UInt8.ofNat (len <<< 3)
  | type => UInt8.ofNat type.code

/-- A block starts with the fields of a header of the type, and the pointer points behind it. -/
structure Fields (s : SdsString) (type : SdsType) (len alloc : Nat) (flags : UInt8)
    (buf : List UInt8) : Prop where
  /-- The pointer points behind the header. -/
  offset : s.offset = sdsHdrSize type
  /-- The fields, the flags byte and the bytes behind the header. -/
  block : s.block =
    Bytes.little type.width len ++ (Bytes.little type.width alloc ++ ([flags] ++ buf))

/-- The fields hold a length and a size, and the flags byte holds the type. -/
structure Headed (s : SdsString) (type : SdsType) (len alloc : Nat) (buf : List UInt8) : Prop
    extends Fields s type len alloc (type.flags len) buf where
  /-- The length fits into its field. -/
  len_fits : len < 2 ^ type.bits
  /-- The size fits into its field. -/
  alloc_fits : alloc < 2 ^ type.bits

/-- The bits of a field with bytes of its own. -/
theorem SdsType.bits_eq {type : SdsType} (wide : type ≠ .type5) :
    2 ^ type.bits = 256 ^ type.width := by
  cases type <;> first | rfl | contradiction

/-- The size of a header is that of two fields and the flags byte. -/
theorem sdsHdrSize_eq (type : SdsType) : sdsHdrSize type = type.width + type.width + 1 := by
  cases type <;> rfl

/-- The flags byte tells the type. -/
theorem SdsType.ofFlags_flags {type : SdsType} {len : Nat} (fits : len < 2 ^ type.bits) :
    SdsType.ofFlags (type.flags len) = some type := by
  have five : ∀ n < 2 ^ 5, SdsType.ofFlags (UInt8.ofNat (n <<< 3)) = some .type5 := by decide
  cases type
  case type5 => exact five len fits
  all_goals simp [flags, code, ofFlags]

namespace Fields

variable {s : SdsString} {type : SdsType} {len alloc n : Nat} {flags : UInt8} {buf : List UInt8}

/-- Whatever a block starts with are some fields. -/
theorem of_block (offset : s.offset = sdsHdrSize type) (size : sdsHdrSize type ≤ s.block.length) :
    ∃ len alloc flags, len < 256 ^ type.width ∧ alloc < 256 ^ type.width ∧
      Fields s type len alloc flags (s.block.drop s.offset) := by
  have whole : type.width + type.width < s.block.length := by
    rw [sdsHdrSize_eq] at size
    exact size
  have first := Bytes.little_value (s.block.take type.width)
  have second := Bytes.little_value ((s.block.drop type.width).take type.width)
  have small := Bytes.value_lt (s.block.take type.width)
  have small' := Bytes.value_lt ((s.block.drop type.width).take type.width)
  rw [List.length_take, Nat.min_eq_left (by omega)] at first small
  rw [List.length_take, List.length_drop, Nat.min_eq_left (by omega)] at second small'
  refine ⟨_, _, s.block[type.width + type.width], small, small', offset, ?_⟩
  rw [first, second, offset, sdsHdrSize_eq, List.singleton_append, List.getElem_cons_drop,
    ← List.drop_drop, List.take_append_drop, List.take_append_drop]

/-- Assigning the length changes nothing else. -/
theorem setHdrLen (fields : Fields s type len alloc flags buf) :
    Fields (s.setHdrLen type n) type n alloc flags buf := by
  refine ⟨fields.offset, ?_⟩
  have same : (Bytes.little type.width n).length = (Bytes.little type.width len).length := by
    rw [Bytes.length_little, Bytes.length_little]
  show Bytes.overwrite s.block (s.offset - sdsHdrSize type) (Bytes.little type.width n) = _
  rw [fields.block, fields.offset, Nat.sub_self, Bytes.overwrite_left same]

/-- Assigning the size changes nothing else. -/
theorem setHdrAlloc (fields : Fields s type len alloc flags buf) :
    Fields (s.setHdrAlloc type n) type len n flags buf := by
  refine ⟨fields.offset, ?_⟩
  have same : (Bytes.little type.width n).length = (Bytes.little type.width alloc).length := by
    rw [Bytes.length_little, Bytes.length_little]
  have behind := Bytes.overwrite_append_right (Bytes.little type.width len)
    (Bytes.little type.width alloc ++ ([flags] ++ buf)) 0 (Bytes.little type.width n)
  rw [Bytes.length_little, Bytes.overwrite_left same, Nat.add_zero] at behind
  show Bytes.overwrite s.block (s.offset - sdsHdrSize type + type.width) _ = _
  rw [fields.block, fields.offset, Nat.sub_self, Nat.zero_add, behind]

/-- Assigning the flags byte changes nothing else. -/
theorem setFlags (fields : Fields s type len alloc flags buf) :
    Fields (s.setFlags n) type len alloc (UInt8.ofNat n) buf := by
  refine ⟨fields.offset, ?_⟩
  have behind := Bytes.overwrite_append_right
    (Bytes.little type.width len ++ Bytes.little type.width alloc) ([flags] ++ buf) 0
    [UInt8.ofNat n]
  rw [List.length_append, Bytes.length_little, Bytes.length_little, Nat.add_zero,
    Bytes.overwrite_left (by rfl), List.append_assoc, List.append_assoc] at behind
  show Bytes.overwrite s.block (s.offset - 1) _ = _
  rw [fields.block, fields.offset, sdsHdrSize_eq, Nat.add_sub_cancel, behind]

/-- Assigning the length of a header of type 5 changes nothing else. -/
theorem setType5Len (fields : Fields s .type5 len alloc flags buf) :
    Fields (s.setType5Len n) .type5 n alloc (SdsType.type5.flags n) buf := by
  have same : s.setType5Len n = s.setFlags (n <<< 3) := by
    rw [SdsString.setType5Len, SdsType.code, Nat.zero_or]
  rw [same]
  exact ⟨fields.offset, fields.setFlags.block⟩

/-- The flags byte. -/
theorem flags_eq (fields : Fields s type len alloc flags buf) : s.flags = flags := by
  rw [SdsString.flags, fields.block, fields.offset, sdsHdrSize_eq, Nat.add_sub_cancel]
  simp [List.getD]

/-- Bytes behind the header are overwritten without changing it. -/
theorem overwrite (fields : Fields s type len alloc flags buf) (i : Nat) (bytes : List UInt8) :
    Fields { s with block := Bytes.overwrite s.block (s.offset + i) bytes } type len alloc flags
      (Bytes.overwrite buf i bytes) := by
  refine ⟨fields.offset, ?_⟩
  have size : (Bytes.little type.width len ++ (Bytes.little type.width alloc ++ [flags])).length =
      sdsHdrSize type := by
    simp [sdsHdrSize_eq, Nat.add_assoc]
  have behind := Bytes.overwrite_append_right
    (Bytes.little type.width len ++ (Bytes.little type.width alloc ++ [flags])) buf i bytes
  rw [size] at behind
  simpa only [fields.block, fields.offset, List.append_assoc] using behind

end Fields

namespace Headed

variable {s : SdsString} {type : SdsType} {len alloc n : Nat} {buf : List UInt8}

/-- Once its flags byte holds the type, a block has a header of that type. -/
theorem of_flags (offset : s.offset = sdsHdrSize type) (size : sdsHdrSize type ≤ s.block.length) :
    ∃ len alloc, Headed (s.setFlags type.code) type len alloc (s.block.drop s.offset) := by
  obtain ⟨len, alloc, flags, len_fits, alloc_fits, fields⟩ := Fields.of_block offset size
  by_cases wide : type = .type5
  · subst wide
    exact ⟨0, 0, ⟨offset, fields.setFlags.block⟩, by decide, by decide⟩
  · have code : type.flags len = UInt8.ofNat type.code := by
      cases type <;> first | rfl | contradiction
    rw [← SdsType.bits_eq wide] at len_fits alloc_fits
    exact ⟨len, alloc, code ▸ fields.setFlags, len_fits, alloc_fits⟩

/-- The flags byte tells the type. -/
theorem type_eq (headed : Headed s type len alloc buf) : s.type = some type := by
  rw [SdsString.type, headed.flags_eq]
  exact SdsType.ofFlags_flags headed.len_fits

/-- The length in a header of type 5. -/
theorem type5Len_eq (headed : Headed s .type5 len alloc buf) : s.type5Len = len := by
  have five : ∀ n < 2 ^ 5, (UInt8.ofNat (n <<< 3)).toNat >>> 3 = n := by decide
  rw [SdsString.type5Len, headed.flags_eq]
  exact five len headed.len_fits

/-- The field of the length. -/
theorem hdrLen_eq (headed : Headed s type len alloc buf) (wide : type ≠ .type5) :
    s.hdrLen type = len := by
  have first := Bytes.segment_left (Bytes.little type.width len)
    (Bytes.little type.width alloc ++ ([type.flags len] ++ buf))
  rw [Bytes.length_little] at first
  rw [SdsString.hdrLen, headed.block, headed.offset, Nat.sub_self, first]
  exact Bytes.value_little_of_lt (SdsType.bits_eq wide ▸ headed.len_fits)

/-- The field of the size. -/
theorem hdrAlloc_eq (headed : Headed s type len alloc buf) (wide : type ≠ .type5) :
    s.hdrAlloc type = alloc := by
  have second := Bytes.segment_append_right (Bytes.little type.width len)
    (Bytes.little type.width alloc ++ ([type.flags len] ++ buf)) 0 type.width
  have first := Bytes.segment_left (Bytes.little type.width alloc) ([type.flags len] ++ buf)
  rw [Bytes.length_little] at first second
  rw [Nat.add_zero] at second
  rw [SdsString.hdrAlloc, headed.block, headed.offset, Nat.sub_self, Nat.zero_add,
    second.trans first]
  exact Bytes.value_little_of_lt (SdsType.bits_eq wide ▸ headed.alloc_fits)

/-- `sdslen` is the length. -/
theorem sdslen_eq (headed : Headed s type len alloc buf) : sdslen s = len := by
  rw [sdslen, headed.type_eq]
  cases type
  case type5 => exact headed.type5Len_eq
  all_goals exact headed.hdrLen_eq (by decide)

/-- `sdsalloc` is the size, except that type 5 has no size but its length. -/
theorem sdsalloc_eq (headed : Headed s type len alloc buf) :
    sdsalloc s = if type = .type5 then len else alloc := by
  rw [sdsalloc, headed.type_eq]
  cases type
  case type5 => exact headed.type5Len_eq
  all_goals exact headed.hdrAlloc_eq (by decide)

/-- `sdsavail` is the free space, of which type 5 has none. -/
theorem sdsavail_eq (headed : Headed s type len alloc buf) :
    sdsavail s = if type = .type5 then 0 else alloc - len := by
  rw [sdsavail, headed.type_eq]
  cases type
  case type5 => rfl
  all_goals exact congrArg₂ _ (headed.hdrAlloc_eq (by decide)) (headed.hdrLen_eq (by decide))

/-- `sdssetlen` sets the length. -/
theorem sdssetlen (headed : Headed s type len alloc buf) (fits : n < 2 ^ type.bits) :
    Headed (sdssetlen s n) type n alloc buf := by
  rw [Sherry.sdssetlen, headed.type_eq]
  cases type
  case type5 => exact ⟨headed.setType5Len, fits, headed.alloc_fits⟩
  all_goals exact ⟨headed.setHdrLen, fits, headed.alloc_fits⟩

/-- `sdssetalloc` sets the size. -/
theorem sdssetalloc (headed : Headed s type len alloc buf) (wide : type ≠ .type5)
    (fits : n < 2 ^ type.bits) : Headed (sdssetalloc s n) type len n buf := by
  rw [Sherry.sdssetalloc, headed.type_eq]
  cases type
  case type5 => contradiction
  all_goals exact ⟨headed.setHdrAlloc, headed.len_fits, fits⟩

/-- `sdsinclen` adds to the length. -/
theorem sdsinclen (headed : Headed s type len alloc buf) (fits : len + n < 2 ^ type.bits) :
    Headed (sdsinclen s n) type (len + n) alloc buf := by
  rw [Sherry.sdsinclen, headed.type_eq]
  cases type
  case type5 =>
    have small : (s.type5Len + n) % 2 ^ 8 = len + n := by
      rw [headed.type5Len_eq]
      exact Nat.mod_eq_of_lt (fits.trans (by decide))
    show Headed (s.setType5Len ((s.type5Len + n) % 2 ^ 8)) .type5 (len + n) alloc buf
    rw [small]
    exact ⟨headed.setType5Len, fits, headed.alloc_fits⟩
  all_goals
    simp only [headed.hdrLen_eq (by decide)]
    exact ⟨headed.setHdrLen, fits, headed.alloc_fits⟩

/-- `sdsHdrSize(s[-1])` is how far the pointer points into the block. -/
theorem hdrSize_eq (headed : Headed s type len alloc buf) : s.hdrSize = s.offset := by
  rw [SdsString.hdrSize, headed.type_eq, headed.offset]
  rfl

/-- Bytes behind the header are overwritten without changing it. -/
theorem overwrite (headed : Headed s type len alloc buf) (i : Nat) (bytes : List UInt8) :
    Headed { s with block := Bytes.overwrite s.block (s.offset + i) bytes } type len alloc
      (Bytes.overwrite buf i bytes) :=
  ⟨headed.toFields.overwrite i bytes, headed.len_fits, headed.alloc_fits⟩

/-- The bytes behind the header. -/
theorem drop_offset (headed : Headed s type len alloc buf) : s.block.drop s.offset = buf := by
  have whole : s.block = (Bytes.little type.width len ++ (Bytes.little type.width alloc ++
      [type.flags len])) ++ buf := by
    simpa only [List.append_assoc] using headed.block
  rw [whole, headed.offset, sdsHdrSize_eq]
  exact List.drop_left' (by simp [Nat.add_assoc])

/-- The size of the block. -/
theorem length_block (headed : Headed s type len alloc buf) :
    s.block.length = s.offset + buf.length := by
  have behind := congrArg List.length headed.drop_offset
  have fields := congrArg List.length headed.block
  have offset := headed.offset
  rw [sdsHdrSize_eq] at offset
  simp only [List.length_append, Bytes.length_little, List.length_singleton] at fields
  omega

/-- A block that agrees with another one on the header has the same header. -/
theorem carry (headed : Headed s type len alloc buf) (base : Nat) {bytes : List UInt8} {k : Nat}
    (same : bytes.take (s.offset + k) = s.block.take (s.offset + k)) :
    ∃ rest, Headed { base, block := bytes, offset := s.offset } type len alloc rest ∧
      rest.take k = buf.take k := by
  have front : bytes.take s.offset = s.block.take s.offset := by
    have shorter := congrArg (List.take s.offset) same
    rwa [List.take_take, List.take_take, Nat.min_eq_left (Nat.le_add_right _ _)] at shorter
  have behind : (bytes.drop s.offset).take k = buf.take k := by
    have later := congrArg (List.drop s.offset) same
    rwa [List.drop_take, List.drop_take, Nat.add_sub_cancel_left, headed.drop_offset] at later
  refine ⟨bytes.drop s.offset, ⟨⟨headed.offset, ?_⟩, headed.len_fits, headed.alloc_fits⟩, behind⟩
  have split : s.block = s.block.take s.offset ++ buf := by
    rw [← headed.drop_offset, List.take_append_drop]
  have header : s.block.take s.offset = Bytes.little type.width len ++
      (Bytes.little type.width alloc ++ [type.flags len]) := by
    have whole := split.symm.trans headed.block
    exact List.append_cancel_right (whole.trans (by simp only [List.append_assoc]))
  calc bytes = bytes.take s.offset ++ bytes.drop s.offset := (List.take_append_drop _ _).symm
    _ = _ := by
      rw [front, header]
      simp only [List.append_assoc]

end Headed

section Base

variable (s : SdsString) (n : Nat)

@[simp] theorem sdssetlen_base : (sdssetlen s n).base = s.base := by
  unfold sdssetlen
  split <;> rfl

@[simp] theorem sdsinclen_base : (sdsinclen s n).base = s.base := by
  unfold sdsinclen
  split <;> rfl

@[simp] theorem sdssetalloc_base : (sdssetalloc s n).base = s.base := by
  unfold sdssetalloc
  split <;> rfl

@[simp] theorem setFlags_base : (s.setFlags n).base = s.base := rfl

end Base

/-- Behind the header of a block are as many bytes as it says, and one more. -/
structure Sized (s : SdsString) (type : SdsType) (len room : Nat) (buf : List UInt8) : Prop
    extends Headed s type len room buf where
  /-- The bytes behind the header. -/
  size : buf.length = room + 1

namespace Sized

variable {s : SdsString} {type : SdsType} {len room i n : Nat} {buf : List UInt8}

/-- What is within the room and its terminator is within the block. -/
theorem inside (sized : Sized s type len room buf) (within : i + n ≤ room + 1) :
    s.offset + i + n ≤ s.block.length := by
  have block := sized.length_block
  have size := sized.size
  omega

/-- Bytes are written behind the header. -/
theorem written (sized : Sized s type len room buf) (i : Nat) (bytes : List UInt8)
    (within : i + bytes.length ≤ room + 1) :
    Sized { s with block := Bytes.overwrite s.block (s.offset + i) bytes } type len room
      (Bytes.overwrite buf i bytes) where
  toHeaded := sized.overwrite i bytes
  size := by rw [Bytes.length_overwrite (sized.size ▸ within), sized.size]

/-- Bytes are counted to the length. -/
theorem counted (sized : Sized s type len room buf) (within : len + n ≤ room) :
    Sized (Sherry.sdsinclen s n) type (len + n) room buf :=
  ⟨sized.sdsinclen (within.trans_lt sized.alloc_fits), sized.size⟩

/-- The length is set. -/
theorem resized (sized : Sized s type len room buf) (within : n ≤ room) :
    Sized (Sherry.sdssetlen s n) type n room buf :=
  ⟨sized.sdssetlen (within.trans_lt sized.alloc_fits), sized.size⟩

end Sized

/-- A block holds the bytes of a string behind the header, within the room. -/
structure Filled (s : SdsString) (type : SdsType) (len room : Nat) (buf : List UInt8) : Prop
    extends Sized s type len room buf where
  /-- The string is within the room. -/
  within : len ≤ room

/-- A block holds a string: a header, the bytes of the string, a null terminator, and room for as
many bytes as the header says. -/
structure Framed (s : SdsString) (type : SdsType) (len room : Nat) (buf : List UInt8) : Prop
    extends Filled s type len room buf where
  /-- A null terminator follows the string. -/
  terminated : buf[len]? = some 0

namespace SdsString

/-- The memory at a pointer is a string. -/
def Valid (s : SdsString) : Prop := ∃ type len room buf, Framed s type len room buf

/-- The memory at a pointer is a string, but for its terminator. -/
def Stored (s : SdsString) : Prop := ∃ type len room buf, Filled s type len room buf

/-- A string with one byte and room for three, in block 0. -/
def sample : SdsString := ⟨0, [1, 3, 1, 97, 0, 99, 0], 3⟩

/-- It is a string. -/
theorem sample_valid : sample.Valid :=
  ⟨.type8, 1, 3, [97, 0, 99, 0],
    ⟨⟨⟨⟨⟨rfl, by decide⟩, by decide, by decide⟩, rfl⟩, by decide⟩, rfl⟩⟩

/-- The bytes of a string. -/
def content (s : SdsString) : List UInt8 := (s.block.drop s.offset).take (sdslen s)

/-- The byte behind a string, where its terminator belongs. -/
def ending (s : SdsString) : Option UInt8 := (s.block.drop s.offset)[sdslen s]?

/-- A read inside of the block. -/
@[spec] theorem read_spec {m₀ : Memory} (s : SdsString) (i n : Nat)
    (inside : s.offset + i + n ≤ s.block.length) :
    ⦃fun m => ⌜m = m₀⌝⦄
    s.read i n
    ⦃post⟨fun r m => ⌜r = Bytes.segment s.block (s.offset + i) n ∧ m = m₀⌝,
      fun _ _ => ⌜False⌝⟩⦄ := by
  mvcgen [read]

/-- A write inside of the block. -/
@[spec] theorem write_spec {m₀ : Memory} (s : SdsString) (i : Nat) (bytes : List UInt8)
    (inside : s.offset + i + bytes.length ≤ s.block.length) :
    ⦃fun m => ⌜m = m₀⌝⦄
    s.write i bytes
    ⦃post⟨fun r m =>
        ⌜r = { s with block := Bytes.overwrite s.block (s.offset + i) bytes } ∧ m = m₀⌝,
      fun _ _ => ⌜False⌝⟩⦄ := by
  mvcgen [write]

end SdsString

namespace Filled

variable {s : SdsString} {type : SdsType} {len room : Nat} {buf : List UInt8}

/-- The bytes of the string. -/
theorem content_eq (filled : Filled s type len room buf) : s.content = buf.take len := by
  rw [SdsString.content, filled.drop_offset, filled.sdslen_eq]

/-- The byte behind the string. -/
theorem ending_eq (filled : Filled s type len room buf) : s.ending = buf[len]? := by
  rw [SdsString.ending, filled.drop_offset, filled.sdslen_eq]

/-- The length of the string. -/
theorem length_content (filled : Filled s type len room buf) : s.content.length = len := by
  have size := filled.size
  have within := filled.within
  rw [filled.content_eq, List.length_take]
  omega

/-- There is a byte behind the string. -/
theorem exists_ending (filled : Filled s type len room buf) : ∃ c, s.ending = some c := by
  have size := filled.size
  have within := filled.within
  rw [filled.ending_eq]
  exact ⟨_, List.getElem?_eq_getElem (by omega)⟩

/-- The string and the byte behind it. -/
theorem take_succ (filled : Filled s type len room buf) :
    buf.take (len + 1) = s.content ++ s.ending.toList := by
  rw [List.take_add_one, filled.content_eq, filled.ending_eq]

/-- With its terminator, it is a string. -/
theorem framed (filled : Filled s type len room buf) (ended : s.ending = some 0) :
    Framed s type len room buf :=
  ⟨filled, filled.ending_eq ▸ ended⟩

end Filled

namespace Framed

variable {s : SdsString} {type : SdsType} {len room : Nat} {buf : List UInt8}

/-- The byte behind a string is its terminator. -/
theorem ended (framed : Framed s type len room buf) : s.ending = some 0 :=
  framed.ending_eq.trans framed.terminated

/-- The string and its terminator. -/
theorem take_succ (framed : Framed s type len room buf) :
    buf.take (len + 1) = s.content ++ [0] := by
  rw [framed.toFilled.take_succ, framed.ended]
  rfl

end Framed

/-- A string is stored with its terminator. -/
theorem SdsString.valid_iff {s : SdsString} : s.Valid ↔ s.Stored ∧ s.ending = some 0 := by
  constructor
  · rintro ⟨type, len, room, buf, framed⟩
    exact ⟨⟨type, len, room, buf, framed.toFilled⟩, framed.ended⟩
  · rintro ⟨⟨type, len, room, buf, filled⟩, ended⟩
    exact ⟨type, len, room, buf, filled.framed ended⟩

namespace Sized

variable {s : SdsString} {type : SdsType} {len room n : Nat} {buf : List UInt8}

/-- Writing the terminator behind the length makes a string of the bytes before it. -/
theorem terminate (sized : Sized s type n room buf) (within : n ≤ room) :
    let r := { s with block := Bytes.overwrite s.block (s.offset + n) [0] }
    Framed r type n room (Bytes.overwrite buf n [0]) ∧ r.content = buf.take n := by
  intro r
  have inside : n ≤ buf.length := sized.size ▸ Nat.le_succ_of_le within
  have done : Framed r type n room (Bytes.overwrite buf n [0]) :=
    ⟨⟨sized.written n [0] (Nat.succ_le_succ within), within⟩,
      Bytes.getElem?_overwrite [0] inside Nat.zero_lt_one⟩
  exact ⟨done, by rw [done.content_eq, Bytes.take_overwrite_of_le [0] inside le_rfl]⟩

/-- Setting the length to where a terminator was written makes a string of the bytes before it. -/
theorem shorten (sized : Sized s type len room buf) (within : n ≤ room) :
    let r := sdssetlen { s with block := Bytes.overwrite s.block (s.offset + n) [0] } n
    Framed r type n room (Bytes.overwrite buf n [0]) ∧ r.content = buf.take n := by
  intro r
  have inside : n ≤ buf.length := sized.size ▸ Nat.le_succ_of_le within
  have done : Framed r type n room (Bytes.overwrite buf n [0]) :=
    ⟨⟨(sized.written n [0] (Nat.succ_le_succ within)).resized within, within⟩,
      Bytes.getElem?_overwrite [0] inside Nat.zero_lt_one⟩
  exact ⟨done, by rw [done.content_eq, Bytes.take_overwrite_of_le [0] inside le_rfl]⟩

/-- Bytes are written behind the string and counted to it. -/
theorem append (sized : Sized s type len room buf) {text : List UInt8}
    (within : len + text.length ≤ room) :
    Sized (sdssetlen { s with block := Bytes.overwrite s.block (s.offset + len) text }
      (len + text.length)) type (len + text.length) room (Bytes.overwrite buf len text) :=
  (sized.written len text (Nat.le_succ_of_le within)).resized within

end Sized

namespace SdsString

variable {s : SdsString} {n : Nat}

/-- The length of a string. -/
theorem Stored.sdslen_eq (stored : s.Stored) : sdslen s = s.content.length := by
  obtain ⟨type, len, room, buf, filled⟩ := stored
  rw [filled.toHeaded.sdslen_eq, filled.length_content]

/-- The first bytes of a string are read. -/
theorem Stored.read_take (stored : s.Stored) (within : n ≤ s.content.length) :
    s.read 0 n = pure (s.content.take n) := by
  obtain ⟨type, len, room, buf, filled⟩ := stored
  rw [filled.length_content] at within
  have room_left := filled.within
  have inside : s.offset + 0 + n ≤ s.block.length := filled.inside (by omega)
  rw [SdsString.read, if_pos inside, Nat.add_zero, Bytes.segment, filled.drop_offset,
    filled.content_eq, List.take_take, Nat.min_eq_left within]

/-- A string is stored. -/
theorem Valid.stored (valid : s.Valid) : s.Stored := (valid_iff.mp valid).1

/-- The length of a string. -/
theorem Valid.sdslen_eq (valid : s.Valid) : sdslen s = s.content.length := valid.stored.sdslen_eq

/-- The first bytes of a string are read. -/
theorem Valid.read_take (valid : s.Valid) (within : n ≤ s.content.length) :
    s.read 0 n = pure (s.content.take n) :=
  valid.stored.read_take within

/-- The bytes of a string are read as a whole. -/
theorem Valid.read_content (valid : s.Valid) : s.read 0 (sdslen s) = pure s.content := by
  rw [valid.sdslen_eq, valid.read_take le_rfl, List.take_length]

end SdsString

end Sherry
