import Sherry.Verif.Strings

/-!
# Room for more bytes

`sdsMakeRoomFor` and `sdsRemoveFreeSpace` exchange the block of a string, with the header or with
another one. The string stays the same, its header fits the new room, and the old block is given
back exactly when the new one was drawn.
-/

namespace Sherry

open Std.Do

set_option mvcgen.warning false

variable {A : Allocator} {s r : SdsString} {m₀ m : Memory} {type new : SdsType} {len room n : Nat}
  {buf : List UInt8}

/-- A function returned a string with the given bytes, in a block that takes the place of the one
it was given. -/
structure Becomes (m₀ m : Memory) (s r : SdsString) (content : List UInt8) : Prop where
  /-- What it returns is a string. -/
  valid : r.Valid
  /-- The bytes. -/
  content : r.content = content
  /-- One block for the other. -/
  trades : m₀.Trades m [s.base] [r.base]

/-- A function returned `NULL` because the allocator refused; the string it was given is still
there. -/
structure Refused (A : Allocator) (m₀ m : Memory) (s : SdsString) (e : SdsFault) : Prop where
  /-- Nothing else went wrong. -/
  fault : e = .outOfMemory
  /-- The allocator refused. -/
  refuses : A.Refuses
  /-- The block is held as before. -/
  trades : m₀.Trades m [s.base] [s.base]

/-- A function returned `NULL` because the allocator refused, and some blocks are held. -/
structure Lacks (A : Allocator) (m₀ m : Memory) (before after : List Nat) (e : SdsFault) : Prop
    where
  /-- Nothing else went wrong. -/
  fault : e = .outOfMemory
  /-- The allocator refused. -/
  refuses : A.Refuses
  /-- What is held. -/
  trades : m₀.Trades m before after

/-- What was exchanged before does not matter. -/
theorem Lacks.later {before middle after : List Nat} {e : SdsFault} {m₁ : Memory}
    (lacks : Lacks A m₁ m middle after e) (traded : m₀.Trades m₁ before middle) :
    Lacks A m₀ m before after e := ⟨lacks.fault, lacks.refuses, traded.trans lacks.trades⟩

/-- The block of a string is exchanged for another one with the same bytes. -/
@[spec] theorem sRealloc_spec (size : s.hdrSize = s.offset) :
    ⦃fun m => ⌜m = m₀⌝⦄
    sRealloc A s n
    ⦃post⟨fun p m => ⌜m₀.Trades m [s.base] [p.1] ∧ m.requests = m₀.requests + 1 ∧
        p.2.length = n ∧ ∀ k, k ≤ n → k ≤ s.block.length → p.2.take k = s.block.take k⌝,
      fun e m => ⌜Refused A m₀ m s e⌝⟩⦄ := by
  mvcgen [sRealloc]
  case vc1.isTrue.post.success m same p m' =>
    subst same
    exact fun trades requests length content => ⟨trades, requests, length, content⟩
  case vc2.isTrue.post.except.handle m same e m' =>
    subst same
    exact fun fault refuses trades => ⟨fault, refuses, trades⟩

/-- The block of a string is given back. -/
@[spec] theorem sFree_spec (size : s.hdrSize = s.offset) :
    ⦃fun m => ⌜m = m₀⌝⦄
    sFree s
    ⦃post⟨fun _ m => ⌜m₀.Trades m [s.base] [] ∧ m.requests = m₀.requests⌝,
      fun _ _ => ⌜False⌝⟩⦄ := by
  mvcgen [sFree]

/-- After its block was exchanged, a string has the room it was given. -/
structure Moved (m₀ m : Memory) (s r : SdsString) (type : SdsType) (room : Nat) : Prop where
  /-- The header and the room. -/
  filled : ∃ buf, Filled r type s.content.length room buf
  /-- The bytes are the same. -/
  content : r.content = s.content
  /-- The byte behind them is the same. -/
  ending : r.ending = s.ending
  /-- One block for the other. -/
  trades : m₀.Trades m [s.base] [r.base]
  /-- One request was made. -/
  requests : m.requests = m₀.requests + 1

/-- The string is exchanged, whatever its room. -/
theorem Moved.becomes (moved : Moved m₀ m s r type room) (valid : s.Valid) :
    Becomes m₀ m s r s.content where
  valid := by
    obtain ⟨buf, filled⟩ := moved.filled
    have ended := moved.ending.trans (SdsString.valid_iff.mp valid).2
    exact ⟨_, _, _, buf, filled.framed ended⟩
  content := moved.content
  trades := moved.trades

/-- What `sdssetalloc` makes of a string with the room it is told. -/
theorem filled_setalloc {rest : List UInt8} {alloc : Nat} (headed : Headed r type len alloc rest)
    (size : rest.length = n + 1) (fits : n < 2 ^ type.bits) (within : len ≤ n) :
    Filled (sdssetalloc r n) type len n rest := by
  by_cases wide : type = .type5
  · subst wide
    have same : sdssetalloc r n = r := by
      rw [sdssetalloc, headed.type_eq]
    rw [same]
    exact ⟨⟨⟨⟨headed.offset, headed.block⟩, headed.len_fits, fits⟩, size⟩, within⟩
  · exact ⟨⟨headed.sdssetalloc wide fits, size⟩, within⟩

/-- Where two strings agree on their bytes and the byte behind them. -/
theorem same_of_take {rest : List UInt8} (filled : Filled s type len room buf)
    (same : rest.take (len + 1) = buf.take (len + 1)) :
    rest.take len = s.content ∧ rest[len]? = s.ending := by
  have at_end := congrArg (fun l => l[len]?) same
  have before := congrArg (List.take len) same
  simp only [List.getElem?_take_of_lt (Nat.lt_succ_self len)] at at_end
  rw [List.take_take, List.take_take, Nat.min_eq_left (Nat.le_succ len)] at before
  exact ⟨before.trans filled.content_eq.symm, at_end.trans filled.ending_eq.symm⟩

/-- Keeping its header, a string gets a room that the header can describe. -/
@[spec] theorem resizeBlock_spec (stored : s.Stored) (typed : s.type = some type)
    (within : s.content.length ≤ n) (fits : n < 2 ^ type.bits)
    (small : sdsHdrSize type + n + 1 < 2 ^ 64) :
    ⦃fun m => ⌜m = m₀⌝⦄
    resizeBlock A s (sdsHdrSize type) n
    ⦃post⟨fun r m => ⌜Moved m₀ m s r type n⌝, fun e m => ⌜Refused A m₀ m s e⌝⟩⦄ := by
  obtain ⟨type', len, room, buf, filled⟩ := stored
  obtain rfl : type' = type := Option.some.inj (filled.type_eq.symm.trans typed)
  rw [filled.length_content] at within
  mvcgen [resizeBlock]
  case vc1.size => exact filled.hdrSize_eq
  case vc2.post.success m same p m' exchanged =>
    subst same
    obtain ⟨trades, requests, size, same⟩ := exchanged
    rw [sizeT, Nat.mod_eq_of_lt small] at size same
    have offset := filled.offset
    have block := filled.length_block
    have buf_size := filled.size
    have inside := filled.within
    have kept := same (s.offset + (len + 1)) (by omega) (by omega)
    obtain ⟨rest, headed, agrees⟩ := filled.carry p.1 kept
    obtain ⟨before, behind⟩ := same_of_take filled agrees
    have rest_size : rest.length = n + 1 := by
      have whole := headed.length_block
      simp only at whole
      omega
    rw [← offset]
    have done := filled_setalloc headed rest_size fits within
    refine ⟨⟨rest, filled.length_content ▸ done⟩, ?_, ?_, ?_, requests⟩
    · rw [done.content_eq, before]
    · rw [done.ending_eq, behind]
    · rw [sdssetalloc_base]
      exact trades
  case vc3.post.except.handle m same e m' =>
    subst same
    exact id

/-- A string that was copied behind a new header. -/
theorem filled_copy {base : Nat} {bytes text : List UInt8} (c : UInt8)
    (size : bytes.length = sdsHdrSize new + n + 1) (within : text.length ≤ n)
    (fits : n < 2 ^ new.bits) :
    let copy : SdsString :=
      { base
        block := Bytes.overwrite bytes (sdsHdrSize new) (text ++ [c])
        offset := sdsHdrSize new }
    ∃ buf, Filled (sdssetalloc (sdssetlen (copy.setFlags new.code) text.length) n) new text.length n
        buf ∧ buf.take text.length = text ∧ buf[text.length]? = some c := by
  intro copy
  have stored : (text ++ [c]).length = text.length + 1 := by simp
  have block : copy.block.length = bytes.length := Bytes.length_overwrite (by omega)
  obtain ⟨junk, junk', headed⟩ :=
    Headed.of_flags (s := copy) rfl (by omega)
  have behind : copy.block.drop copy.offset =
      text ++ [c] ++ bytes.drop (sdsHdrSize new + (text ++ [c]).length) := by
    have front : sdsHdrSize new ≤ bytes.length := by omega
    exact Bytes.drop_overwrite _ front
  have rest : (copy.block.drop copy.offset).length = n + 1 := by
    rw [List.length_drop, block, size]
    show sdsHdrSize new + n + 1 - sdsHdrSize new = n + 1
    omega
  have final := headed.sdssetlen (within.trans_lt fits)
  refine ⟨_, filled_setalloc final rest fits within, ?_, ?_⟩
  · rw [behind]
    simp
  · rw [behind]
    simp

/-- Behind a header of another type, a string gets a room that the header can describe. -/
@[spec] theorem moveBlock_spec (stored : s.Stored) (within : s.content.length ≤ n)
    (fits : n < 2 ^ new.bits) (small : sdsHdrSize new + n + 1 < 2 ^ 64) :
    ⦃fun m => ⌜m = m₀⌝⦄
    moveBlock A s new n
    ⦃post⟨fun r m => ⌜Moved m₀ m s r new n⌝, fun e m => ⌜Refused A m₀ m s e⌝⟩⦄ := by
  obtain ⟨type, len, room, buf, filled⟩ := stored
  obtain ⟨c, ended⟩ := filled.exists_ending
  have block := filled.length_block
  have buf_size := filled.size
  have inside := filled.within
  have read : Bytes.segment s.block (s.offset + 0) (len + 1) = s.content ++ [c] := by
    rw [Nat.add_zero, Bytes.segment, filled.drop_offset, filled.take_succ, ended]
    rfl
  have length := filled.length_content
  simp only [moveBlock, filled.sdslen_eq]
  mvcgen
  case vc1.inside => omega
  case vc2.inside p _ drawn text m' copied =>
    obtain ⟨rfl, -⟩ := copied
    obtain ⟨-, -, size⟩ := drawn
    rw [read, List.length_append, List.length_singleton, length, size, sizeT,
      Nat.mod_eq_of_lt small]
    omega
  case vc3.size => exact filled.hdrSize_eq
  case vc4.post.success.post.success.post.success.post.success =>
    rename_i m same p m₁ drawn text m₂ copied r m₃ written u m₄ given
    obtain ⟨rfl, rfl⟩ := copied
    obtain ⟨rfl, rfl⟩ := written
    obtain ⟨trades, requests, size⟩ := drawn
    obtain ⟨back, same_requests⟩ := given
    subst same
    rw [sizeT, Nat.mod_eq_of_lt small] at size
    rw [read, Nat.add_zero]
    obtain ⟨rest, done, bytes, behind⟩ := filled_copy c size within fits
    rw [length] at done bytes behind
    refine ⟨⟨rest, length.symm ▸ done⟩, ?_, ?_, ?_, same_requests.trans requests⟩
    · rw [done.content_eq, bytes]
    · rw [done.ending_eq, behind, ended]
    · have both : Memory.Trades _ m₃ [s.base] [s.base, p.1] :=
        trades.frame (.refl _) (.swap s.base p.1 [])
      simpa using both.trans (back.frame (.refl _) (.refl _))
  case vc5.post.except.handle m same e m' =>
    subst same
    exact fun fault refuses trades => ⟨fault, refuses, trades.frame (.refl [s.base]) (.refl _)⟩

/-- The type that `sdsReqType` chooses can describe the size. -/
theorem sdsReqType_fits (small : n < 2 ^ 64) : n < 2 ^ (sdsReqType n).bits := by
  unfold sdsReqType
  split_ifs <;> assumption

/-- The type that `sdsMakeRoomFor` chooses can describe the room. -/
theorem roomType_fits (small : n < 2 ^ 64) : n < 2 ^ (roomType n).bits := by
  unfold roomType
  split_ifs with five
  · have fits := sdsReqType_fits small
    rw [five] at fits
    exact fits.trans (by decide)
  · exact sdsReqType_fits small

/-- `sdsMakeRoomFor` never chooses type 5. -/
theorem roomType_wide (n : Nat) : roomType n ≠ .type5 := by
  unfold roomType
  split_ifs with five
  · decide
  · exact five

/-- The largest header. -/
theorem sdsHdrSize_le (type : SdsType) : sdsHdrSize type ≤ 17 := by
  cases type <;> decide

/-- What is left of the address space beyond the largest length that `sdsMakeRoomFor` asks room
for. -/
def sdsHeadroom : Nat := sdsMaxPrealloc + 18

/-- Twice the length, or a megabyte more, without overflow. -/
theorem prealloc_eq (small : n + sdsHeadroom < 2 ^ 64) :
    prealloc n = if n < sdsMaxPrealloc then n * 2 else n + sdsMaxPrealloc := by
  rw [sdsHeadroom, sdsMaxPrealloc] at small
  rw [prealloc, sizeT, sdsMaxPrealloc, Nat.mod_eq_of_lt]
  split_ifs <;> omega

/-- The room is at least what is asked for, and fits into a block. -/
theorem prealloc_bounds (small : n + sdsHeadroom < 2 ^ 64) :
    n ≤ prealloc n ∧ prealloc n + 18 < 2 ^ 64 := by
  rw [prealloc_eq small, sdsMaxPrealloc]
  rw [sdsHeadroom, sdsMaxPrealloc] at small
  split_ifs <;> omega

/-- Half of the address space leaves the headroom. -/
theorem headroom_of_small (small : n < 2 ^ 63) : n + sdsHeadroom < 2 ^ 64 := by
  rw [sdsHeadroom, sdsMaxPrealloc]
  omega

/-- A room beyond 32 bits takes the widest header. -/
theorem roomType_large (large : 2 ^ 32 ≤ n) : roomType n = .type64 := by
  have widest : sdsReqType n = .type64 := by
    unfold sdsReqType
    split_ifs <;> first | rfl | omega
  rw [roomType, widest, if_neg (by decide)]

/-- Without the headroom, the size of the block overflows to less than the length. -/
theorem prealloc_overflows (fits : n < 2 ^ 64) (large : 2 ^ 64 ≤ n + sdsHeadroom) :
    sizeT (sdsHdrSize (roomType (prealloc n)) + prealloc n + 1) ≤ n := by
  rw [sdsHeadroom, sdsMaxPrealloc] at large
  have longer : ¬ n < 1024 * 1024 := by omega
  have room : prealloc n = (n + 1024 * 1024) % 2 ^ 64 := by
    rw [prealloc, sdsMaxPrealloc, if_neg longer, sizeT]
  by_cases wraps : 2 ^ 64 ≤ n + 1024 * 1024
  · have header := sdsHdrSize_le (roomType (prealloc n))
    rw [sizeT]
    omega
  · have widest : sdsHdrSize (roomType (prealloc n)) = 17 := by
      rw [roomType_large (by omega)]
      rfl
    rw [widest, sizeT]
    omega

/-- What `sdsMakeRoomFor` does: nothing when the room is there, or else it exchanges the block for
one with the room it asks for. -/
inductive MadeRoom (m₀ : Memory) (s : SdsString) (n : Nat) : Memory → SdsString → Prop
  /-- The room is there. -/
  | already (enough : n ≤ sdsavail s) : MadeRoom m₀ s n m₀ s
  /-- The block is exchanged. -/
  | moved {m : Memory} {r : SdsString} (short : sdsavail s < n)
      (moved : Moved m₀ m s r (roomType (prealloc (s.content.length + n)))
        (prealloc (s.content.length + n))) : MadeRoom m₀ s n m r

/-- `sdsMakeRoomFor` makes room, or the allocator refused, or the length does not leave the
headroom and the assertion fails. -/
theorem sdsMakeRoomFor_total (m₀ : Memory) (stored : s.Stored)
    (fits : s.content.length + n < 2 ^ 64) :
    ⦃fun m => ⌜m = m₀⌝⦄
    sdsMakeRoomFor A s n
    ⦃post⟨fun r m => ⌜MadeRoom m₀ s n m r ∧
        (sdsavail s < n → s.content.length + n + sdsHeadroom < 2 ^ 64)⌝,
      fun e m => ⌜Refused A m₀ m s e ∨ e = .assertFailed ∧ m = m₀ ∧
        sdsavail s < n ∧ 2 ^ 64 ≤ s.content.length + n + sdsHeadroom⌝⟩⦄ := by
  have req : sizeT (sdslen s + n) = s.content.length + n := by
    rw [stored.sdslen_eq]
    exact Nat.mod_eq_of_lt fits
  simp only [sdsMakeRoomFor, req]
  by_cases roomy : s.content.length + n + sdsHeadroom < 2 ^ 64
  · obtain ⟨enough, whole⟩ := prealloc_bounds roomy
    have within : s.content.length ≤ prealloc (s.content.length + n) := by omega
    have wide := roomType_fits (show prealloc (s.content.length + n) < 2 ^ 64 by omega)
    have header := sdsHdrSize_le (roomType (prealloc (s.content.length + n)))
    have block : sdsHdrSize (roomType (prealloc (s.content.length + n))) +
        prealloc (s.content.length + n) + 1 < 2 ^ 64 := by omega
    mvcgen
    case vc1.pos.isTrue there m same => exact same ▸ ⟨.already there, fun _ => roomy⟩
    case vc2.pos.isFalse.isTrue.isTrue.post.success short _ typed m same r m' =>
      exact fun moved => same ▸ ⟨.moved (not_le.mp short) moved, fun _ => roomy⟩
    case vc9.pos.isFalse.isTrue.isFalse.post.success short _ typed m same r m' =>
      exact fun moved => same ▸ ⟨.moved (not_le.mp short) moved, fun _ => roomy⟩
    case vc3.pos.isFalse.isTrue.isTrue.post.except.handle m same e m' => exact same ▸ .inl
    case vc10.pos.isFalse.isTrue.isFalse.post.except.handle m same e m' => exact same ▸ .inl
    case vc15.pos.isFalse.isFalse overflow m same =>
      rw [sizeT, Nat.mod_eq_of_lt block] at overflow
      omega
    all_goals
      intro _ _
      assumption
  · have overflows := prealloc_overflows fits (not_lt.mp roomy)
    rw [if_neg (not_lt.mpr overflows)]
    mvcgen
    case vc1.neg.isTrue there m same =>
      exact same ▸ ⟨.already there, fun short => absurd there (not_le.mpr short)⟩
    case vc2.neg.isFalse short m same =>
      exact .inr ⟨trivial, same, not_le.mp short, not_lt.mp roomy⟩

/-- `sdsMakeRoomFor` makes room, or the allocator refused. -/
@[spec] theorem sdsMakeRoomFor_spec (stored : s.Stored) (small : s.content.length + n < 2 ^ 63) :
    ⦃fun m => ⌜m = m₀⌝⦄
    sdsMakeRoomFor A s n
    ⦃post⟨fun r m => ⌜MadeRoom m₀ s n m r⌝, fun e m => ⌜Refused A m₀ m s e⌝⟩⦄ := by
  have headroom := headroom_of_small small
  refine Allocating.weaken (sdsMakeRoomFor_total m₀ stored (by omega)) (fun r m made => made.1) ?_
  rintro e m (refused | ⟨-, -, -, large⟩)
  · exact refused
  · omega

/-- Whatever it does, `sdsMakeRoomFor` returns the same string. -/
theorem MadeRoom.becomes (made : MadeRoom m₀ s n m r) (valid : s.Valid) :
    Becomes m₀ m s r s.content := by
  cases made with
  | already enough => exact ⟨valid, rfl, .refl _ _⟩
  | moved short moved => exact moved.becomes valid

/-- After `sdsMakeRoomFor` the room is there, behind the same bytes, and the header can tell of it
if any was asked for. -/
theorem MadeRoom.filled (made : MadeRoom m₀ s n m r) (stored : s.Stored)
    (small : s.content.length + n < 2 ^ 63) :
    ∃ type room buf, Filled r type s.content.length room buf ∧ s.content.length + n ≤ room ∧
      (0 < n → type ≠ .type5) ∧ r.content = s.content ∧ m₀.Trades m [s.base] [r.base] := by
  cases made with
  | already enough =>
    obtain ⟨type, len, room, buf, filled⟩ := stored
    have length := filled.length_content
    have within := filled.within
    rw [filled.sdsavail_eq] at enough
    refine ⟨type, room, buf, length.symm ▸ filled, ?_, ?_, rfl, .refl _ _⟩
    · split_ifs at enough <;> omega
    · rintro positive rfl
      rw [if_pos rfl] at enough
      omega
  | moved short moved =>
    obtain ⟨buf, filled⟩ := moved.filled
    exact ⟨_, _, buf, filled, (prealloc_bounds (headroom_of_small small)).1,
      fun _ => roomType_wide _, moved.content, moved.trades⟩

/-- After `sdsMakeRoomFor` a string has the room. -/
theorem MadeRoom.framed (made : MadeRoom m₀ s n m r) (valid : s.Valid)
    (small : s.content.length + n < 2 ^ 63) :
    ∃ type room buf, Framed r type s.content.length room buf ∧ s.content.length + n ≤ room ∧
      (0 < n → type ≠ .type5) ∧ r.content = s.content := by
  obtain ⟨type, room, buf, filled, enough, wide, content, -⟩ := made.filled valid.stored small
  have ended := (SdsString.valid_iff.mp (made.becomes valid).valid).2
  exact ⟨type, room, buf, filled.framed ended, enough, wide, content⟩

/-- `sdsMakeRoomFor` returns the same bytes with at least the room asked for. Its assertion fails
exactly where the length with the new bytes is so close to the end of the address space that the
preallocation would overflow, and before anything is allocated. -/
theorem sdsMakeRoomFor_decides (m₀ : Memory) (valid : s.Valid)
    (fits : s.content.length + n < 2 ^ 64) :
    ⦃fun m => ⌜m = m₀⌝⦄
    sdsMakeRoomFor A s n
    ⦃post⟨fun r m => ⌜Becomes m₀ m s r s.content ∧ n ≤ sdsavail r ∧
        (sdsavail s < n → s.content.length + n + sdsHeadroom < 2 ^ 64)⌝,
      fun e m => ⌜Refused A m₀ m s e ∨ e = .assertFailed ∧ m = m₀ ∧
        sdsavail s < n ∧ 2 ^ 64 ≤ s.content.length + n + sdsHeadroom⌝⟩⦄ := by
  have total := sdsMakeRoomFor_total (A := A) (n := n) m₀ valid.stored fits
  refine Allocating.weaken total (fun r m done => ?_) fun _ _ failed => failed
  obtain ⟨made, roomy⟩ := done
  refine ⟨made.becomes valid, ?_, roomy⟩
  cases made with
  | already enough => exact enough
  | moved short moved =>
    obtain ⟨buf, filled⟩ := moved.filled
    have enough := (prealloc_bounds (roomy short)).1
    rw [filled.sdsavail_eq, if_neg (roomType_wide _)]
    omega

/-- Asking for nearly the whole address space fails the assertion. -/
theorem sdsMakeRoomFor_decides_large :
    Allocating.exec (sdsMakeRoomFor .zeros .sample (2 ^ 64 - 100)) {} =
      (.error .assertFailed, {}) := by
  have decides := sdsMakeRoomFor_decides (A := .zeros) (n := 2 ^ 64 - 100) {}
    SdsString.sample_valid (by decide)
  have result := Allocating.ends decides
  rcases ran : Allocating.exec (sdsMakeRoomFor .zeros .sample (2 ^ 64 - 100)) {} with ⟨e | r, m⟩ <;>
    rw [ran] at result
  · rcases result with refused | ⟨rfl, rfl, _⟩
    · exact absurd refused.refuses Allocator.zeros_answers
    · rfl
  · exact absurd (result.2.2 (by decide)) (by decide)

/-- `sdsRemoveFreeSpace` leaves the string without free space, or the allocator refused. -/
@[spec] theorem sdsRemoveFreeSpace_spec (valid : s.Valid) (small : s.content.length < 2 ^ 63) :
    ⦃fun m => ⌜m = m₀⌝⦄
    sdsRemoveFreeSpace A s
    ⦃post⟨fun r m => ⌜Becomes m₀ m s r s.content ∧ sdsavail r = 0⌝,
      fun e m => ⌜Refused A m₀ m s e⌝⟩⦄ := by
  obtain ⟨type, len, room, buf, framed⟩ := id valid
  have stored := valid.stored
  have length := framed.length_content
  have own_header := sdsHdrSize_le type
  have new_header := sdsHdrSize_le (sdsReqType s.content.length)
  have typed := framed.type_eq
  have within : s.content.length ≤ s.content.length := le_rfl
  have fits := sdsReqType_fits (show s.content.length < 2 ^ 64 by omega)
  have own_fits : s.content.length < 2 ^ type.bits := length ▸ framed.len_fits
  have own_block : sdsHdrSize type + s.content.length + 1 < 2 ^ 64 := by omega
  have block : sdsHdrSize (sdsReqType s.content.length) + s.content.length + 1 < 2 ^ 64 := by
    omega
  have header : s.hdrSize = sdsHdrSize type := framed.hdrSize_eq.trans framed.offset
  have full : ∀ {m m' r kind}, Moved m m' s r kind s.content.length → sdsavail r = 0 := by
    intro m m' r kind moved
    obtain ⟨buf, filled⟩ := moved.filled
    rw [filled.sdsavail_eq, Nat.sub_self, ite_self]
  simp only [sdsRemoveFreeSpace, valid.sdslen_eq, header]
  mvcgen
  case vc1.isTrue none_left m same => exact same ▸ ⟨⟨valid, rfl, .refl _ _⟩, none_left⟩
  case vc2.isFalse.isTrue.post.success m same r m' =>
    exact fun moved => same ▸ ⟨moved.becomes valid, full moved⟩
  case vc9.isFalse.isFalse.post.success m same r m' =>
    exact fun moved => same ▸ ⟨moved.becomes valid, full moved⟩
  case vc3.isFalse.isTrue.post.except.handle m same e m' => exact same ▸ id
  case vc10.isFalse.isFalse.post.except.handle m same e m' => exact same ▸ id
  all_goals
    intro _ _
    assumption

/-- What a new string of a length holds: the bytes given, null bytes, or anything. -/
def SdsInit.Gives (init : SdsInit) (n : Nat) (content : List UInt8) : Prop :=
  match init with
  | .noinit => content.length = n
  | .null => content = List.replicate n 0
  | .bytes given => content = given.take n

/-- The type that `sdsnewlen` chooses can describe the length. -/
theorem newType_fits (small : n < 2 ^ 64) : n < 2 ^ (newType n).bits := by
  unfold newType
  split_ifs with empty
  · rw [empty.2]
    decide
  · exact sdsReqType_fits small

/-- A new block with its header filled in. -/
theorem headed_initHeader {base : Nat} {bytes : List UInt8} (fits : n < 2 ^ type.bits)
    (size : bytes.length = sdsHdrSize type + n + 1) :
    Headed (initHeader { base, block := bytes, offset := sdsHdrSize type } type n) type n n
      (bytes.drop (sdsHdrSize type)) := by
  have start : sdsHdrSize type ≤ bytes.length := by omega
  obtain ⟨len, alloc, flags, -, -, fields⟩ :=
    Fields.of_block (s := { base, block := bytes, offset := sdsHdrSize type }) rfl start
  cases type
  case type5 =>
    have after := fields.setType5Len (n := n)
    exact ⟨⟨after.offset, after.block⟩, fits, fits⟩
  all_goals exact ⟨fields.setHdrLen.setHdrAlloc.setFlags, fits, fits⟩

/-- A new block whose header is filled in becomes a string with what it was given. -/
@[spec] theorem initContent_spec {init : SdsInit}
    (given : ∀ bytes, init = .bytes bytes → n ≤ bytes.length)
    (fresh : ∃ type buf, Sized s type n n buf ∧
      (init = .null → buf = List.replicate (n + 1) 0)) :
    ⦃fun m => ⌜m = m₀⌝⦄
    initContent s init n
    ⦃post⟨fun r m => ⌜r.Valid ∧ init.Gives n r.content ∧ r.base = s.base ∧ m = m₀⌝,
      fun _ _ => ⌜False⌝⟩⦄ := by
  obtain ⟨type, buf, sized, zeros⟩ := fresh
  have room : s.offset + n + [0].length ≤ s.block.length := sized.inside (Nat.le_refl _)
  cases init with
  | bytes bytes =>
    have enough := given bytes rfl
    have length : (bytes.take n).length = n := List.length_take_of_le enough
    have short : 0 + (bytes.take n).length ≤ n + 1 := by omega
    have sized' := sized.written 0 (bytes.take n) short
    have copied := Bytes.take_overwrite (bytes.take n) (Nat.zero_le buf.length)
    rw [length, Nat.zero_add, List.take_zero, List.nil_append] at copied
    simp only [initContent, if_pos enough]
    mvcgen
    case vc1.inside => exact sized.inside (by omega)
    case vc2.bytes.post.success.post.success m same r m₁ written r' m₂ =>
      rintro rfl rfl
      obtain ⟨rfl, rfl⟩ := written
      obtain ⟨framed, content⟩ := sized'.terminate le_rfl
      exact ⟨⟨_, _, _, _, framed⟩, content.trans copied, rfl, same⟩
    case vc3 m same r =>
      rintro m₁ rfl rfl
      exact sized'.inside (Nat.le_refl _)
  | noinit =>
    obtain ⟨framed, content⟩ := sized.terminate le_rfl
    simp only [initContent]
    mvcgen
    case vc1.noinit.post.success m same r m₁ =>
      rintro rfl rfl
      refine ⟨⟨_, _, _, _, framed⟩, ?_, rfl, same⟩
      rw [SdsInit.Gives, content, List.length_take, sized.size]
      omega
    case vc2 => exact fun _ _ => room
  | null =>
    obtain ⟨framed, content⟩ := sized.terminate le_rfl
    simp only [initContent]
    mvcgen
    case vc1.null.post.success m same r m₁ =>
      rintro rfl rfl
      refine ⟨⟨_, _, _, _, framed⟩, ?_, rfl, same⟩
      rw [SdsInit.Gives, content, zeros, List.take_replicate]
      simp
    case vc2 => exact fun _ _ => room

/-- Filling in the header does not change where the block is. -/
@[simp] theorem initHeader_base (s : SdsString) (type : SdsType) (n : Nat) :
    (initHeader s type n).base = s.base := by
  cases type <;> rfl

/-- `sdsnewlen` returns a string of the length in a new block, or the allocator refused. -/
@[spec] theorem sdsnewlen_spec {init : SdsInit} (small : n < 2 ^ 63)
    (given : ∀ bytes, init = .bytes bytes → n ≤ bytes.length) :
    ⦃fun m => ⌜m = m₀⌝⦄
    sdsnewlen A init n
    ⦃post⟨fun r m => ⌜r.Valid ∧ init.Gives n r.content ∧ m₀.Trades m [] [r.base] ∧
        m.requests = m₀.requests + 1⌝,
      fun e m => ⌜e = .outOfMemory ∧ A.Refuses ∧ m₀.Trades m [] []⌝⟩⦄ := by
  have header := sdsHdrSize_le (newType n)
  have fits := newType_fits (show n < 2 ^ 64 by omega)
  have whole : sizeT (sdsHdrSize (newType n) + n + 1) = sdsHdrSize (newType n) + n + 1 :=
    Nat.mod_eq_of_lt (by omega)
  simp only [sdsnewlen, whole]
  mvcgen
  case vc1.post.success.post.success m same p m₁ drawn r m₂ =>
    intro valid gives base same'
    subst same same'
    rw [base, initHeader_base]
    exact ⟨valid, gives, drawn.1, drawn.2.1⟩
  case vc2 => exact fun _ _ _ _ => given
  case vc3 m same p =>
    intro m₁ _ _ size
    let bytes := if init = .null then List.replicate p.2.length 0 else p.2
    have length : bytes.length = sdsHdrSize (newType n) + n + 1 := by
      show (if _ then _ else _ : List UInt8).length = _
      split_ifs
      · rw [List.length_replicate, size]
      · exact size
    refine ⟨newType n, _, ⟨headed_initHeader fits length, ?_⟩, ?_⟩
    · rw [List.length_drop, length]
      omega
    · intro null
      show (if _ then _ else _ : List UInt8).drop _ = _
      rw [if_pos null, List.drop_replicate, size, Nat.add_assoc, Nat.add_sub_cancel_left]
  case vc4.post.except.handle m same e m' =>
    subst same
    exact fun fault refuses trades => ⟨fault, refuses, trades⟩

/-- `sdsnewlen` copies as many bytes as it is told of those it is given. -/
theorem sdsnewlen_bytes {bytes : List UInt8} (m₀ : Memory) (given : n ≤ bytes.length)
    (small : n < 2 ^ 63) :
    ⦃fun m => ⌜m = m₀⌝⦄
    sdsnewlen A (.bytes bytes) n
    ⦃post⟨fun r m => ⌜r.Valid ∧ r.content = bytes.take n ∧ m₀.Trades m [] [r.base]⌝,
      fun e m => ⌜Lacks A m₀ m [] [] e⌝⟩⦄ := by
  refine Allocating.weaken (sdsnewlen_spec small ?_) ?_ ?_
  · rintro _ ⟨rfl⟩
    exact given
  · rintro r m ⟨valid, gives, trades, -⟩
    exact ⟨valid, gives, trades⟩
  · rintro e m ⟨fault, refuses, trades⟩
    exact ⟨fault, refuses, trades⟩

/-- `sdsempty` returns the empty string. -/
theorem sdsempty_spec (m₀ : Memory) :
    ⦃fun m => ⌜m = m₀⌝⦄
    sdsempty A
    ⦃post⟨fun r m => ⌜r.Valid ∧ r.content = [] ∧ m₀.Trades m [] [r.base]⌝,
      fun e m => ⌜Lacks A m₀ m [] [] e⌝⟩⦄ :=
  sdsnewlen_bytes m₀ (Nat.zero_le _) (by decide)

/-- `sdsnew` returns the bytes of a C string, and the empty string for `NULL`. -/
theorem sdsnew_spec {init : Option (List UInt8)} (m₀ : Memory)
    (small : ∀ text ∈ init, (cstr text).length < 2 ^ 63) :
    ⦃fun m => ⌜m = m₀⌝⦄
    sdsnew A init
    ⦃post⟨fun r m => ⌜r.Valid ∧ r.content = init.elim [] cstr ∧ m₀.Trades m [] [r.base]⌝,
      fun e m => ⌜Lacks A m₀ m [] [] e⌝⟩⦄ := by
  cases init with
  | none =>
    refine Allocating.weaken (sdsnewlen_spec (by decide) nofun) ?_ ?_
    · rintro r m ⟨valid, gives, trades, -⟩
      exact ⟨valid, gives, trades⟩
    · rintro e m ⟨fault, refuses, trades⟩
      exact ⟨fault, refuses, trades⟩
  | some text =>
    refine Allocating.weaken (sdsnewlen_bytes m₀ le_rfl (small text rfl)) ?_ fun _ _ lacks => lacks
    rintro r m ⟨valid, content, trades⟩
    exact ⟨valid, content.trans List.take_length, trades⟩

/-- `sdsdup` returns the same bytes in a block of their own. -/
theorem sdsdup_spec (m₀ : Memory) (valid : s.Valid) (small : s.content.length < 2 ^ 63) :
    ⦃fun m => ⌜m = m₀⌝⦄
    sdsdup A s
    ⦃post⟨fun r m => ⌜r.Valid ∧ r.content = s.content ∧ m₀.Trades m [] [r.base]⌝,
      fun e m => ⌜Lacks A m₀ m [] [] e⌝⟩⦄ := by
  have length := valid.sdslen_eq
  refine sdsnewlen_bytes m₀ ?_ (length ▸ small)
  rw [length, SdsString.content]
  exact List.length_take_le' _ _

/-- `sdsAllocSize` is the size of the block, behind a header that holds it. -/
theorem sdsAllocSize_eq (valid : s.Valid) (wide : s.type ≠ some .type5) :
    sdsAllocSize s = s.block.length := by
  obtain ⟨type, len, room, buf, framed⟩ := valid
  have holds : type ≠ .type5 := fun same => wide (same ▸ framed.type_eq)
  rw [sdsAllocSize, framed.hdrSize_eq, framed.sdsalloc_eq, if_neg holds, framed.length_block,
    framed.size, Nat.add_assoc]

/-- `sdsfree` gives the block of a string back. -/
theorem sdsfree_spec (m₀ : Memory) (valid : s.Valid) :
    ⦃fun m => ⌜m = m₀⌝⦄
    sdsfree (some s)
    ⦃post⟨fun _ m => ⌜m₀.Trades m [s.base] []⌝, fun _ _ => ⌜False⌝⟩⦄ := by
  obtain ⟨type, len, room, buf, framed⟩ := valid
  exact Allocating.weaken (sFree_spec framed.hdrSize_eq) (fun _ _ freed => freed.1)
    fun _ _ wrong => wrong

end Sherry
