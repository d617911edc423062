import Sherry.Verif.StringNumbers

/-!
# Formats

What `sdscatprintf` and `sdscatfmt` append. The first gives back every buffer it printed into; the
second writes pieces of the text where the free space ends, and asks for room before each of them.
-/

namespace Sherry

open Std.Do

set_option mvcgen.warning false

variable {A : Allocator} {s r : SdsString} {m₀ m : Memory} {n : Nat}

/-- What the buffer holds up to the length that `sdsll2str` or `sdsull2str` returns. -/
theorem take_number (stack : Vector UInt8 sdsLlstrSize) (text : List UInt8) :
    (Bytes.overwrite stack.toList 0 (text ++ [0])).take text.length = text := by
  rw [Bytes.overwrite, List.take_zero, List.nil_append, List.append_assoc, List.take_left]

/-- `sdsfromlonglong` returns the decimal text. -/
theorem sdsfromlonglong_spec (stack : Vector UInt8 sdsLlstrSize) (value : Int64) (m₀ : Memory) :
    ⦃fun m => ⌜m = m₀⌝⦄
    sdsfromlonglong A stack value
    ⦃post⟨fun r m => ⌜r.Valid ∧ r.content = signedDecimal value.toInt ∧ m₀.Trades m [] [r.base]⌝,
      fun e m => ⌜Lacks A m₀ m [] [] e⌝⟩⦄ := by
  have fits := signedDecimal_fits value
  have room : (signedDecimal value.toInt).length < stack.toList.length := by
    rwa [Vector.length_toList]
  have length : (Bytes.overwrite stack.toList 0 (signedDecimal value.toInt ++ [0])).length =
      stack.toList.length :=
    Bytes.length_overwrite (by rw [List.length_append, List.length_singleton]; omega)
  have small : (signedDecimal value.toInt).length < 2 ^ 63 := by
    rw [sdsLlstrSize] at fits
    omega
  simp only [sdsfromlonglong, sdsll2str_eq value room, pure_bind]
  refine Allocating.weaken (sdsnewlen_bytes m₀ (by omega) small) ?_ fun _ _ lacks => lacks
  rintro r m ⟨valid, content, trades⟩
  exact ⟨valid, content.trans (take_number stack _), trades⟩

/-- The string that `sdsfromlonglong` makes for a number of 64 bits says the number, and its buffer
is never too short. -/
theorem sdsfromlonglong_reads (stack : Vector UInt8 sdsLlstrSize) (value : Int64) (m₀ : Memory) :
    ⦃fun m => ⌜m = m₀⌝⦄
    sdsfromlonglong A stack value
    ⦃post⟨fun r m => ⌜r.Valid ∧ r.content = signedDecimal value.toInt ∧
        readDecimal r.content = value.toInt ∧ m₀.Trades m [] [r.base]⌝,
      fun e m => ⌜Lacks A m₀ m [] [] e⌝⟩⦄ := by
  refine Allocating.weaken (sdsfromlonglong_spec stack value m₀) ?_ fun _ _ lacks => lacks
  rintro r m ⟨valid, content, traded⟩
  exact ⟨valid, content, content ▸ readDecimal_signedDecimal value.toInt, traded⟩

/-- The block of a buffer, if it is one. -/
def PrintBuffer.held (buf : PrintBuffer) : List Nat := buf.block.toList

/-- The buffer is given back. -/
@[spec] theorem release_spec (buf : PrintBuffer) :
    ⦃fun m => ⌜m = m₀⌝⦄
    buf.release
    ⦃post⟨fun _ m => ⌜m₀.Trades m buf.held []⌝, fun _ _ => ⌜False⌝⟩⦄ := by
  mvcgen [PrintBuffer.release]
  case vc1.h_1 static m same =>
    rw [PrintBuffer.held, static]
    exact same ▸ .refl _ _
  case vc2.h_2.post.success block found m same _ m' =>
    rw [PrintBuffer.held, found]
    exact fun given _ => same ▸ given

/-- A buffer of the size is drawn. -/
@[spec] theorem newBuffer_spec (small : n < 2 ^ 64) :
    ⦃fun m => ⌜m = m₀⌝⦄
    newBuffer A n
    ⦃post⟨fun r m => ⌜m₀.Trades m [] r.held ∧ r.bytes.length = n⌝,
      fun e m => ⌜e = .outOfMemory ∧ A.Refuses ∧ m₀.Trades m [] []⌝⟩⦄ := by
  mvcgen [newBuffer]
  case vc1.post.success m same p m' drawn =>
    subst same
    exact ⟨drawn.1, drawn.2.2.trans (Nat.mod_eq_of_lt small)⟩
  case vc2.post.except.handle m same e m' => exact same ▸ fun fault refuses trades =>
    ⟨fault, refuses, trades⟩

/-- What goes wrong in `sdscatprintf` when nothing is appended: there is no text that an `int` can
tell the length of, or the allocator refused. -/
def PrintFails (A : Allocator) (text : Option (List UInt8)) (e : SdsFault) : Prop :=
  e = .formatFailed ∧ (∀ t, text = some t → 2 ^ 31 ≤ t.length) ∨ e = .outOfMemory ∧ A.Refuses

/-- What `vsnprintf` returns and leaves in the buffer. -/
theorem vsnprintf_cases (text : Option (List UInt8)) (buf : List UInt8) :
    ((vsnprintf text buf).2 < 0 ∧ ∀ t, text = some t → 2 ^ 31 ≤ t.length) ∨
      ∃ t, text = some t ∧ t.length < 2 ^ 31 ∧ (vsnprintf text buf).2 = t.length ∧
        (t.length < buf.length → (vsnprintf text buf).1.take t.length = t) := by
  cases text with
  | none =>
    refine .inl ⟨?_, ?_⟩
    · rw [vsnprintf]
      omega
    · intro t found
      cases found
  | some t =>
    by_cases small : t.length < 2 ^ 31
    · refine .inr ⟨t, rfl, small, ?_, fun fits => ?_⟩
      · rw [vsnprintf, if_pos small]
      · rw [vsnprintf, if_pos small, if_neg (by omega)]
        have whole : t.take (buf.length - 1) = t := List.take_of_length_le (by omega)
        simp [Bytes.overwrite, whole]
    · refine .inl ⟨?_, ?_⟩
      · rw [vsnprintf, if_neg small]
        omega
      · rintro _ ⟨rfl⟩
        exact not_lt.mp small

/-- The loop of `sdscatvprintf` ends with the text in a buffer, or with no buffer. It prints a
second time when the text did not fit, and never a third time. -/
theorem printLoop_spec {text : Option (List UInt8)} (rounds : Nat) (buf : PrintBuffer) (m₀ : Memory)
    (enough : 0 < rounds ∧ (∀ t, text = some t → t.length < buf.bytes.length) ∨ 1 < rounds) :
    ⦃fun m => ⌜m = m₀⌝⦄
    printLoop A text rounds buf
    ⦃post⟨fun r m => ⌜∃ t, text = some t ∧ t.length < 2 ^ 31 ∧ r.2 = t.length ∧
        r.1.bytes.take t.length = t ∧ m₀.Trades m buf.held r.1.held⌝,
      fun e m => ⌜PrintFails A text e ∧ m₀.Trades m buf.held []⌝⟩⦄ := by
  induction rounds generalizing buf m₀ with
  | zero => omega
  | succ rounds ih =>
    have printed := vsnprintf_cases text buf.bytes
    mvcgen [printLoop, ih]
    case vc1.succ.isTrue.post.success failed m same _ m' given =>
      rcases printed with ⟨-, unprintable⟩ | ⟨t, -, -, length, -⟩
      · exact ⟨.inl ⟨rfl, unprintable⟩, same ▸ given⟩
      · omega
    case vc2.small worked longer m same _ m' given =>
      rcases printed with ⟨failed, -⟩ | ⟨t, -, small, length, -⟩ <;> omega
    case vc3.succ.isFalse.isTrue.post.success.post.success.post.success =>
      rename_i worked longer m same _ m₁ given fresh m₂ drawn r m₃
      rintro ⟨t, found, small, length, bytes, trades⟩
      exact ⟨t, found, small, length, bytes, same ▸ (given.trans drawn.1).trans trades⟩
    case vc4.succ.isFalse.isTrue.post.success.post.success.post.except.handle =>
      rename_i worked longer m same _ m₁ given fresh m₂ drawn e m₃
      exact fun fails trades => ⟨fails, same ▸ (given.trans drawn.1).trans trades⟩
    case vc5 worked longer m same _ m' given fresh =>
      intro m'' _ size
      left
      refine ⟨?_, fun t found => ?_⟩
      · rcases printed with ⟨failed, -⟩ | ⟨t, found, -, length, -⟩
        · omega
        · rcases enough with ⟨-, fits⟩ | more
          · have short := fits t found
            omega
          · omega
      · rcases printed with ⟨failed, -⟩ | ⟨t', found', -, length, -⟩
        · omega
        · cases found.symm.trans found'
          omega
    case vc6.succ.isFalse.isTrue.post.success.post.except.handle =>
      rename_i worked longer m same _ m₁ given e m₂
      exact fun fault refuses trades => ⟨.inr ⟨fault, refuses⟩, same ▸ given.trans trades⟩
    case vc7.succ.isFalse.isFalse worked fits m same =>
      rcases printed with ⟨failed, -⟩ | ⟨t, found, small, length, bytes⟩
      · omega
      · exact ⟨t, found, small, by omega, bytes (by omega), same ▸ .refl _ _⟩

/-- The buffer that `sdscatvprintf` starts with is its own, or a new block. -/
@[spec] theorem firstBuffer_spec {fmt : List UInt8} (stack : Vector UInt8 1024)
    (format : (cstr fmt).length < 2 ^ 63) :
    ⦃fun m => ⌜m = m₀⌝⦄
    firstBuffer A stack fmt
    ⦃post⟨fun r m => ⌜m₀.Trades m [] r.held⌝,
      fun e m => ⌜e = .outOfMemory ∧ A.Refuses ∧ m₀.Trades m [] []⌝⟩⦄ := by
  have small : (cstr fmt).length * 2 < 2 ^ 64 := by omega
  simp only [firstBuffer]
  mvcgen
  case vc1.isTrue.post.success long m same r m' => exact fun trades _ => same ▸ trades
  case vc2.isTrue.post.except.handle long m same e m' =>
    exact same ▸ fun fault refuses trades => ⟨fault, refuses, trades⟩
  case vc3 => exact fun _ _ => small
  case vc4.isFalse short m same => exact same ▸ .refl _ _

/-- What was printed is appended, and the buffer is given back whether there is memory for it or
not. -/
@[spec] theorem catPrinted_spec {buf : PrintBuffer} (valid : s.Valid)
    (small : s.content.length + (buf.bytes.take n).length < 2 ^ 63) :
    ⦃fun m => ⌜m = m₀⌝⦄
    catPrinted A s buf n
    ⦃post⟨fun r m => ⌜r.Valid ∧ r.content = s.content ++ buf.bytes.take n ∧
        m₀.Trades m (s.base :: buf.held) [r.base]⌝,
      fun e m => ⌜e = .outOfMemory ∧ A.Refuses ∧ m₀.Trades m (s.base :: buf.held) [s.base]⌝⟩⦄ := by
  mvcgen [catPrinted]
  case vc3.post.success.post.success m same r m' becomes _ m'' given =>
    subst same
    have catted := becomes.trades.frame (.refl ([s.base] ++ buf.held)) (.refl _)
    exact ⟨becomes.valid, becomes.content, catted.trans (given.beside [r.base])⟩
  case vc4.post.except.handle.post.success m same e m' refused _ m'' given =>
    subst same
    have kept := refused.trades.frame (.refl ([s.base] ++ buf.held)) (.refl _)
    exact ⟨refused.fault, refused.refuses, kept.trans (given.beside [s.base])⟩

/-- `sdscatprintf` appends the text and gives every buffer back, or the string it was given is
still there and every buffer is given back. -/
@[spec] theorem sdscatvprintf_spec {text : Option (List UInt8)} {fmt : List UInt8} {rounds : Nat}
    (stack : Vector UInt8 1024) (valid : s.Valid)
    (small : ∀ t, text = some t → s.content.length + t.length < 2 ^ 63)
    (format : (cstr fmt).length < 2 ^ 63) (enough : 1 < rounds) :
    ⦃fun m => ⌜m = m₀⌝⦄
    sdscatvprintf A rounds stack s fmt text
    ⦃post⟨fun r m => ⌜∃ t, text = some t ∧ Becomes m₀ m s r (s.content ++ t)⌝,
      fun e m => ⌜PrintFails A text e ∧ m₀.Trades m [s.base] [s.base]⌝⟩⦄ := by
  have loop := fun buf m₀ => @printLoop_spec A text rounds buf m₀ (.inr enough)
  mvcgen [sdscatvprintf, loop]
  case vc2.post.success.post.success.post.success =>
    rename_i m same first m₁ drawn printed m₂ looped r m₃
    intro valid content trades
    obtain ⟨t, found, -, length, bytes, kept⟩ := looped
    rw [length, bytes] at content
    exact ⟨t, found, valid, content, same ▸ ((drawn.trans kept).beside [s.base]).trans trades⟩
  case vc3.post.success.post.success.post.except.handle =>
    rename_i m same first m₁ drawn printed m₂ looped e m₃
    intro fault refuses trades
    obtain ⟨t, found, -, length, bytes, kept⟩ := looped
    exact ⟨.inr ⟨fault, refuses⟩, same ▸ ((drawn.trans kept).beside [s.base]).trans trades⟩
  case vc4 => exact fun _ _ => valid
  case vc5 m same first m₁ drawn printed =>
    rintro m₂ ⟨t, found, short, length, bytes, kept⟩
    rw [length, bytes]
    exact small t found
  case vc6.post.success.post.except.handle m same first m₁ drawn e m₂ =>
    exact fun fails kept => ⟨fails, same ▸ (drawn.trans kept).beside [s.base]⟩
  case vc7.post.except.handle m same e m' =>
    exact fun fault refuses kept => ⟨.inr ⟨fault, refuses⟩, same ▸ kept.beside [s.base]⟩

/-- The text of an argument for a specifier that it suits. -/
def FmtArg.text : FmtArg → UInt8 → Option (List UInt8)
  | .str text, c => if c = 's'.toUInt8 then some (cstr text) else none
  | .sds s, c => if c = 'S'.toUInt8 then some s.content else none
  | .int value, c => if c = 'i'.toUInt8 then some (signedDecimal value.toInt) else none
  | .longLong value, c => if c = 'I'.toUInt8 then some (signedDecimal value.toInt) else none
  | .uint value, c => if c = 'u'.toUInt8 then some (decimal value.toNat) else none
  | .ulongLong value, c => if c = 'U'.toUInt8 then some (decimal value.toNat) else none

/-- The specifiers that take an argument. -/
def specifiers : List UInt8 := ['s', 'S', 'i', 'I', 'u', 'U'].map Char.toUInt8

/-- The text that a format makes of its arguments, if they suit it. A percent sign at the end of
the format is dropped. -/
def render : List UInt8 → List FmtArg → Option (List UInt8)
  | [], _ => some []
  | c :: f, args =>
    if c = '%'.toUInt8 then
      match f with
      | [] => some []
      | next :: f =>
        if next ∈ specifiers then
          match args with
          | [] => none
          | arg :: args => do return (← arg.text next) ++ (← render f args)
        else (render f args).map (next :: ·)
    else (render f args).map (c :: ·)

/-- A converted argument is its text. -/
theorem fmtArg_eq (stack : Vector UInt8 sdsLlstrSize) {next : UInt8} {arg : FmtArg}
    {args : List FmtArg} {text : List UInt8} (valid : ∀ t, arg = .sds t → t.Valid)
    (suits : arg.text next = some text) :
    fmtArg stack next (arg :: args) = pure (some (text, args)) := by
  have signed : ∀ value : Int64, sdsll2str stack.toList value =
      pure (Bytes.overwrite stack.toList 0 (signedDecimal value.toInt ++ [0]),
        (signedDecimal value.toInt).length) := fun value =>
    sdsll2str_eq value (by rw [Vector.length_toList]; exact signedDecimal_fits value)
  have unsigned : ∀ v : UInt64, sdsull2str stack.toList v =
      pure (Bytes.overwrite stack.toList 0 (decimal v.toNat ++ [0]), (decimal v.toNat).length) :=
    fun v => sdsull2str_eq v (by rw [Vector.length_toList]; exact decimal_fits v)
  cases arg with
  | str t =>
    simp only [FmtArg.text, Option.ite_none_right_eq_some, Option.some.injEq] at suits
    obtain ⟨rfl, rfl⟩ := suits
    rfl
  | sds t =>
    simp only [FmtArg.text, Option.ite_none_right_eq_some, Option.some.injEq] at suits
    obtain ⟨rfl, rfl⟩ := suits
    have read := (valid t rfl).read_content
    simp +decide [fmtArg, read]
  | int value =>
    simp only [FmtArg.text, Option.ite_none_right_eq_some, Option.some.injEq] at suits
    obtain ⟨rfl, rfl⟩ := suits
    have number := signed value.toInt64
    rw [Int32.toInt_toInt64] at number
    simp +decide [fmtArg, number, take_number]
  | longLong value =>
    simp only [FmtArg.text, Option.ite_none_right_eq_some, Option.some.injEq] at suits
    obtain ⟨rfl, rfl⟩ := suits
    simp +decide [fmtArg, signed, take_number]
  | uint value =>
    simp only [FmtArg.text, Option.ite_none_right_eq_some, Option.some.injEq] at suits
    obtain ⟨rfl, rfl⟩ := suits
    have number := unsigned value.toUInt64
    rw [UInt32.toNat_toUInt64] at number
    simp +decide [fmtArg, number, take_number]
  | ulongLong value =>
    simp only [FmtArg.text, Option.ite_none_right_eq_some, Option.some.injEq] at suits
    obtain ⟨rfl, rfl⟩ := suits
    simp +decide [fmtArg, unsigned, take_number]

/-- Other specifiers take no argument. -/
theorem fmtArg_none (stack : Vector UInt8 sdsLlstrSize) {next : UInt8} (args : List FmtArg)
    (other : next ∉ specifiers) : fmtArg stack next args = pure none := by
  simp only [specifiers, List.map_cons, List.map_nil, List.mem_cons, List.not_mem_nil, or_false,
    not_or] at other
  obtain ⟨s, S, i, I, u, U⟩ := other
  simp only [fmtArg, s, S, i, I, u, U, if_false]

/-- A string that is being built: it is stored behind a header that tells of its room. -/
def SdsString.Open (s : SdsString) : Prop :=
  ∃ type len room buf, Filled s type len room buf ∧ type ≠ .type5

/-- A string that is being built holds some bytes now. -/
structure Builds (m₀ m : Memory) (s r : SdsString) (content : List UInt8) : Prop where
  /-- It can be built further. -/
  opened : r.Open
  /-- The bytes. -/
  content : r.content = content
  /-- One block for the other. -/
  trades : m₀.Trades m [s.base] [r.base]

/-- A string with room for a text has it appended. -/
theorem Filled.extended {type : SdsType} {len room : Nat} {buf text : List UInt8}
    (filled : Filled s type len room buf) (wide : type ≠ .type5)
    (enough : len + text.length ≤ room) :
    let written := { s with block := Bytes.overwrite s.block (s.offset + len) text }
    Builds m m s (sdsinclen written text.length) (s.content ++ text) ∧
      s.offset + len + text.length ≤ s.block.length := by
  intro written
  have sized := (filled.written len text (Nat.le_succ_of_le enough)).counted enough
  have done : Filled (sdsinclen written text.length) type (len + text.length) room _ :=
    ⟨sized, enough⟩
  have inside : len ≤ buf.length := by
    rw [filled.size]
    omega
  refine ⟨⟨⟨type, _, room, _, done, wide⟩, ?_, ?_⟩, filled.inside (by omega)⟩
  · rw [done.content_eq, Bytes.take_overwrite text inside, filled.content_eq]
  · rw [sdsinclen_base]
    exact .refl _ _

/-- The free space of a string that is being built is its room. -/
theorem SdsString.Open.room (opened : s.Open) (enough : n ≤ sdsavail s) :
    ∃ type room buf, Filled s type s.content.length room buf ∧ type ≠ .type5 ∧
      s.content.length + n ≤ room := by
  obtain ⟨type, len, room, buf, filled, wide⟩ := opened
  have within := filled.within
  have length := filled.length_content
  rw [filled.sdsavail_eq, if_neg wide] at enough
  exact ⟨type, room, buf, length.symm ▸ filled, wide, by omega⟩

/-- After room was asked for, a string can be built further. -/
theorem MadeRoom.builds (made : MadeRoom m₀ s n m r) (stored : s.Stored) (positive : 0 < n)
    (small : s.content.length + n < 2 ^ 63) :
    Builds m₀ m s r s.content ∧ n ≤ sdsavail r := by
  obtain ⟨type, room, buf, filled, enough, wide, content, trades⟩ := made.filled stored small
  refine ⟨⟨⟨type, _, room, buf, filled, wide positive⟩, content, trades⟩, ?_⟩
  rw [filled.sdsavail_eq, if_neg (wide positive)]
  omega

/-- Where the free space is too small, room is asked for. -/
@[spec] theorem fmtRoom_spec (short : Bool) (opened : s.Open) (needed : short → 0 < n)
    (enough : ¬short → n ≤ sdsavail s) (small : s.content.length + n < 2 ^ 63) :
    ⦃fun m => ⌜m = m₀⌝⦄
    fmtRoom A s short n
    ⦃post⟨fun r m => ⌜Builds m₀ m s r s.content ∧ n ≤ sdsavail r⌝,
      fun e m => ⌜Refused A m₀ m s e⌝⟩⦄ := by
  have stored : s.Stored := by
    obtain ⟨type, len, room, buf, filled, -⟩ := opened
    exact ⟨type, len, room, buf, filled⟩
  mvcgen [fmtRoom]
  case vc1.isTrue.post.success short m same r m' =>
    exact same ▸ fun made => made.builds stored (needed short) small
  case vc2.isTrue.post.except.handle short m same e m' => exact same ▸ id
  case vc3 => exact fun _ _ => stored
  case vc4 => exact fun _ _ => small
  case vc5.isFalse roomy m same => exact ⟨⟨opened, rfl, same ▸ .refl _ _⟩, enough roomy⟩

/-- Where there is free space, bytes are appended. -/
@[spec] theorem fmtPut_spec (bytes : List UInt8) (opened : s.Open)
    (enough : bytes.length ≤ sdsavail s) :
    ⦃fun m => ⌜m = m₀⌝⦄
    fmtPut s s.content.length bytes
    ⦃post⟨fun r m => ⌜Builds m₀ m s r (s.content ++ bytes)⌝, fun _ _ => ⌜False⌝⟩⦄ := by
  obtain ⟨type, room, buf, filled, wide, enough⟩ := opened.room enough
  obtain ⟨builds, inside⟩ := filled.extended (m := m₀) wide enough
  mvcgen [fmtPut]
  case vc2.post.success m same r m' written =>
    subst same
    obtain ⟨rfl, rfl⟩ := written
    exact builds

/-- The loop of `sdscatfmt` appended a text, and knows where it ends. -/
def FmtDone (m₀ : Memory) (s : SdsString) (text : List UInt8) (r : SdsString × Nat) (m : Memory) :
    Prop :=
  Builds m₀ m s r.1 (s.content ++ text) ∧ r.2 = r.1.content.length

/-- The allocator refused in `sdscatfmt`; one block is held. -/
def FmtFailed (A : Allocator) (m₀ : Memory) (s : SdsString) (e : SdsFault) (m : Memory) : Prop :=
  e = .outOfMemory ∧ A.Refuses ∧ ∃ held, m₀.Trades m [s.base] [held]

/-- A refusal after some bytes were appended. -/
theorem Builds.failed {content : List UInt8} {e : SdsFault} {m₁ : Memory}
    (builds : Builds m₀ m₁ s r content) (refused : Refused A m₁ m r e) : FmtFailed A m₀ s e m :=
  ⟨refused.fault, refused.refuses, r.base, builds.trades.trans refused.trades⟩

/-- One change after the other. -/
theorem Builds.trans {content later : List UInt8} {q : SdsString} {m₁ : Memory}
    (first : Builds m₀ m₁ s q content) (second : Builds m₁ m q r later) : Builds m₀ m s r later :=
  ⟨second.opened, second.content, first.trades.trans second.trades⟩

/-- The loop of `sdscatfmt` appends bytes and goes on behind them. -/
theorem Builds.put {bytes f rest : List UInt8} {args : List FmtArg} {q : SdsString} {m₁ : Memory}
    {stack : Vector UInt8 sdsLlstrSize} (made : Builds m₀ m₁ s q s.content)
    (free : bytes.length ≤ sdsavail q)
    (later : ∀ r m₂, r.Open → r.content = s.content ++ bytes →
      ⦃fun m => ⌜m = m₂⌝⦄ fmtLoop A stack f r r.content.length args
      ⦃post⟨fun p m => ⌜FmtDone m₂ r rest p m⌝, fun e m => ⌜FmtFailed A m₂ r e m⌝⟩⦄) :
    ⦃fun m => ⌜m = m₁⌝⦄
    (fmtPut q s.content.length bytes >>= fun r =>
      fmtLoop A stack f r (s.content.length + bytes.length) args)
    ⦃post⟨fun p m => ⌜FmtDone m₀ s (bytes ++ rest) p m⌝, fun e m => ⌜FmtFailed A m₀ s e m⌝⟩⦄ := by
  have put := @fmtPut_spec q m₁ bytes made.opened free
  rw [made.content] at put
  refine Allocating.seq (Allocating.weaken put (fun r m builds => builds) ?_) ?_
  · exact fun e m impossible => impossible.elim
  · intro r m₂ second
    have builds := made.trans second
    have position : s.content.length + bytes.length = r.content.length := by
      rw [builds.content, List.length_append]
    rw [position]
    refine Allocating.weaken (later r m₂ builds.opened builds.content) ?_ ?_
    · rintro p m ⟨done, index⟩
      refine ⟨⟨done.opened, ?_, builds.trades.trans done.trades⟩, index⟩
      rw [done.content, builds.content, List.append_assoc]
    · rintro e m ⟨fault, refuses, held, trades⟩
      exact ⟨fault, refuses, held, builds.trades.trans trades⟩

/-- Where the free space is too small, the loop of `sdscatfmt` asks for room and goes on. -/
theorem Builds.room {β : Type} {q : SdsString} {m₁ : Memory} {k : SdsString → SdsM β}
    {Q : β → Memory → Prop} (short : Bool) (made : Builds m₀ m₁ s q s.content)
    (needed : short → 0 < n) (enough : ¬short → n ≤ sdsavail q)
    (small : s.content.length + n < 2 ^ 63)
    (later : ∀ r m₂, Builds m₀ m₂ s r s.content → n ≤ sdsavail r →
      ⦃fun m => ⌜m = m₂⌝⦄ k r ⦃post⟨fun p m => ⌜Q p m⌝, fun e m => ⌜FmtFailed A m₀ s e m⌝⟩⦄) :
    ⦃fun m => ⌜m = m₁⌝⦄
    (fmtRoom A q short n >>= k)
    ⦃post⟨fun p m => ⌜Q p m⌝, fun e m => ⌜FmtFailed A m₀ s e m⌝⟩⦄ := by
  have roomed := @fmtRoom_spec A q m₁ n short made.opened needed enough (made.content ▸ small)
  refine Allocating.seq (Allocating.weaken roomed (fun r m made => made) ?_) ?_
  · exact fun e m refused => made.failed refused
  · rintro r m₂ ⟨second, free⟩
    rw [made.content] at second
    exact later r m₂ (made.trans second) free

/-- The loop of `sdscatfmt` appends the text of the format, or the allocator refused somewhere. -/
theorem fmtLoop_spec {f text : List UInt8} {args : List FmtArg} (stack : Vector UInt8 sdsLlstrSize)
    (opened : s.Open) (valid : ∀ t, .sds t ∈ args → t.Valid) (suits : render f args = some text)
    (small : s.content.length + text.length + 1 < 2 ^ 63) :
    ⦃fun m => ⌜m = m₀⌝⦄
    fmtLoop A stack f s s.content.length args
    ⦃post⟨fun p m => ⌜FmtDone m₀ s text p m⌝, fun e m => ⌜FmtFailed A m₀ s e m⌝⟩⦄ := by
  induction fits : f.length using Nat.strong_induction_on generalizing f text args s m₀ with
  | _ n ih =>
    have start : Builds m₀ m₀ s s s.content := ⟨opened, rfl, .refl _ _⟩
    cases f with
    | nil =>
      cases suits
      rw [fmtLoop]
      exact Triple.pure _ fun m same => ⟨⟨opened, by simp, same ▸ .refl _ _⟩, rfl⟩
    | cons c f =>
      rw [fmtLoop]
      refine start.room _ (by simp) (by simp; omega) (by omega) fun q m₁ made free => ?_
      -- what follows a piece of the text is left to the induction
      have after : ∀ {bytes f rest args'}, f.length < n → render f args' = some rest →
          (∀ t, .sds t ∈ args' → t.Valid) → text = bytes ++ rest → ∀ r m₂, r.Open →
          r.content = s.content ++ bytes →
          ⦃fun m => ⌜m = m₂⌝⦄ fmtLoop A stack f r r.content.length args'
          ⦃post⟨fun p m => ⌜FmtDone m₂ r rest p m⌝, fun e m => ⌜FmtFailed A m₂ r e m⌝⟩⦄ := by
        rintro bytes f rest args' shorter rendered valid rfl r m₂ opened content
        refine ih f.length shorter opened valid rendered ?_ rfl
        rw [content]
        simp only [List.length_append] at small ⊢
        omega
      have tail : f.length < n := by
        rw [← fits, List.length_cons]
        omega
      rw [render.eq_def] at suits
      dsimp only at suits
      by_cases percent : c = '%'.toUInt8
      · rw [if_pos percent] at suits ⊢
        cases f with
        | nil =>
          cases suits
          refine Triple.pure _ fun m same => ⟨?_, by rw [made.content]⟩
          rw [List.append_nil]
          exact same ▸ made
        | cons next f =>
          dsimp only at suits ⊢
          have shorter : f.length < n := (Nat.lt_succ_self _).trans tail
          by_cases takes : next ∈ specifiers
          · rw [if_pos takes] at suits
            cases args with
            | nil => cases suits
            | cons arg args =>
              simp only [Option.bind_eq_bind, Option.bind_eq_some_iff, Option.pure_def,
                Option.some.injEq] at suits
              obtain ⟨str, suits, rest, rendered, whole⟩ := suits
              have known : ∀ t, arg = .sds t → t.Valid := fun t is => valid t (is ▸ .head _)
              rw [fmtArg_eq stack known suits, pure_bind]
              dsimp only
              refine made.room _ ?_ ?_ ?_ fun r m₂ made free => whole ▸ made.put free ?_
              · simp
                omega
              · simp
              · rw [← whole, List.length_append] at small
                omega
              · exact after shorter rendered (fun t known => valid t (.tail _ known)) whole.symm
          · rw [if_neg takes] at suits
            obtain ⟨rest, rendered, whole⟩ := Option.map_eq_some_iff.mp suits
            rw [fmtArg_none stack args takes, pure_bind]
            exact whole ▸ made.put free (after shorter rendered valid whole.symm)
      · rw [if_neg percent] at suits ⊢
        obtain ⟨rest, rendered, whole⟩ := Option.map_eq_some_iff.mp suits
        exact whole ▸ made.put free (after tail rendered valid whole.symm)

/-- A string without its terminator is ended where it ends. -/
theorem write_end {q : SdsString} {m₁ : Memory} (stored : q.Stored)
    (trades : m₀.Trades m₁ [s.base] [q.base]) :
    ⦃fun m => ⌜m = m₁⌝⦄
    q.write q.content.length [0]
    ⦃post⟨fun r m => ⌜Becomes m₀ m s r q.content⌝, fun _ _ => ⌜False⌝⟩⦄ := by
  obtain ⟨type, len, room, buf, filled⟩ := stored
  obtain ⟨framed, content⟩ := filled.terminate filled.within
  rw [filled.length_content]
  refine Allocating.weaken
    (SdsString.write_spec q len [0] (filled.inside (Nat.succ_le_succ filled.within))) ?_ ?_
  · rintro r m ⟨rfl, rfl⟩
    exact ⟨⟨_, _, _, _, framed⟩, content.trans filled.content_eq.symm, trades⟩
  · exact fun e m impossible => impossible

/-- `sdscatfmt` appends the text that the format makes of its arguments, without leaving the block
and without a terminator in between, or the allocator refused somewhere. -/
theorem sdscatfmt_spec {fmt text : List UInt8} {args : List FmtArg}
    (stack : Vector UInt8 sdsLlstrSize) (valid : s.Valid) (known : ∀ t, .sds t ∈ args → t.Valid)
    (suits : render (cstr fmt) args = some text)
    (format : 2 * (s.content.length + (cstr fmt).length) < 2 ^ 63)
    (small : s.content.length + text.length + 1 < 2 ^ 63) :
    ⦃fun m => ⌜m = m₀⌝⦄
    sdscatfmt A stack s fmt args
    ⦃post⟨fun r m => ⌜Becomes m₀ m s r (s.content ++ text)⌝,
      fun e m => ⌜FmtFailed A m₀ s e m⌝⟩⦄ := by
  have roomed := @sdsMakeRoomFor_spec A s m₀ (s.content.length + (cstr fmt).length * 2)
    valid.stored (by omega)
  simp only [sdscatfmt, valid.sdslen_eq]
  refine Allocating.seq (Allocating.weaken roomed (fun q m made => made) ?_) fun q m₁ made => ?_
  · exact fun e m refused => ⟨refused.fault, refused.refuses, _, refused.trades⟩
  obtain ⟨type, room, buf, filled, -, wide, content, trades⟩ :=
    made.filled valid.stored (by omega)
  have appended : ⦃fun m => ⌜m = m₁⌝⦄ fmtLoop A stack (cstr fmt) q s.content.length args
      ⦃post⟨fun p m => ⌜p.1.Stored ∧ p.1.content = s.content ++ text ∧
          p.2 = p.1.content.length ∧ m₀.Trades m [s.base] [p.1.base]⌝,
        fun e m => ⌜FmtFailed A m₀ s e m⌝⟩⦄ := by
    by_cases empty : cstr fmt = []
    · rw [empty] at suits ⊢
      cases suits
      rw [fmtLoop]
      refine Triple.pure _ fun m same => ⟨⟨_, _, _, _, filled⟩, ?_, ?_, same ▸ trades⟩
      · rw [content, List.append_nil]
      · rw [content]
    · have some_format : 0 < (cstr fmt).length := List.length_pos_iff.mpr empty
      have opened : q.Open := ⟨_, _, _, _, filled, wide (by omega)⟩
      rw [← content] at small ⊢
      refine Allocating.weaken (fmtLoop_spec stack opened known suits small) ?_ ?_
      · rintro p m ⟨⟨⟨type, len, room, buf, filled, -⟩, appended, later⟩, index⟩
        exact ⟨⟨type, len, room, buf, filled⟩, appended, index, trades.trans later⟩
      · rintro e m ⟨fault, refuses, held, later⟩
        exact ⟨fault, refuses, held, trades.trans later⟩
  refine Allocating.seq appended ?_
  rintro p m₂ ⟨stored, appended, index, later⟩
  rw [index]
  refine Allocating.weaken (write_end stored later) ?_ fun e m impossible => impossible.elim
  exact fun r m becomes => appended ▸ becomes



end Sherry
