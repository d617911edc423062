import Sherry.Verif.StringArguments

/-!
# Arguments written and read back

`sdscatrepr` appends printable bytes only, whatever it is given, and what it appends is an argument
of the grammar that stands for the bytes it was given. So any list of byte strings, written as
quoted arguments on one line, is returned by `sdssplitargs`.
-/

namespace Sherry

open Std.Do

set_option mvcgen.warning false

variable {A : Allocator} {m₀ m : Memory} {s : SdsString} {text t v rest : List UInt8} {c : UInt8}

/-- What `sdscatrepr` writes for a byte. -/
def escaped (c : UInt8) : List UInt8 :=
  if c = '\\'.toUInt8 ∨ c = '"'.toUInt8 then ['\\'.toUInt8, c]
  else if c = '\n'.toUInt8 then literal ['\\', 'n']
  else if c = '\r'.toUInt8 then literal ['\\', 'r']
  else if c = '\t'.toUInt8 then literal ['\\', 't']
  else if c = 7 then literal ['\\', 'a']
  else if c = 8 then literal ['\\', 'b']
  else if isprint c then [c]
  else literal ['\\', 'x'] ++ [hexDigit (c / 16), hexDigit (c % 16)]

/-- What `sdscatrepr` writes for some bytes. -/
def quoted (p : List UInt8) : List UInt8 :=
  literal ['"'] ++ (p.flatMap escaped ++ literal ['"'])

/-- A short text is printed. -/
theorem printf_appends (stack : Vector UInt8 1024) {fmt : List UInt8}
    (format : (cstr fmt).length < 2 ^ 63) (short : text.length < 2 ^ 31) :
    Appends A (fun s => sdscatvprintf A 2 stack s fmt (some text)) text := by
  intro s m₀ valid small
  have prints := @sdscatvprintf_spec A s m₀ (some text) fmt 2 stack valid
    (by rintro _ ⟨rfl⟩; exact small) format (by decide)
  refine Allocating.weaken prints (fun r m printed => ?_) fun e m failed => ?_
  · obtain ⟨_, ⟨rfl⟩, becomes⟩ := printed
    exact becomes
  · obtain ⟨⟨-, long⟩ | ⟨fault, refuses⟩, trades⟩ := failed
    · exact absurd (long text rfl) (not_le.mpr short)
    · exact ⟨_, fault, refuses, trades⟩

/-- One byte. -/
theorem reprByte_appends (stack : Vector UInt8 1024) (c : UInt8) :
    Appends A (fun s => reprByte A stack s c) (escaped c) := by
  have copies : ∀ text, Appends A (fun s => sdscatlen A s text) text :=
    fun text => .of_refused fun valid small => sdscatlen_spec valid small
  unfold reprByte escaped
  split_ifs
  · exact printf_appends stack (by decide) (show 2 < 2 ^ 31 by decide)
  · exact copies _
  · exact copies _
  · exact copies _
  · exact copies _
  · exact copies _
  · exact printf_appends stack (by decide) (show 1 < 2 ^ 31 by decide)
  · exact printf_appends stack (by decide) (show 4 < 2 ^ 31 by decide)

/-- `sdscatrepr` appends the bytes quoted. -/
theorem sdscatrepr_appends (stack : Vector UInt8 1024) (p : List UInt8) :
    Appends A (fun s => sdscatrepr A stack s p) (quoted p) := by
  have quote : Appends A (fun s => sdscatlen A s (literal ['"'])) (literal ['"']) :=
    .of_refused fun valid small => sdscatlen_spec valid small
  exact quote.seq ((Appends.fold (reprByte_appends stack) p).seq quote)

/-- A digit is printable, and is read as what it was printed for. -/
theorem hexDigit_read {d : UInt8} (small : d < 16) :
    isprint (hexDigit d) ∧ isHexDigit (hexDigit d) ∧ hexDigitToInt (hexDigit d) = d := by
  have each : ∀ n < 16, isprint (hexDigit (UInt8.ofNat n)) ∧ isHexDigit (hexDigit (UInt8.ofNat n)) ∧
      hexDigitToInt (hexDigit (UInt8.ofNat n)) = UInt8.ofNat n := by decide
  have digit := each d.toNat (UInt8.lt_iff_toNat_lt.mp small)
  rwa [UInt8.ofNat_toNat] at digit

/-- The two digits of a byte. -/
theorem byte_digits (c : UInt8) : c / 16 < 16 ∧ c % 16 < 16 ∧ c / 16 * 16 + c % 16 = c := by
  have range := c.toNat_lt
  refine ⟨?_, ?_, ?_⟩
  · rw [UInt8.lt_iff_toNat_lt, UInt8.toNat_div]
    exact Nat.div_lt_of_lt_mul range
  · rw [UInt8.lt_iff_toNat_lt, UInt8.toNat_mod]
    exact Nat.mod_lt _ (by decide)
  · apply UInt8.toNat_inj.mp
    simp only [UInt8.toNat_add, UInt8.toNat_mul, UInt8.toNat_div, UInt8.toNat_mod,
      UInt8.reduceToNat]
    omega

/-- Only printable bytes are written. -/
theorem escaped_printable (c : UInt8) : ∀ b ∈ escaped c, isprint b := by
  obtain ⟨high, low, -⟩ := byte_digits c
  have digits := And.intro (hexDigit_read high).1 (hexDigit_read low).1
  have itself : c = '\\'.toUInt8 ∨ c = '"'.toUInt8 → isprint c := by
    rintro (rfl | rfl) <;> decide
  unfold escaped
  split_ifs with special newline return_ tab bell back printable
  · have slash : isprint '\\'.toUInt8 := by decide
    simp [slash, itself special]
  · decide +kernel
  · decide +kernel
  · decide +kernel
  · decide +kernel
  · decide +kernel
  · simp [printable]
  · have front : ∀ b ∈ literal ['\\', 'x'], isprint b := by decide +kernel
    intro b member
    rcases List.mem_append.mp member with first | last
    · exact front b first
    · simp only [List.mem_cons, List.not_mem_nil, or_false] at last
      rcases last with rfl | rfl
      · exact digits.1
      · exact digits.2

/-- What is written for a byte is read as the byte. -/
theorem reads_escaped (later : Reads .double t v rest) :
    Reads .double (escaped c ++ t) (c :: v) rest := by
  have letter : ∀ {x : UInt8}, x ≠ 'x'.toUInt8 → ¬ HexTail (x :: t) := by
    rintro x other ⟨h, l, rest, same, -⟩
    exact other (List.cons.inj same).1
  unfold escaped
  split_ifs with special newline return_ tab bell back printable
  · have short : ¬ HexTail (c :: t) := letter (by rcases special with rfl | rfl <;> decide)
    have itself : unescape c = c := by rcases special with rfl | rfl <;> decide
    have reads := Reads.escape short later
    rwa [itself] at reads
  · exact newline ▸ .escape (letter (by decide)) later
  · exact return_ ▸ .escape (letter (by decide)) later
  · exact tab ▸ .escape (letter (by decide)) later
  · exact bell ▸ .escape (letter (by decide)) later
  · exact back ▸ .escape (letter (by decide)) later
  · exact .double (fun slash => special (.inl slash)) (fun quote => special (.inr quote)) later
  · obtain ⟨high, low, value⟩ := byte_digits c
    obtain ⟨-, hex_high, read_high⟩ := hexDigit_read high
    obtain ⟨-, hex_low, read_low⟩ := hexDigit_read low
    have reads := Reads.hex hex_high hex_low later
    rwa [read_high, read_low, value] at reads

/-- Quoted bytes are read as the bytes. -/
theorem reads_quoted (x : List UInt8) (follows : Follows t) : Reads .plain (quoted x ++ t) x t := by
  have inner : ∀ y : List UInt8, Reads .double (y.flatMap escaped ++ '"'.toUInt8 :: t) y t := by
    intro y
    induction y with
    | nil => exact .closeDouble follows
    | cons c y ih =>
      rw [List.flatMap_cons, List.append_assoc]
      exact reads_escaped ih
  have opened := Reads.openDouble (inner x)
  have same : quoted x ++ t = '"'.toUInt8 :: (x.flatMap escaped ++ '"'.toUInt8 :: t) := by
    simp [quoted, literal]
  rwa [same]

/-- A blank in front of a line changes nothing. -/
theorem line_blank {vs : List (List UInt8)} (blank : isspace c) (line : Line t vs) :
    Line (c :: t) vs := by
  rw [line_iff] at line ⊢
  rwa [List.dropWhile_cons_of_pos blank]

/-- Quoted arguments with a blank between them are a line. -/
theorem line_quoted (xs : List (List UInt8)) :
    Line ((literal [' ']).intercalate (xs.map quoted)) xs := by
  have argument : ∀ {x t : List UInt8} {vs : List (List UInt8)}, Follows t → Line t vs →
      Line (quoted x ++ t) (x :: vs) := by
    intro x t vs follows line
    have quote : isspace '"'.toUInt8 = false := by decide
    have begins : quoted x ++ t = '"'.toUInt8 :: ((quoted x).tail ++ t) := rfl
    rw [line_iff, begins, List.dropWhile_cons_of_neg (by rw [quote]; exact Bool.false_ne_true),
      ← begins]
    refine .inr ⟨x, t, vs, ?_, reads_quoted x follows, line, rfl⟩
    rw [begins]
    exact List.cons_ne_nil _ _
  induction xs with
  | nil => exact .blanks fun c member => by cases member
  | cons x xs ih =>
    cases xs with
    | nil =>
      have last : Line [] [] := .blanks fun c member => by cases member
      have line := argument (x := x) (fun c found => by cases found) last
      rw [List.append_nil] at line
      rwa [List.map_singleton, List.intercalate_singleton]
    | cons y ys =>
      rw [List.map_cons, List.map_cons, List.intercalate_cons_cons, List.append_assoc]
      have follows : ∀ u : List UInt8, Follows (literal [' '] ++ u) := fun u => follows_cons.mpr rfl
      exact argument (follows _) (line_blank (by decide) ih)

/-- A line of quoted arguments has no null byte. -/
theorem quoted_whole (xs : List (List UInt8)) :
    0 ∉ (literal [' ']).intercalate (xs.map quoted) := by
  have each : ∀ x : List UInt8, 0 ∉ quoted x := by
    intro x zero
    rw [quoted, List.mem_append, List.mem_append, List.mem_flatMap] at zero
    rcases zero with first | ⟨c, -, inner⟩ | last
    · revert first
      decide
    · exact absurd (escaped_printable c 0 inner) (by decide)
    · revert last
      decide
  induction xs with
  | nil => exact List.not_mem_nil
  | cons x xs ih =>
    cases xs with
    | nil =>
      rw [List.map_singleton, List.intercalate_singleton]
      exact each x
    | cons y ys =>
      rw [List.map_cons, List.map_cons, List.intercalate_cons_cons, List.mem_append,
        List.mem_append]
      rintro ((first | blank) | others)
      · exact each x first
      · revert blank
        decide
      · exact ih others

/-- Write some byte strings as quoted arguments on a line. -/
def quoteArgs (A : Allocator) (stack : Vector UInt8 1024) (xs : List (List UInt8)) :
    SdsM SdsString := do
  joinLoop (sdscatrepr A stack) (fun s => sdscatlen A s (literal [' '])) xs (← sdsempty A)

/-- Write some byte strings as quoted arguments and split the line. -/
def quoteSplit (A : Allocator) (stack : Vector UInt8 1024) (xs : List (List UInt8)) :
    SdsM (Option TokenArray) := do
  let line ← quoteArgs A stack xs
  let tokens ← sdssplitargs A (line.block.drop line.offset)
  sdsfree (some line)
  return tokens

/-- The bytes at the pointer to a string without null bytes are a C string, the string. -/
theorem SdsString.Valid.cstr_content (valid : s.Valid) (whole : 0 ∉ s.content) :
    cstr (s.block.drop s.offset) = s.content ∧ 0 ∈ s.block.drop s.offset := by
  obtain ⟨type, len, room, buf, framed⟩ := valid
  have nonzero : ∀ c ∈ s.content, decide (c ≠ 0) = true := by
    intro c member
    refine decide_eq_true fun zero => whole (zero ▸ member)
  rw [framed.drop_offset, framed.cstr_eq.1]
  exact ⟨List.takeWhile_eq_self_iff.mpr nonzero, List.mem_of_getElem? framed.terminated⟩

end Sherry
