import Sherry.Model.StringEdits
import Sherry.Verif.StringRoom

/-!
# Changing dynamic strings

What each function does to the bytes of a string. All of them return a valid string when they are
given one, and none leaves the block, reads a byte that was not written or fails an assertion.
-/

namespace Sherry

open Std.Do

set_option mvcgen.warning false

variable {A : Allocator} {s t r : SdsString} {m₀ m : Memory} {type : SdsType} {len room n : Nat}
  {buf text : List UInt8}

/-- A change in place keeps the block. -/
theorem Framed.becomes (framed : Framed r type n room buf) (base : r.base = s.base)
    (content : r.content = text) (same : m = m₀) : Becomes m₀ m s r text :=
  ⟨⟨_, _, _, _, framed⟩, content, base ▸ same ▸ .refl _ _⟩

/-- What `sdscatlen` makes of a string that has room for the bytes. -/
def SdsString.appended (s : SdsString) (text : List UInt8) : SdsString :=
  let len := s.content.length
  let written := { s with block := Bytes.overwrite s.block (s.offset + len) text }
  let counted := sdssetlen written (len + text.length)
  { counted with
    block := Bytes.overwrite counted.block (counted.offset + (len + text.length)) [0] }

/-- A string that has room for the bytes has them appended, and keeps its room. -/
theorem Framed.appended (framed : Framed s type len room buf) (enough : len + text.length ≤ room) :
    (∃ buf, Framed (s.appended text) type (len + text.length) room buf) ∧
      (s.appended text).content = s.content ++ text := by
  have length := framed.length_content
  have sized := framed.append enough
  obtain ⟨final, content⟩ := sized.terminate enough
  have inside : len ≤ buf.length := by
    rw [framed.size]
    omega
  rw [Bytes.take_overwrite text inside, ← framed.content_eq] at content
  subst length
  exact ⟨⟨_, final⟩, content⟩

/-- The bytes are appended in place. -/
@[simp] theorem appended_base (s : SdsString) (text : List UInt8) :
    (s.appended text).base = s.base :=
  sdssetlen_base _ _

/-- `sdscatlen` makes room for the bytes and appends them, or the allocator refused. -/
theorem sdscatlen_made (m₀ : Memory) (valid : s.Valid)
    (small : s.content.length + text.length < 2 ^ 63) :
    ⦃fun m => ⌜m = m₀⌝⦄
    sdscatlen A s text
    ⦃post⟨fun r m => ⌜∃ q, MadeRoom m₀ s text.length m q ∧ r = q.appended text⌝,
      fun e m => ⌜Refused A m₀ m s e⌝⟩⦄ := by
  have stored := valid.stored
  simp only [sdscatlen, valid.sdslen_eq]
  mvcgen
  case vc3.inside m same q m' made =>
    obtain ⟨type, room, buf, framed, enough, -⟩ := made.framed valid small
    exact framed.inside (by omega)
  case vc4.post.success.post.success.post.success m same q m₁ made r₁ m₂ written r₂ m₃ =>
    subst same
    obtain ⟨rfl, rfl⟩ := written
    rintro rfl rfl
    refine ⟨q, made, ?_⟩
    rw [SdsString.appended, (made.becomes valid).content]
  case vc5 m same q m₁ made r₁ =>
    rintro m₂ rfl -
    obtain ⟨type, room, buf, framed, enough, -⟩ := made.framed valid small
    exact (framed.append enough).inside (by simp; omega)
  case vc6.post.except.handle m same e m' => exact same ▸ id

/-- `sdscatlen` appends. -/
@[spec] theorem sdscatlen_spec (valid : s.Valid)
    (small : s.content.length + text.length < 2 ^ 63) :
    ⦃fun m => ⌜m = m₀⌝⦄
    sdscatlen A s text
    ⦃post⟨fun r m => ⌜Becomes m₀ m s r (s.content ++ text)⌝,
      fun e m => ⌜Refused A m₀ m s e⌝⟩⦄ := by
  refine Allocating.weaken (sdscatlen_made m₀ valid small) ?_ fun _ _ refused => refused
  rintro r m ⟨q, made, rfl⟩
  obtain ⟨type, room, buf, framed, enough, -, content⟩ := made.framed valid small
  obtain ⟨⟨buf, final⟩, appended⟩ := framed.appended enough
  exact ⟨⟨_, _, _, _, final⟩, content ▸ appended,
    (appended_base q text).symm ▸ (made.becomes valid).trades⟩

/-- `sdscat` appends a C string. -/
@[spec] theorem sdscat_spec (valid : s.Valid)
    (small : s.content.length + (cstr text).length < 2 ^ 63) :
    ⦃fun m => ⌜m = m₀⌝⦄
    sdscat A s text
    ⦃post⟨fun r m => ⌜Becomes m₀ m s r (s.content ++ cstr text)⌝,
      fun e m => ⌜Refused A m₀ m s e⌝⟩⦄ :=
  sdscatlen_spec valid small

/-- `sdscatsds` appends another string. -/
@[spec] theorem sdscatsds_spec (valid : s.Valid) (other : t.Valid)
    (small : s.content.length + t.content.length < 2 ^ 63) :
    ⦃fun m => ⌜m = m₀⌝⦄
    sdscatsds A s t
    ⦃post⟨fun r m => ⌜Becomes m₀ m s r (s.content ++ t.content)⌝,
      fun e m => ⌜Refused A m₀ m s e⌝⟩⦄ := by
  simp only [sdscatsds, SdsString.Valid.read_content other, pure_bind]
  exact sdscatlen_spec valid small

/-- A string with room for more bytes has null bytes appended. -/
theorem Framed.grow (framed : Framed r type len room buf) (enough : len ≤ n) (within : n ≤ room) :
    let zeros := List.replicate (n - len + 1) (0 : UInt8)
    let done := sdssetlen { r with block := Bytes.overwrite r.block (r.offset + len) zeros } n
    Becomes m m r done (r.content ++ List.replicate (n - len) 0) ∧
      r.offset + len + zeros.length ≤ r.block.length := by
  intro zeros done
  have length : zeros.length = n - len + 1 := List.length_replicate
  have inside : len ≤ buf.length := by
    rw [framed.size]
    omega
  have written := (framed.written len zeros (by omega)).resized within
  have terminator : (Bytes.overwrite buf len zeros)[n]? = some 0 := by
    have last := Bytes.getElem?_overwrite zeros inside (k := n - len) (by omega)
    rw [Nat.add_sub_cancel' enough] at last
    rw [last, List.getElem?_replicate, if_pos (Nat.lt_succ_self _)]
  have final : Framed done type n room _ := ⟨⟨written, within⟩, terminator⟩
  refine ⟨⟨⟨_, _, _, _, final⟩, ?_, ?_⟩, framed.inside (by omega)⟩
  · have whole := congrArg (List.take n) (Bytes.take_overwrite zeros inside)
    rw [List.take_take, Nat.min_eq_left (by omega)] at whole
    rw [final.content_eq, whole, List.take_append, ← framed.content_eq, framed.length_content,
      List.take_of_length_le (by rw [framed.length_content]; exact enough),
      List.take_replicate, Nat.min_eq_left (Nat.le_succ _)]
  · rw [sdssetlen_base]
    exact .refl _ _

/-- `sdsgrowzero` appends null bytes up to the length. -/
@[spec] theorem sdsgrowzero_spec (valid : s.Valid) (small : n < 2 ^ 63) :
    ⦃fun m => ⌜m = m₀⌝⦄
    sdsgrowzero A s n
    ⦃post⟨fun r m =>
        ⌜Becomes m₀ m s r (s.content ++ List.replicate (n - s.content.length) 0)⌝,
      fun e m => ⌜Refused A m₀ m s e⌝⟩⦄ := by
  have stored := valid.stored
  simp only [sdsgrowzero, valid.sdslen_eq]
  mvcgen
  case vc1.isTrue already m same =>
    rw [Nat.sub_eq_zero_of_le already, List.replicate_zero, List.append_nil]
    exact ⟨valid, rfl, same ▸ .refl _ _⟩
  case vc3.small short m same => omega
  case vc4.inside short m same r m' made =>
    obtain ⟨type, room, buf, framed, enough, -⟩ := made.framed valid (by omega)
    exact (framed.grow (m := m₀) (by omega) (by omega)).2
  case vc5.isFalse.post.success.post.success short m same r m' made r' m'' written =>
    subst same
    obtain ⟨rfl, rfl⟩ := written
    obtain ⟨type, room, buf, framed, enough, -, content⟩ := made.framed valid (by omega)
    obtain ⟨done, -⟩ := framed.grow (m := m'') (show _ ≤ n by omega) (by omega)
    exact ⟨done.valid, content ▸ done.content, (made.becomes valid).trades.trans done.trades⟩
  case vc6.isFalse.post.except.handle short m same e m' => exact same ▸ id

/-- A string with room for some bytes has its own replaced by them. -/
theorem Framed.replace (framed : Framed r type len room buf) (within : text.length ≤ room) :
    let written := { r with block := Bytes.overwrite r.block (r.offset + 0) text }
    let ended :=
      { written with
        block := Bytes.overwrite written.block (written.offset + text.length) [0] }
    Becomes m m r (sdssetlen ended text.length) text ∧
      r.offset + 0 + text.length ≤ r.block.length ∧
      written.offset + text.length + 1 ≤ written.block.length := by
  intro written ended
  have fits : 0 + text.length ≤ room + 1 := by omega
  have sized := framed.written 0 text fits
  obtain ⟨final, content⟩ := sized.shorten within
  have copied := Bytes.take_overwrite text (Nat.zero_le buf.length)
  rw [Nat.zero_add, List.take_zero, List.nil_append] at copied
  refine ⟨⟨⟨_, _, _, _, final⟩, content.trans copied, ?_⟩, framed.inside fits,
    sized.inside (by omega)⟩
  rw [sdssetlen_base]
  exact .refl _ _

/-- `sdscpylen` replaces the bytes. -/
@[spec] theorem sdscpylen_spec (valid : s.Valid) (short : s.content.length < 2 ^ 63)
    (small : text.length < 2 ^ 63) :
    ⦃fun m => ⌜m = m₀⌝⦄
    sdscpylen A s text
    ⦃post⟨fun r m => ⌜Becomes m₀ m s r text⌝, fun e m => ⌜Refused A m₀ m s e⌝⟩⦄ := by
  obtain ⟨type, len, room, buf, framed⟩ := id valid
  have length := framed.length_content
  have within := framed.within
  have alloc := framed.sdsalloc_eq
  have made_room : ∀ {m r}, MadeRoom m₀ s (text.length - s.content.length) m r →
      ∃ type room buf, Framed r type s.content.length room buf ∧ text.length ≤ room := by
    intro m r made
    obtain ⟨type, room, buf, framed, enough, -⟩ := made.framed valid (by omega)
    exact ⟨type, room, buf, framed, by omega⟩
  have roomy : ¬ sdsalloc s < text.length → text.length ≤ room := by
    intro enough
    rw [alloc] at enough
    split_ifs at enough <;> omega
  have stored := valid.stored
  simp only [sdscpylen, valid.sdslen_eq]
  mvcgen
  case vc2.small => omega
  case vc3.inside m same r m' made =>
    obtain ⟨type, room, buf, framed, enough⟩ := made_room (same ▸ made)
    exact (framed.replace (m := m₀) enough).2.1
  case vc4.inside m same r m' made r' m'' written =>
    obtain ⟨type, room, buf, framed, enough⟩ := made_room (same ▸ made)
    obtain ⟨rfl, -⟩ := written
    exact (framed.replace (m := m₀) enough).2.2
  case vc5.isTrue.post.success.post.success.post.success m same r m' made r' m₁ written r₂ m₂ w =>
    subst same
    obtain ⟨rfl, rfl⟩ := written
    obtain ⟨rfl, rfl⟩ := w
    obtain ⟨type, room, buf, framed, enough⟩ := made_room made
    obtain ⟨done, -⟩ := framed.replace (m := m₂) enough
    exact ⟨done.valid, done.content, (made.becomes valid).trades.trans done.trades⟩
  case vc6.isTrue.post.except.handle m same e m' => exact same ▸ id
  case vc7.inside enough m same => exact (framed.replace (m := m₀) (roomy enough)).2.1
  case vc8.inside enough m same r m' written =>
    obtain ⟨rfl, -⟩ := written
    exact (framed.replace (m := m₀) (roomy enough)).2.2
  case vc9.isFalse.post.success.post.success enough m same r m' written r' m'' w =>
    subst same
    obtain ⟨rfl, rfl⟩ := written
    obtain ⟨rfl, rfl⟩ := w
    exact (framed.replace (roomy enough)).1

/-- `sdscpy` replaces the bytes by a C string. -/
@[spec] theorem sdscpy_spec (valid : s.Valid) (short : s.content.length < 2 ^ 63)
    (small : (cstr text).length < 2 ^ 63) :
    ⦃fun m => ⌜m = m₀⌝⦄
    sdscpy A s text
    ⦃post⟨fun r m => ⌜Becomes m₀ m s r (cstr text)⌝, fun e m => ⌜Refused A m₀ m s e⌝⟩⦄ :=
  sdscpylen_spec valid short small

/-- `sdsclear` leaves the empty string. -/
@[spec] theorem sdsclear_spec (valid : s.Valid) :
    ⦃fun m => ⌜m = m₀⌝⦄
    sdsclear s
    ⦃post⟨fun r m => ⌜Becomes m₀ m s r []⌝, fun _ _ => ⌜False⌝⟩⦄ := by
  obtain ⟨type, len, room, buf, framed⟩ := valid
  have empty := framed.resized (Nat.zero_le room)
  obtain ⟨final, content⟩ := empty.terminate (Nat.zero_le room)
  mvcgen [sdsclear]
  case vc1.post.success m same r m' =>
    rintro rfl rfl
    exact final.becomes (sdssetlen_base s 0) content same
  case vc2 => exact fun _ _ => empty.inside (Nat.succ_le_succ (Nat.zero_le room))

/-- A C string ends at the first null byte. -/
theorem cstr_terminated (text rest : List UInt8) :
    cstr (text ++ 0 :: rest) = cstr text ∧
      (text ++ 0 :: rest)[(cstr text).length]? = some 0 := by
  induction text with
  | nil => simp [cstr]
  | cons c text ih =>
    by_cases zero : c = 0
    · simp [cstr, zero]
    · simpa [cstr, zero] using ih

/-- The C string in the bytes of a string. -/
theorem Framed.cstr_eq (framed : Framed s type len room buf) :
    cstr buf = cstr s.content ∧ buf[(cstr buf).length]? = some 0 := by
  have split : s.content ++ 0 :: buf.drop (len + 1) = buf := by
    rw [List.append_cons, ← framed.take_succ, List.take_append_drop]
  obtain ⟨same, ended⟩ := cstr_terminated s.content (buf.drop (len + 1))
  rw [split] at same ended
  exact ⟨same, same ▸ ended⟩

/-- `sdsupdatelen` ends the string at its first null byte. -/
theorem sdsupdatelen_becomes (valid : s.Valid) (m : Memory) :
    Becomes m m s (sdsupdatelen s) (cstr s.content) := by
  obtain ⟨type, len, room, buf, framed⟩ := valid
  obtain ⟨same, terminated⟩ := framed.cstr_eq
  have length : strlen s = (cstr buf).length := by rw [strlen, framed.drop_offset]
  have short : (cstr s.content).length ≤ len :=
    framed.length_content ▸ (List.takeWhile_prefix _).length_le
  have within : strlen s ≤ room := by
    rw [length, same]
    exact short.trans framed.within
  have final : Framed (sdsupdatelen s) type (strlen s) room buf :=
    ⟨⟨framed.resized within, within⟩, length ▸ terminated⟩
  refine ⟨⟨_, _, _, _, final⟩, ?_, ?_⟩
  · rw [final.content_eq, length, ← same]
    exact (List.prefix_iff_eq_take.mp (List.takeWhile_prefix _)).symm
  · rw [sdsupdatelen, sdssetlen_base]
    exact .refl _ _

/-- Bytes of a string are replaced by as many. -/
theorem Framed.rewrite (framed : Framed s type len room buf) (same : text.length = len) :
    let done := { s with block := Bytes.overwrite s.block (s.offset + 0) text }
    Becomes m m s done text ∧ s.offset + 0 + text.length ≤ s.block.length := by
  intro done
  have within := framed.within
  have size := framed.size
  have fits : 0 + text.length ≤ room + 1 := by omega
  have terminator : (Bytes.overwrite buf 0 text)[len]? = some 0 := by
    rw [Bytes.overwrite, List.take_zero, List.nil_append,
      List.getElem?_append_right (by omega), same, Nat.sub_self, List.getElem?_drop]
    exact (congrArg (buf[·]?) (by omega)).trans framed.terminated
  have final : Framed done type len room _ := ⟨⟨framed.written 0 text fits, within⟩, terminator⟩
  have copied := Bytes.take_overwrite text (Nat.zero_le buf.length)
  rw [Nat.zero_add, List.take_zero, List.nil_append, same] at copied
  exact ⟨final.becomes rfl (final.content_eq.trans copied) rfl, framed.inside fits⟩

/-- The loops over the bytes of a string map each of them. -/
@[spec] theorem mapBytes_spec (f : UInt8 → UInt8) (valid : s.Valid) :
    ⦃fun m => ⌜m = m₀⌝⦄
    mapBytes f s
    ⦃post⟨fun r m => ⌜Becomes m₀ m s r (s.content.map f)⌝, fun _ _ => ⌜False⌝⟩⦄ := by
  obtain ⟨type, len, room, buf, framed⟩ := id valid
  have length : (s.content.map f).length = len := by
    rw [List.length_map, framed.length_content]
  simp only [mapBytes, valid.read_content, pure_bind]
  mvcgen
  case vc1.post.success m same r m' =>
    subst same
    rintro rfl rfl
    exact (framed.rewrite length).1
  case vc2 => exact fun _ _ => (framed.rewrite (m := m₀) length).2

/-- The first loop of `sdstrim` skips the bytes of the set at the front. -/
theorem trimStart_drop (text cset : List UInt8) {fuel sp : Nat} (inside : sp ≤ text.length)
    (enough : text.length ≤ sp + fuel) :
    let q := trimStart text cset fuel sp
    q ≤ text.length ∧ text.drop q = (text.drop sp).dropWhile (strchr cset) := by
  induction fuel generalizing sp with
  | zero =>
    have ended : sp = text.length := by omega
    simp [trimStart, ended]
  | succ fuel ih =>
    by_cases before : sp < text.length
    · rw [List.drop_eq_getElem_cons before, List.dropWhile_cons]
      cases member : strchr cset text[sp] with
      | true =>
        have more : sp < text.length ∧ strchr cset (text.getD sp 0) = true :=
          ⟨before, by rwa [List.getD_eq_getElem _ _ before]⟩
        rw [trimStart, if_pos more, if_pos rfl]
        exact ih before (by omega)
      | false =>
        have last : ¬(sp < text.length ∧ strchr cset (text.getD sp 0) = true) := by
          rw [List.getD_eq_getElem _ _ before, member]
          simp
        rw [trimStart, if_neg last, if_neg Bool.false_ne_true]
        exact ⟨inside, List.drop_eq_getElem_cons before⟩
    · have last : ¬(sp < text.length ∧ strchr cset (text.getD sp 0) = true) :=
        fun both => before both.1
      rw [trimStart, if_neg last]
      refine ⟨inside, ?_⟩
      rw [List.drop_eq_nil_of_le (not_lt.mp before), List.dropWhile_nil]

/-- The second loop of `sdstrim` drops the bytes of the set at the back, up to a first byte that
is not in it. -/
theorem trimEnd_take (text cset : List UInt8) {sp k : Nat} (fuel : Nat)
    (first : ∀ c, text[sp]? = some c → strchr cset c = false) (inside : sp + k ≤ text.length)
    (enough : k ≤ fuel + 1) :
    ∃ j ≤ k, trimEnd text cset sp fuel (sp + k - 1) = sp + j - 1 ∧
      (text.drop sp).take j = ((text.drop sp).take k).rdropWhile (strchr cset) := by
  induction k generalizing fuel with
  | zero =>
    refine ⟨0, le_rfl, ?_, by rw [List.take_zero, List.rdropWhile_nil]⟩
    cases fuel with
    | zero => rfl
    | succ fuel => rw [trimEnd, if_neg (by omega)]
  | succ k ih =>
    have at_end : sp + k < text.length := by omega
    have last : (text.drop sp).take (k + 1) = (text.drop sp).take k ++ [text[sp + k]] := by
      rw [List.take_add_one, List.getElem?_drop, List.getElem?_eq_getElem at_end]
      rfl
    have read : text.getD ((sp : Int) + (k + 1 : Nat) - 1).toNat 0 = text[sp + k] := by
      rw [show ((sp : Int) + (k + 1 : Nat) - 1).toNat = sp + k by omega,
        List.getD_eq_getElem _ _ at_end]
    have stays : ∀ {q : Int}, q = sp + (k + 1 : Nat) - 1 → strchr cset text[sp + k] = false →
        ∃ j ≤ k + 1, q = sp + j - 1 ∧
          (text.drop sp).take j = ((text.drop sp).take (k + 1)).rdropWhile (strchr cset) := by
      intro q same kept
      refine ⟨k + 1, le_rfl, same, ?_⟩
      rw [last, List.rdropWhile_concat_neg _ _ _ (by rw [kept]; exact Bool.false_ne_true)]
    cases fuel with
    | zero =>
      obtain rfl : k = 0 := by omega
      exact stays rfl (first _ (List.getElem?_eq_getElem at_end))
    | succ fuel =>
      rw [trimEnd, read]
      split_ifs with more
      · obtain ⟨j, fewer, same, rest⟩ := ih fuel (by omega) (by omega)
        refine ⟨j, by omega, ?_, ?_⟩
        · rw [← same]
          congr 1
          omega
        · rw [last, List.rdropWhile_concat_pos _ _ _ more.2, rest]
      · refine stays rfl ?_
        by_cases single : k = 0
        · subst single
          exact first _ (List.getElem?_eq_getElem at_end)
        · exact Bool.eq_false_iff.mpr fun member => more ⟨by omega, member⟩

/-- A window of a string takes its place, and is moved there unless it is at the front or empty. -/
@[spec] theorem keepRange_spec {moves : Bool} {i : Nat} (valid : s.Valid)
    (moved : moves → i + n ≤ s.content.length)
    (stays : ¬moves → n ≤ s.content.length ∧ (i = 0 ∨ n = 0)) :
    ⦃fun m => ⌜m = m₀⌝⦄
    keepRange s moves i n
    ⦃post⟨fun r m => ⌜Becomes m₀ m s r (Bytes.segment s.content i n)⌝, fun _ _ => ⌜False⌝⟩⦄ := by
  obtain ⟨type, len, room, buf, framed⟩ := valid
  have length := framed.length_content
  have inside := framed.within
  have size := framed.size
  have window : moves → (Bytes.segment s.block (s.offset + i) n).length = n ∧
      Bytes.segment s.block (s.offset + i) n = Bytes.segment s.content i n := by
    intro moves
    have fits := moved moves
    have same : Bytes.segment s.block (s.offset + i) n = Bytes.segment s.content i n := by
      rw [Bytes.segment, ← List.drop_drop, framed.drop_offset, framed.content_eq, Bytes.segment,
        List.drop_take, List.take_take, Nat.min_eq_left (by omega)]
    exact ⟨same ▸ Bytes.length_segment fits, same⟩
  mvcgen [keepRange]
  case vc1.inside jp moves m same => exact framed.inside (by have := moved moves; omega)
  case vc2.inside jp moves m same bytes m' read =>
    rw [read.1, (window moves).1]
    exact framed.inside (by have := moved moves; omega)
  case vc3.inside jp moves m same bytes m' read r m'' written =>
    obtain ⟨rfl, -⟩ := written
    obtain ⟨rfl, -⟩ := read
    have fits := moved moves
    exact (framed.written 0 _ (by rw [(window moves).1]; omega)).inside
      (show n + 1 ≤ room + 1 by omega)
  case vc4.isTrue.post.success.post.success.post.success =>
    rename_i jp moves m same bytes m₁ read r m₂ written r' m₃ ended
    obtain ⟨rfl, rfl⟩ := ended
    obtain ⟨rfl, rfl⟩ := written
    obtain ⟨rfl, rfl⟩ := read
    have fits := moved moves
    have sized := framed.written 0 (Bytes.segment s.block (s.offset + i) n)
      (by rw [(window moves).1]; omega)
    obtain ⟨final, content⟩ := sized.shorten (show n ≤ room by omega)
    refine final.becomes (sdssetlen_base _ _) (content.trans ?_) same
    have copied := Bytes.take_overwrite (Bytes.segment s.block (s.offset + i) n)
      (Nat.zero_le buf.length)
    rw [Nat.zero_add, List.take_zero, List.nil_append, (window moves).1] at copied
    exact copied.trans (window moves).2
  case vc5.inside jp still m same => exact framed.inside (by have := stays still; simp; omega)
  case vc6.isFalse.post.success jp still m same r m' ended =>
    obtain ⟨rfl, rfl⟩ := ended
    obtain ⟨fits, front⟩ := stays still
    obtain ⟨final, content⟩ := framed.shorten (show n ≤ room by omega)
    refine final.becomes (sdssetlen_base _ _) (content.trans ?_) same
    rw [framed.content_eq, Bytes.segment, List.drop_take, List.take_take]
    rcases front with rfl | rfl
    · rw [List.drop_zero, Nat.min_eq_left (by omega)]
    · simp

/-- `sdstrim` drops the bytes of the set from both ends. -/
@[spec] theorem sdstrim_spec (cset : List UInt8) (valid : s.Valid) :
    ⦃fun m => ⌜m = m₀⌝⦄
    sdstrim s cset
    ⦃post⟨fun r m => ⌜Becomes m₀ m s r
        ((s.content.dropWhile (strchr cset)).rdropWhile (strchr cset))⌝,
      fun _ _ => ⌜False⌝⟩⦄ := by
  obtain ⟨within, rest⟩ := trimStart_drop s.content cset (Nat.zero_le _)
    (show s.content.length ≤ 0 + s.content.length by omega)
  simp only [sdstrim, valid.read_content, pure_bind]
  generalize trimStart s.content cset s.content.length 0 = sp at within rest
  rw [List.drop_zero] at rest
  have first : ∀ c, s.content[sp]? = some c → strchr cset c = false := by
    intro c found
    have head := List.head?_dropWhile_not (strchr cset) s.content
    rwa [← rest, List.head?_drop, found] at head
  obtain ⟨j, fewer, ended, kept⟩ := trimEnd_take s.content cset s.content.length first
    (show sp + (s.content.length - sp) ≤ s.content.length by omega)
    (show s.content.length - sp ≤ s.content.length + 1 by omega)
  have last : (sp : Int) + (s.content.length - sp : Nat) - 1 = s.content.length - 1 := by omega
  have count : ((sp : Int) + j - 1 - sp + 1).toNat = j := by omega
  rw [last] at ended
  have all : (s.content.drop sp).take (s.content.length - sp) = s.content.drop sp :=
    List.take_of_length_le (by rw [List.length_drop])
  rw [all] at kept
  rw [ended, count, ← rest, ← kept]
  exact keepRange_spec valid (fun _ => by omega) (fun front => by simp at front; omega)

/-- An index is not before the start. -/
theorem rangeIndex_nonneg (len : Nat) (i : Int) : 0 ≤ rangeIndex len i := by
  rw [rangeIndex]
  split_ifs <;> omega

/-- The length that `sdsrange` computes is that of the window between the indexes. -/
theorem rangeLength_eq (len start stop : Int) :
    rangeLength len start stop = max 0 (min (stop + 1) len - start) := by
  simp only [rangeLength]
  split_ifs <;> omega

/-- `sdsrange` keeps the bytes from one index to another. -/
@[spec] theorem sdsrange_spec (start stop : Int) (valid : s.Valid) :
    ⦃fun m => ⌜m = m₀⌝⦄
    sdsrange s start stop
    ⦃post⟨fun r m => ⌜Becomes m₀ m s r
        ((s.content.take ((rangeIndex s.content.length stop).toNat + 1)).drop
          (rangeIndex s.content.length start).toNat)⌝,
      fun _ _ => ⌜False⌝⟩⦄ := by
  have from_start := rangeIndex_nonneg s.content.length start
  have to_end := rangeIndex_nonneg s.content.length stop
  simp only [sdsrange, valid.sdslen_eq, rangeLength_eq]
  generalize rangeIndex s.content.length start = i at from_start
  generalize rangeIndex s.content.length stop = j at to_end
  obtain ⟨n, count⟩ := Int.eq_ofNat_of_zero_le
    (le_max_left 0 (min (j + 1) (s.content.length : Int) - i))
  rw [count, Int.toNat_natCast]
  have window :
      (s.content.take (j.toNat + 1)).drop i.toNat = Bytes.segment s.content i.toNat n := by
    rw [List.drop_take, Bytes.segment, List.take_eq_take_iff, List.length_drop]
    omega
  rw [window]
  mvcgen
  case vc1.isTrue empty m same =>
    have none_left : Bytes.segment s.content i.toNat n = s.content := by
      rw [List.length_eq_zero_iff.mp empty, Bytes.segment, List.drop_nil, List.take_nil]
    exact none_left.symm ▸ ⟨valid, rfl, same ▸ .refl _ _⟩
  case vc3 => exact fun _ _ => valid
  case vc4 filled =>
    intro m same moves
    simp only [Bool.and_eq_true, bne_iff_ne] at moves
    omega
  case vc5 filled =>
    intro m same still
    simp only [Bool.and_eq_true, bne_iff_ne] at still
    omega

/-- `memcmp` reads no further than the end of one of its arguments. -/
theorem memcmp_take (as bs : List UInt8) {n : Nat} (enough : as.length ≤ n ∨ bs.length ≤ n) :
    memcmp (as.take n) (bs.take n) = memcmp as bs := by
  induction as generalizing bs n with
  | nil => simp [memcmp]
  | cons a as ih =>
    cases bs with
    | nil => simp [memcmp]
    | cons b bs =>
      cases n with
      | zero => simp at enough
      | succ n =>
        have fewer : as.length ≤ n ∨ bs.length ≤ n := by simpa using enough
        rw [List.take_succ_cons, List.take_succ_cons, memcmp, memcmp, ih bs fewer]

/-- The sign of `memcmp`, and of the lengths where it finds no difference, is the order of byte
strings. -/
theorem memcmp_order (as bs : List UInt8) :
    let r : Int :=
      if memcmp as bs = 0 then
        if as.length > bs.length then 1 else if as.length < bs.length then -1 else 0
      else memcmp as bs
    (r = 0 ↔ as = bs) ∧ (r < 0 ↔ as < bs) := by
  induction as generalizing bs with
  | nil => cases bs <;> simp [memcmp]
  | cons a as ih =>
    cases bs with
    | nil => simp [memcmp]
    | cons b bs =>
      by_cases before : a < b
      · have differ : a ≠ b := UInt8.ne_of_lt before
        simp [memcmp, List.cons_lt_cons_iff, before, differ]
      · by_cases after : b < a
        · have differ : a ≠ b := (UInt8.ne_of_lt after).symm
          simp [memcmp, List.cons_lt_cons_iff, before, after, differ]
        · obtain rfl : a = b := UInt8.le_antisymm (UInt8.not_lt.mp after) (UInt8.not_lt.mp before)
          simpa [memcmp, List.cons_lt_cons_iff, before] using ih bs

/-- `sdscmp` returns the order of the bytes and changes nothing. -/
theorem sdscmp_spec (valid : s.Valid) (other : t.Valid) :
    ⦃fun m => ⌜m = m₀⌝⦄
    sdscmp s t
    ⦃post⟨fun r m => ⌜(r = 0 ↔ s.content = t.content) ∧ (r < 0 ↔ s.content < t.content) ∧ m = m₀⌝,
      fun _ _ => ⌜False⌝⟩⦄ := by
  have order := memcmp_order s.content t.content
  have least : ∀ a b : Nat, (if a < b then a else b) = min a b := by
    intro a b
    split_ifs <;> omega
  simp only [sdscmp, valid.sdslen_eq, other.sdslen_eq, least,
    valid.read_take (Nat.min_le_left _ _), other.read_take (Nat.min_le_right _ _), pure_bind]
  rw [memcmp_take _ _ (by omega)]
  mvcgen
  case vc1.isTrue equal m same =>
    rw [if_pos equal] at order
    exact ⟨order.1, order.2, same⟩
  case vc2.isFalse differ m same =>
    rw [if_neg differ] at order
    exact ⟨order.1, order.2, same⟩

/-- A string and its copy compare equal. -/
theorem sdscmp_spec_copy :
    ∃ r m, Allocating.exec (sdscmp .sample .sample) {} = (.ok r, m) ∧ r = 0 := by
  have order := @sdscmp_spec _ _ {} SdsString.sample_valid SdsString.sample_valid
  obtain ⟨r, m, ran, equal, _⟩ := Allocating.returns order fun _ _ => id
  exact ⟨r, m, ran, equal.mpr rfl⟩

/-- The bytes behind a string in its block. -/
def SdsString.behind (s : SdsString) : List UInt8 := s.block.drop (s.offset + sdslen s)

/-- Where the assertion lets `sdsIncrLen` go up, the new length is the sum. -/
theorem upward_sum (incr : Int) (wide : type ≠ .type5) (within : len ≤ room)
    (fits : room < 2 ^ type.bits) (up : 0 ≤ incr)
    (allowed : type.upward incr ≤ (room : Int) - len) :
    ((len + incr) % 256 ^ type.width).toNat = len + (type.upward incr).toNat ∧
      0 ≤ type.upward incr := by
  cases type
  case type5 => contradiction
  all_goals
    simp only [SdsType.upward, SdsType.width, SdsType.bits] at *
    omega

/-- Where the assertion lets `sdsIncrLen` go down, the new length is the difference. -/
theorem downward_difference (incr : Int) (wide : type ≠ .type5) (fits : len < 2 ^ type.bits)
    (allowed : type.downward incr ≤ (len : Int)) :
    ((len + incr) % 256 ^ type.width).toNat = len - (type.downward incr).toNat ∧
      0 ≤ type.downward incr := by
  cases type
  case type5 => contradiction
  all_goals
    simp only [SdsType.downward, SdsType.width, SdsType.bits] at *
    omega

/-- For the types with a size, `sdsIncrLen` is one assertion and one assignment. -/
theorem sdsIncrLen_eq (headed : Headed s type len room buf) (wide : type ≠ .type5) (incr : Int) :
    sdsIncrLen s incr =
      if (incr ≥ 0 ∧ (room : Int) - len ≥ type.upward incr) ∨
          (incr < 0 ∧ len ≥ type.downward incr) then
        (sdssetlen s ((len + incr) % 256 ^ type.width).toNat).write
          ((len + incr) % 256 ^ type.width).toNat [0]
      else throw .assertFailed := by
  have alloc := headed.hdrAlloc_eq wide
  have old := headed.hdrLen_eq wide
  rw [sdsIncrLen, sdssetlen, headed.type_eq]
  cases type
  case type5 => contradiction
  all_goals simp only [alloc, old]

/-- `sdsIncrLen` ends the string behind other bytes of its block, or the assertion fails. -/
theorem sdsIncrLen_sized (sized : Sized s type len room buf) (inside : len ≤ room)
    (wide : type ≠ .type5) (incr : Int) :
    ⦃fun m => ⌜m = m₀⌝⦄
    sdsIncrLen s incr
    ⦃post⟨fun r m =>
        ⌜if 0 ≤ incr then
          type.upward incr ≤ (room : Int) - len ∧
            Becomes m₀ m s r (buf.take (len + (type.upward incr).toNat))
        else
          type.downward incr ≤ len ∧
            Becomes m₀ m s r (buf.take (len - (type.downward incr).toNat))⌝,
      fun e m => ⌜e = .assertFailed ∧ m = m₀ ∧
        if 0 ≤ incr then (room : Int) - len < type.upward incr
        else len < type.downward incr⌝⟩⦄ := by
  have up := upward_sum incr wide inside sized.alloc_fits
  have down := downward_difference incr wide sized.len_fits
  rw [sdsIncrLen_eq sized.toHeaded wide]
  generalize ((len + incr) % 256 ^ type.width).toNat = n at up down ⊢
  have within : (incr ≥ 0 ∧ (room : Int) - len ≥ type.upward incr) ∨
      (incr < 0 ∧ len ≥ type.downward incr) → n ≤ room := by
    rintro (⟨positive, enough⟩ | ⟨negative, enough⟩)
    · obtain ⟨sum, -⟩ := up positive enough
      omega
    · obtain ⟨difference, -⟩ := down enough
      omega
  mvcgen
  case vc1.isTrue.post.success allowed m same r m' =>
    rintro rfl rfl
    obtain ⟨final, content⟩ := (sized.resized (within allowed)).terminate (within allowed)
    have becomes := final.becomes (sdssetlen_base s n) content same
    rcases allowed with ⟨positive, enough⟩ | ⟨negative, enough⟩
    · rw [if_pos positive, ← (up positive enough).1]
      exact ⟨enough, becomes⟩
    · rw [if_neg (not_le.mpr negative), ← (down enough).1]
      exact ⟨enough, becomes⟩
  case vc2 allowed =>
    exact fun _ _ => (sized.resized (within allowed)).inside (Nat.succ_le_succ (within allowed))
  case vc3.isFalse refused m same =>
    refine ⟨trivial, same, ?_⟩
    split_ifs <;> omega

/-- `sdsIncrLen` counts bytes behind the string to it, or takes bytes off its end; the assertion
fails exactly when there are not as many. -/
theorem sdsIncrLen_spec (incr : Int) (valid : s.Valid) (typed : s.type = some type)
    (wide : type ≠ .type5) :
    ⦃fun m => ⌜m = m₀⌝⦄
    sdsIncrLen s incr
    ⦃post⟨fun r m =>
        ⌜if 0 ≤ incr then
          type.upward incr ≤ sdsavail s ∧
            Becomes m₀ m s r (s.content ++ s.behind.take (type.upward incr).toNat)
        else
          type.downward incr ≤ s.content.length ∧
            Becomes m₀ m s r
              (s.content.take (s.content.length - (type.downward incr).toNat))⌝,
      fun e m => ⌜e = .assertFailed ∧ m = m₀ ∧
        if 0 ≤ incr then sdsavail s < type.upward incr
        else s.content.length < type.downward incr⌝⟩⦄ := by
  obtain ⟨type', len, room, buf, framed⟩ := id valid
  obtain rfl : type' = type := Option.some.inj (framed.type_eq.symm.trans typed)
  have avail : (sdsavail s : Int) = room - len := by
    rw [framed.sdsavail_eq, if_neg wide, Nat.cast_sub framed.within]
  have longer : ∀ n, buf.take (len + n) = s.content ++ s.behind.take n := by
    intro n
    rw [List.take_add, framed.content_eq, SdsString.behind, ← List.drop_drop,
      framed.drop_offset, framed.sdslen_eq]
  have shorter : ∀ n, buf.take (len - n) = s.content.take (len - n) := by
    intro n
    rw [framed.content_eq, List.take_take, Nat.min_eq_left (Nat.sub_le len n)]
  rw [framed.length_content, avail, ← longer, ← shorter]
  exact sdsIncrLen_sized framed.toSized framed.within wide incr

/-- Two bytes behind a string are counted to it. -/
theorem sdsIncrLen_spec_two :
    ∃ r m, Allocating.exec (sdsIncrLen .sample 2) {} = (.ok r, m) ∧ r.content = [97, 0, 99] := by
  have typed : SdsString.sample.type = some .type8 := by decide
  have counts := @sdsIncrLen_spec _ {} _ 2 SdsString.sample_valid typed (by decide)
  obtain ⟨r, m, ran, _, becomes⟩ := Allocating.returns counts fun _ _ ⟨_, _, few⟩ =>
    absurd few (by decide)
  exact ⟨r, m, ran, becomes.content⟩

/-- A function appends some bytes, or the allocator refused and one block is held. -/
def Appends (A : Allocator) (add : SdsString → SdsM SdsString) (text : List UInt8) : Prop :=
  ∀ (s : SdsString) (m₀ : Memory), s.Valid → s.content.length + text.length < 2 ^ 63 →
    ⦃fun m => ⌜m = m₀⌝⦄
    add s
    ⦃post⟨fun r m => ⌜Becomes m₀ m s r (s.content ++ text)⌝,
      fun e m => ⌜∃ b, Lacks A m₀ m [s.base] [b] e⌝⟩⦄

namespace Appends

variable {add later : SdsString → SdsM SdsString} {more : List UInt8}

/-- A function that keeps the string when the allocator refuses. -/
theorem of_refused
    (adds : ∀ {s : SdsString} {m₀ : Memory}, s.Valid → s.content.length + text.length < 2 ^ 63 →
      ⦃fun m => ⌜m = m₀⌝⦄ add s
      ⦃post⟨fun r m => ⌜Becomes m₀ m s r (s.content ++ text)⌝,
        fun e m => ⌜Refused A m₀ m s e⌝⟩⦄) :
    Appends A add text := fun s _ valid small =>
  Allocating.weaken (adds valid small) (fun _ _ added => added) fun _ _ refused =>
    ⟨s.base, refused.fault, refused.refuses, refused.trades⟩

/-- Nothing is appended. -/
theorem none : Appends A pure [] := by
  refine fun s m₀ valid _ => Triple.pure _ fun m same => ⟨valid, ?_, same ▸ .refl _ _⟩
  exact (List.append_nil _).symm

/-- One function and then another. -/
theorem seq (first : Appends A add text) (second : Appends A later more) :
    Appends A (fun s => add s >>= later) (text ++ more) := by
  intro s m₀ valid small
  rw [List.length_append] at small
  refine Allocating.seq (first s m₀ valid (by omega)) fun q m₁ added => ?_
  have longer := congrArg List.length added.content
  rw [List.length_append] at longer
  refine Allocating.weaken (second q m₁ added.valid (by omega)) (fun r m last => ?_) ?_
  · refine ⟨last.valid, ?_, added.trades.trans last.trades⟩
    rw [last.content, added.content, List.append_assoc]
  · exact fun e m ⟨b, lacks⟩ => ⟨b, lacks.later added.trades⟩

/-- One function for each element of a list. -/
theorem fold {α : Type} {add : SdsString → α → SdsM SdsString} {bytes : α → List UInt8}
    (each : ∀ x, Appends A (fun s => add s x) (bytes x)) (xs : List α) :
    Appends A (fun s => xs.foldlM add s) (xs.flatMap bytes) := by
  induction xs with
  | nil => exact none
  | cons x xs ih =>
    simp only [List.foldlM_cons, List.flatMap_cons]
    exact (each x).seq ih

end Appends

/-- The use of `sdsIncrLen` that its comment describes: make room, have up to as many bytes
written behind the string, and count them to it. -/
def fillFrom (A : Allocator) (s : SdsString) (addlen : Nat) (bytes : List UInt8) :
    SdsM SdsString := do
  let oldlen := sdslen s
  let s ← sdsMakeRoomFor A s addlen
  let s ← s.write oldlen bytes
  sdsIncrLen s bytes.length

/-- `sdsIncrLen` counts as many bytes behind the string to it as there is room for. -/
@[spec] theorem sdsIncrLen_up
    (roomy : ∃ type len room buf, Sized s type len room buf ∧ type ≠ .type5 ∧ len + n ≤ room) :
    ⦃fun m => ⌜m = m₀⌝⦄
    sdsIncrLen s n
    ⦃post⟨fun r m => ⌜Becomes m₀ m s r ((s.block.drop s.offset).take (sdslen s + n))⌝,
      fun _ _ => ⌜False⌝⟩⦄ := by
  obtain ⟨type, len, room, buf, sized, wide, enough⟩ := roomy
  have fits := sized.alloc_fits
  have up : type.upward n = n := by
    cases type <;> simp only [SdsType.upward, SdsType.bits] at * <;> omega
  have counted := fun m₀ => @sdsIncrLen_sized s m₀ type len room buf sized (by omega) wide n
  simp only [Int.natCast_nonneg, if_true, up, Int.toNat_natCast] at counted
  rw [sized.drop_offset, sized.sdslen_eq]
  mvcgen [counted]
  case vc1.post.success m same r m' => exact fun _ becomes => same ▸ becomes
  case vc2.post.except.handle m same e m' =>
    intro _ _ short
    omega

/-- Bytes written from outside into the room that was asked for are appended. -/
@[spec] theorem fillFrom_spec (valid : s.Valid) (positive : 0 < n) (enough : text.length ≤ n)
    (small : s.content.length + n < 2 ^ 63) :
    ⦃fun m => ⌜m = m₀⌝⦄
    fillFrom A s n text
    ⦃post⟨fun r m => ⌜Becomes m₀ m s r (s.content ++ text)⌝,
      fun e m => ⌜Refused A m₀ m s e⌝⟩⦄ := by
  have stored := valid.stored
  simp only [fillFrom, valid.sdslen_eq]
  mvcgen
  case vc3.inside m same r m' made =>
    obtain ⟨type, room, buf, framed, roomy, -⟩ := made.framed valid small
    exact framed.inside (by omega)
  case vc4.post.success.post.success.post.success m same r m₁ made r₁ m₂ written r₂ m₃ =>
    intro counted
    obtain ⟨type, room, buf, framed, roomy, -, content⟩ := made.framed valid small
    have sized := framed.written s.content.length text (by omega)
    have inside : s.content.length ≤ buf.length := by
      rw [framed.size]
      omega
    obtain ⟨rfl, rfl⟩ := written
    rw [sized.drop_offset, sized.sdslen_eq, Bytes.take_overwrite text inside,
      ← framed.content_eq, content] at counted
    have traded := (made.becomes valid).trades
    rw [same] at traded
    exact ⟨counted.valid, counted.content, traded.trans counted.trades⟩
  case vc5 m same r m' made r' =>
    rintro _ rfl _
    obtain ⟨type, room, buf, framed, roomy, wide, -⟩ := made.framed valid small
    exact ⟨type, _, room, _, framed.written _ _ (by omega), wide positive, by omega⟩
  case vc6.post.except.handle m same e m' => exact same ▸ id

end Sherry
