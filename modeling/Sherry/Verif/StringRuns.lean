import Sherry.Verif.StringQuotes

/-!
# Runs of edits

A string that goes through any number of edits is, in the abstract, a list of bytes that goes
through functions on lists. The functions of `sds` refine it: every run that stays within the
lengths that the machine can count ends in a valid string with the bytes of the abstract run, in
one block, and the only thing that stops it is an allocator that refuses.
-/

namespace Sherry

open Std.Do

set_option mvcgen.warning false

variable {A : Allocator} {m₀ m : Memory} {s : SdsString}

/-- A call of a function that changes a string, with its other arguments. -/
inductive SdsEdit
  /-- `sdscatlen`. -/
  | catlen (t : List UInt8)
  /-- `sdscat`. -/
  | cat (t : List UInt8)
  /-- `sdscatsds`. -/
  | catsds (t : SdsString)
  /-- `sdscatprintf`, with the text that the C library prints. -/
  | catprintf (stack : Vector UInt8 1024) (fmt printed : List UInt8)
  /-- `sdscatfmt`. -/
  | catfmt (stack : Vector UInt8 sdsLlstrSize) (fmt : List UInt8) (args : List FmtArg)
  /-- `sdscatrepr`. -/
  | catrepr (stack : Vector UInt8 1024) (p : List UInt8)
  /-- `sdscpylen`. -/
  | cpylen (t : List UInt8)
  /-- `sdscpy`. -/
  | cpy (t : List UInt8)
  /-- `sdsgrowzero`. -/
  | growzero (n : Nat)
  /-- `sdsMakeRoomFor`, bytes written from outside and `sdsIncrLen`. -/
  | fill (n : Nat) (bytes : List UInt8)
  /-- `sdsMakeRoomFor`. -/
  | makeRoomFor (n : Nat)
  /-- `sdsRemoveFreeSpace`. -/
  | removeFreeSpace
  /-- `sdstrim`. -/
  | trim (cset : List UInt8)
  /-- `sdsrange`. -/
  | range (start stop : Int)
  /-- `sdsclear`. -/
  | clear
  /-- `sdsupdatelen`. -/
  | updatelen
  /-- `sdstolower`. -/
  | tolower
  /-- `sdstoupper`. -/
  | toupper
  /-- `sdsmapchars`. -/
  | mapchars (fromSet toSet : List UInt8)

namespace SdsEdit

/-- The call. -/
def call (A : Allocator) (s : SdsString) : SdsEdit → SdsM SdsString
  | catlen t => sdscatlen A s t
  | cat t => sdscat A s t
  | catsds t => sdscatsds A s t
  | catprintf stack fmt printed => sdscatvprintf A 2 stack s fmt (some printed)
  | catfmt stack fmt args => sdscatfmt A stack s fmt args
  | catrepr stack p => sdscatrepr A stack s p
  | cpylen t => sdscpylen A s t
  | cpy t => sdscpy A s t
  | growzero n => sdsgrowzero A s n
  | fill n bytes => fillFrom A s n bytes
  | makeRoomFor n => sdsMakeRoomFor A s n
  | removeFreeSpace => sdsRemoveFreeSpace A s
  | trim cset => sdstrim s cset
  | range start stop => sdsrange s start stop
  | clear => sdsclear s
  | updatelen => return sdsupdatelen s
  | tolower => sdstolower s
  | toupper => sdstoupper s
  | mapchars fromSet toSet => sdsmapchars s fromSet toSet

/-- What the call means for the bytes of the string. -/
def meaning (text : List UInt8) : SdsEdit → List UInt8
  | catlen t => text ++ t
  | cat t => text ++ cstr t
  | catsds t => text ++ t.content
  | catprintf _ _ printed => text ++ printed
  | catfmt _ fmt args => text ++ (render (cstr fmt) args).getD []
  | catrepr _ p => text ++ quoted p
  | cpylen t => t
  | cpy t => cstr t
  | growzero n => text ++ List.replicate (n - text.length) 0
  | fill _ bytes => text ++ bytes
  | makeRoomFor _ => text
  | removeFreeSpace => text
  | trim cset => (text.dropWhile (strchr cset)).rdropWhile (strchr cset)
  | range start stop =>
    (text.take ((rangeIndex text.length stop).toNat + 1)).drop (rangeIndex text.length start).toNat
  | clear => []
  | updatelen => cstr text
  | tolower => text.map Sherry.tolower
  | toupper => text.map Sherry.toupper
  | mapchars fromSet toSet => text.map (mapchar fromSet toSet)

/-- The lengths stay within what the machine counts, other strings are strings, and the arguments
of a format suit it. -/
def Allowed (text : List UInt8) : SdsEdit → Prop
  | catlen t => text.length + t.length < 2 ^ 63
  | cat t => text.length + (cstr t).length < 2 ^ 63
  | catsds t => t.Valid ∧ text.length + t.content.length < 2 ^ 63
  | catprintf _ fmt printed =>
    (cstr fmt).length < 2 ^ 63 ∧ printed.length < 2 ^ 31 ∧ text.length + printed.length < 2 ^ 63
  | catfmt _ fmt args => (∀ t, .sds t ∈ args → t.Valid) ∧
    2 * (text.length + (cstr fmt).length) < 2 ^ 63 ∧
    ∃ printed, render (cstr fmt) args = some printed ∧ text.length + printed.length + 1 < 2 ^ 63
  | catrepr _ p => text.length + (quoted p).length < 2 ^ 63
  | cpylen t => text.length < 2 ^ 63 ∧ t.length < 2 ^ 63
  | cpy t => text.length < 2 ^ 63 ∧ (cstr t).length < 2 ^ 63
  | growzero n => n < 2 ^ 63
  | fill n bytes => 0 < n ∧ bytes.length ≤ n ∧ text.length + n < 2 ^ 63
  | makeRoomFor n => text.length + n < 2 ^ 63
  | removeFreeSpace => text.length < 2 ^ 63
  | _ => True

/-- Every edit of a list is allowed where it is made. -/
def AllowedAll : List SdsEdit → List UInt8 → Prop
  | [], _ => True
  | e :: edits, text => e.Allowed text ∧ AllowedAll edits (e.meaning text)

/-- What a list of edits means. -/
def meaningAll (edits : List SdsEdit) (text : List UInt8) : List UInt8 := edits.foldl meaning text

/-- One edit refines its meaning. -/
theorem call_spec (edit : SdsEdit) (m₀ : Memory) (valid : s.Valid)
    (allowed : edit.Allowed s.content) :
    ⦃fun m => ⌜m = m₀⌝⦄
    edit.call A s
    ⦃post⟨fun r m => ⌜Becomes m₀ m s r (edit.meaning s.content)⌝,
      fun e m => ⌜∃ b, Lacks A m₀ m [s.base] [b] e⌝⟩⦄ := by
  have kept : ∀ {e m}, Refused A m₀ m s e → ∃ b, Lacks A m₀ m [s.base] [b] e :=
    fun refused => ⟨_, refused.fault, refused.refuses, refused.trades⟩
  have never : ∀ {e : SdsFault} {m : Memory}, False → ∃ b, Lacks A m₀ m [s.base] [b] e := False.elim
  cases edit with
  | catlen t =>
    exact Allocating.weaken (sdscatlen_spec valid allowed) (fun _ _ => id) fun _ _ => kept
  | cat t => exact Allocating.weaken (sdscat_spec valid allowed) (fun _ _ => id) fun _ _ => kept
  | catsds t =>
    exact Allocating.weaken (sdscatsds_spec valid allowed.1 allowed.2) (fun _ _ => id)
      fun _ _ => kept
  | catprintf stack fmt printed =>
    exact printf_appends stack allowed.1 allowed.2.1 s m₀ valid allowed.2.2
  | catfmt stack fmt args =>
    obtain ⟨known, format, printed, suits, small⟩ := allowed
    refine Allocating.weaken (sdscatfmt_spec stack valid known suits format small) ?_ ?_
    · intro r m becomes
      rw [meaning, suits]
      exact becomes
    · exact fun e m ⟨fault, refuses, held, trades⟩ => ⟨held, fault, refuses, trades⟩
  | catrepr stack p => exact sdscatrepr_appends stack p s m₀ valid allowed
  | cpylen t =>
    exact Allocating.weaken (sdscpylen_spec valid allowed.1 allowed.2) (fun _ _ => id)
      fun _ _ => kept
  | cpy t =>
    exact Allocating.weaken (sdscpy_spec valid allowed.1 allowed.2) (fun _ _ => id) fun _ _ => kept
  | growzero n =>
    exact Allocating.weaken (sdsgrowzero_spec valid allowed) (fun _ _ => id) fun _ _ => kept
  | fill n bytes =>
    exact Allocating.weaken (fillFrom_spec valid allowed.1 allowed.2.1 allowed.2.2) (fun _ _ => id)
      fun _ _ => kept
  | makeRoomFor n =>
    exact Allocating.weaken (sdsMakeRoomFor_spec valid.stored allowed)
      (fun _ _ made => made.becomes valid) fun _ _ => kept
  | removeFreeSpace =>
    exact Allocating.weaken (sdsRemoveFreeSpace_spec valid allowed) (fun _ _ made => made.1)
      fun _ _ => kept
  | trim cset => exact Allocating.weaken (sdstrim_spec cset valid) (fun _ _ => id) fun _ _ => never
  | range start stop =>
    exact Allocating.weaken (sdsrange_spec start stop valid) (fun _ _ => id) fun _ _ => never
  | clear => exact Allocating.weaken (sdsclear_spec valid) (fun _ _ => id) fun _ _ => never
  | updatelen =>
    exact Triple.pure _ fun m same => same ▸ sdsupdatelen_becomes valid m
  | tolower => exact Allocating.weaken (mapBytes_spec _ valid) (fun _ _ => id) fun _ _ => never
  | toupper => exact Allocating.weaken (mapBytes_spec _ valid) (fun _ _ => id) fun _ _ => never
  | mapchars fromSet toSet =>
    exact Allocating.weaken (mapBytes_spec _ valid) (fun _ _ => id) fun _ _ => never

/-- Any number of edits refines their meaning. -/
theorem run_spec (edits : List SdsEdit) (m₀ : Memory) (valid : s.Valid)
    (allowed : AllowedAll edits s.content) :
    ⦃fun m => ⌜m = m₀⌝⦄
    edits.foldlM (call A) s
    ⦃post⟨fun r m => ⌜Becomes m₀ m s r (meaningAll edits s.content)⌝,
      fun e m => ⌜∃ b, Lacks A m₀ m [s.base] [b] e⌝⟩⦄ := by
  induction edits generalizing s m₀ with
  | nil => exact Triple.pure _ fun m same => ⟨valid, rfl, same ▸ .refl _ _⟩
  | cons edit edits ih =>
    rw [List.foldlM_cons]
    refine Allocating.seq (call_spec edit m₀ valid allowed.1) fun q m₁ first => ?_
    have rest := ih m₁ first.valid (by rw [first.content]; exact allowed.2)
    refine Allocating.weaken rest (fun r m last => ?_) ?_
    · refine ⟨last.valid, ?_, first.trades.trans last.trades⟩
      rw [last.content, first.content]
      rfl
    · exact fun e m ⟨b, lacks⟩ => ⟨b, lacks.later first.trades⟩

end SdsEdit

/-- The life of a string: it is made, goes through edits, is read and freed. -/
def sdsLife (A : Allocator) (text : List UInt8) (edits : List SdsEdit) : SdsM (List UInt8) := do
  let s ← sdsnewlen A (.bytes text) text.length
  let s ← edits.foldlM (SdsEdit.call A) s
  let read ← s.read 0 (sdslen s)
  sdsfree (some s)
  return read

end Sherry
