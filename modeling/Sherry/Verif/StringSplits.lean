import Sherry.Library.Separators
import Sherry.Model.StringTokens
import Sherry.Verif.StringFormat

/-!
# Strings split and joined

`sdssplitlen` cuts a text where its separator occurs, and `sdsjoinsds` puts the pieces together
again. The array always has room for the next piece and the final one. When the allocator refuses,
everything that was drawn for the pieces is given back, and so it is by `sdsfreesplitres`.
-/

namespace Sherry

open Std.Do

set_option mvcgen.warning false

variable {A : Allocator} {m₀ m : Memory} {n : Nat} {text sep : List UInt8}

/-- The blocks of some strings. -/
def basesOf (strings : List SdsString) : List Nat := strings.map SdsString.base

/-- The bytes of some strings. -/
def contentsOf (strings : List SdsString) : List (List UInt8) := strings.map SdsString.content

/-- The blocks that an array holds: its own and those of its strings. -/
def TokenArray.held (tokens : TokenArray) : List Nat :=
  tokens.block.toList ++ basesOf tokens.elements

/-- The array holds strings. -/
def TokenArray.Valid (tokens : TokenArray) : Prop := ∀ t ∈ tokens.elements, t.Valid

/-- What the array holds, in bytes. -/
def TokenArray.contents (tokens : TokenArray) : List (List UInt8) := contentsOf tokens.elements

/-- The array has room for some elements. -/
def TokenArray.Room (tokens : TokenArray) (n : Nat) : Prop :=
  tokens.size = sizeofSds * tokens.slots ∧ n ≤ tokens.slots

/-- Strings are given back, and then a block. -/
theorem freeElements_spec {elements : List SdsString} (block : Option Nat) {m₀ : Memory}
    (valid : ∀ t ∈ elements, t.Valid) :
    ⦃fun m => ⌜m = m₀⌝⦄
    freeElements elements block
    ⦃post⟨fun _ m => ⌜m₀.Trades m (block.toList ++ basesOf elements) []⌝, fun _ _ => ⌜False⌝⟩⦄ := by
  induction elements generalizing m₀ with
  | nil =>
    cases block with
    | none => exact Triple.pure _ fun m same => same ▸ .refl _ _
    | some block =>
      refine Allocating.weaken (Allocator.free_spec block) ?_ fun _ _ wrong => wrong
      exact fun _ m given => given.1
  | cons t elements ih =>
    have others := fun m₁ => @ih m₁ fun u member => valid u (List.mem_cons_of_mem t member)
    refine Allocating.seq (sdsfree_spec m₀ (valid t List.mem_cons_self)) fun _ m₁ given => ?_
    refine Allocating.weaken (others m₁) (fun _ m gone => ?_) fun _ _ wrong => wrong
    have front : (block.toList ++ basesOf (t :: elements)).Perm
        ([t.base] ++ (block.toList ++ basesOf elements)) := List.perm_middle
    have first := given.frame front (.refl _)
    exact first.trans gone

/-- A part of `sdssplitlen` that fails gives back what the array holds. -/
theorem cleanup_spec {α : Type} {tokens : TokenArray} {x : SdsM α} {Q : α → Memory → Prop}
    (valid : tokens.Valid)
    (part : ⦃fun m => ⌜m = m₀⌝⦄ x
      ⦃post⟨fun r m => ⌜Q r m⌝, fun e m => ⌜Lacks A m₀ m tokens.held tokens.held e⌝⟩⦄) :
    ⦃fun m => ⌜m = m₀⌝⦄
    cleanup tokens x
    ⦃post⟨fun r m => ⌜Q r m⌝, fun e m => ⌜Lacks A m₀ m tokens.held [] e⌝⟩⦄ := by
  refine Allocating.caught part fun e m₁ lacks => ?_
  have given := @freeElements_spec tokens.elements tokens.block m₁ valid
  refine Allocating.chain given (fun _ _ => False.elim) fun _ m₂ gone => ?_
  exact Allocating.fails ⟨lacks.fault, lacks.refuses, lacks.trades.trans gone⟩

/-- The array is drawn, or exchanged for a larger one. -/
theorem resize_spec (tokens : TokenArray) {slots : Nat} (small : sizeofSds * slots < 2 ^ 64) :
    ⦃fun m => ⌜m = m₀⌝⦄
    tokens.resize A slots
    ⦃post⟨fun r m => ⌜r.elements = tokens.elements ∧ r.Room slots ∧ r.block.isSome ∧
        m₀.Trades m tokens.held r.held⌝,
      fun e m => ⌜Lacks A m₀ m tokens.held tokens.held e⌝⟩⦄ := by
  have whole : sizeT (sizeofSds * slots) = sizeofSds * slots := Nat.mod_eq_of_lt small
  obtain ⟨block, size, room, elements⟩ := tokens
  cases block with
  | none =>
    simp only [TokenArray.resize, whole]
    mvcgen
    case vc1.none.post.success m same p m' drawn =>
      subst same
      exact ⟨trivial, ⟨drawn.2.2, le_rfl⟩, rfl, drawn.1.frame (.refl _) (.refl _)⟩
    case vc2.none.post.except.handle m same e m' =>
      subst same
      exact fun fault refuses trades => ⟨fault, refuses, trades.frame (.refl _) (.refl _)⟩
  | some old =>
    simp only [TokenArray.resize, whole]
    mvcgen
    case vc1.some.post.success m same p m' drawn =>
      subst same
      exact ⟨trivial, ⟨drawn.2.2.1, le_rfl⟩, rfl, drawn.1.frame (.refl _) (.refl _)⟩
    case vc2.some.post.except.handle m same e m' =>
      subst same
      exact fun fault refuses trades => ⟨fault, refuses, trades.frame (.refl _) (.refl _)⟩

/-- An array has some more strings. -/
structure Grown (m₀ m : Memory) (tokens r : TokenArray) (more : List (List UInt8)) : Prop where
  /-- The array holds strings. -/
  valid : r.Valid
  /-- The bytes of the strings. -/
  contents : r.contents = tokens.contents ++ more
  /-- What is held. -/
  trades : m₀.Trades m tokens.held r.held

namespace Grown

variable {tokens q r : TokenArray} {ps qs : List (List UInt8)} {m₁ : Memory}

/-- How many strings there are. -/
theorem length (grown : Grown m₀ m tokens r ps) :
    r.elements.length = tokens.elements.length + ps.length := by
  have lengths := congrArg List.length grown.contents
  simpa [TokenArray.contents, contentsOf] using lengths

/-- First some strings and then others. -/
theorem trans (first : Grown m₀ m₁ tokens q ps) (second : Grown m₁ m q r qs) :
    Grown m₀ m tokens r (ps ++ qs) := by
  refine ⟨second.valid, ?_, first.trades.trans second.trades⟩
  rw [second.contents, first.contents, List.append_assoc]

end Grown

/-- The array of `sdssplitlen` always has room for the next element and the final one. -/
theorem makeSlots_spec {tokens : TokenArray} (valid : tokens.Valid)
    (room : tokens.Room (tokens.elements.length + 1)) (few : tokens.elements.length < 2 ^ 31) :
    ⦃fun m => ⌜m = m₀⌝⦄
    makeSlots A tokens
    ⦃post⟨fun r m => ⌜r.elements = tokens.elements ∧ r.Room (tokens.elements.length + 2) ∧
        Grown m₀ m tokens r []⌝,
      fun e m => ⌜Lacks A m₀ m tokens.held [] e⌝⟩⦄ := by
  have enough := room.2
  rw [makeSlots]
  split_ifs with short
  · have size : sizeofSds * (tokens.slots * 2) < 2 ^ 64 := by
      rw [sizeofSds]
      omega
    refine Allocating.weaken (cleanup_spec valid (resize_spec tokens size)) ?_
      fun _ _ lacks => lacks
    rintro r m ⟨same, ⟨size, slots⟩, -, trades⟩
    have holds : r.Valid := by rwa [TokenArray.Valid, same]
    have contents : r.contents = tokens.contents ++ [] := by
      rw [TokenArray.contents, same, List.append_nil, TokenArray.contents]
    exact ⟨same, ⟨size, by omega⟩, holds, contents, trades⟩
  · refine Triple.pure _ fun m same => ⟨rfl, ⟨room.1, by omega⟩, valid, ?_, same ▸ .refl _ _⟩
    exact (List.append_nil _).symm

/-- The next element of the array is made of some bytes. -/
theorem addToken_spec {tokens : TokenArray} {bytes : List UInt8} {k : Nat} (valid : tokens.Valid)
    (room : tokens.Room k) (next : tokens.elements.length < k) (given : n ≤ bytes.length)
    (small : n < 2 ^ 63) :
    ⦃fun m => ⌜m = m₀⌝⦄
    addToken A tokens bytes n
    ⦃post⟨fun r m => ⌜Grown m₀ m tokens r [bytes.take n] ∧ r.Room k⌝,
      fun e m => ⌜Lacks A m₀ m tokens.held [] e⌝⟩⦄ := by
  have made : ⦃fun m => ⌜m = m₀⌝⦄ sdsnewlen A (.bytes bytes) n
      ⦃post⟨fun r m => ⌜r.Valid ∧ r.content = bytes.take n ∧
          m₀.Trades m tokens.held (tokens.held ++ [r.base])⌝,
        fun e m => ⌜Lacks A m₀ m tokens.held tokens.held e⌝⟩⦄ := by
    refine Allocating.weaken (sdsnewlen_bytes m₀ given small) ?_ ?_
    · rintro r m ⟨valid, content, trades⟩
      refine ⟨valid, content, ?_⟩
      have beside := trades.beside tokens.held
      rwa [List.append_nil] at beside
    · rintro e m ⟨fault, refuses, trades⟩
      refine ⟨fault, refuses, ?_⟩
      have beside := trades.beside tokens.held
      rwa [List.append_nil] at beside
  rw [addToken]
  refine Allocating.seq (cleanup_spec valid made) fun t m₁ ⟨token, content, trades⟩ => ?_
  have fits : sizeofSds * (tokens.elements.length + 1) ≤ tokens.size := by
    rw [room.1]
    exact Nat.mul_le_mul_left _ (Nat.le_trans next room.2)
  rw [TokenArray.push, if_pos fits]
  refine Triple.pure _ fun m same => ⟨⟨?_, ?_, ?_⟩, room⟩
  · intro u member
    obtain old | new := List.mem_append.mp member
    · exact valid u old
    · rwa [List.mem_singleton.mp new]
  · simp [TokenArray.contents, contentsOf, content]
  · cases same
    simpa [TokenArray.held, basesOf] using trades

/-- The test of `sdssplitlen` finds the separator where it occurs. -/
theorem occurs_iff (some_sep : sep ≠ []) {j : Nat} :
    (sep.length = 1 ∧ text[j]? = sep[0]?) ∨ Bytes.segment text j sep.length = sep ↔
      sep <+: text.drop j := by
  rw [List.prefix_iff_eq_take, Bytes.segment, eq_comm (a := sep)]
  refine or_iff_right_of_imp ?_
  rintro ⟨single, first⟩
  obtain ⟨c, rfl⟩ := List.length_eq_one_iff.mp single
  obtain ⟨inside, here⟩ := List.getElem?_eq_some_iff.mp first
  rw [List.drop_eq_getElem_cons inside, here]
  rfl

/-- What the loop of `sdssplitlen` leaves: more strings, and the rest of the text that the
separator does not occur in. -/
structure SplitLeft (m₀ m : Memory) (text sep : List UInt8) (start : Nat) (tokens : TokenArray)
    (r : TokenArray × Nat) (ps : List (List UInt8)) : Prop where
  /-- The strings. -/
  grown : Grown m₀ m tokens r.1 ps
  /-- There is room for the final one. -/
  room : r.1.Room (r.1.elements.length + 1)
  /-- Where the rest starts. -/
  inside : r.2 ≤ text.length
  /-- The separator does not occur in the rest. -/
  free : Free sep (text.drop r.2) (text.drop r.2).length
  /-- The strings are the first pieces. -/
  splits : ∀ qs, Splits sep (text.drop r.2) qs → Splits sep (text.drop start) (ps ++ qs)

/-- A piece is found, and then the loop goes on behind the separator. -/
theorem SplitLeft.found {m₁ : Memory} {tokens q : TokenArray} {r : TokenArray × Nat} {j start : Nat}
    {ps : List (List UInt8)}
    (left : SplitLeft m₁ m text sep (j + sep.length) q r ps) (behind : start ≤ j)
    (grown : Grown m₀ m₁ tokens q [(text.drop start).take (j - start)])
    (found : sep <+: text.drop j) (free : Free sep (text.drop start) (j - start)) :
    ∃ ps, SplitLeft m₀ m text sep start tokens r ps := by
  refine ⟨_, grown.trans left.grown, left.room, left.inside, left.free, fun qs rest => ?_⟩
  obtain ⟨later, whole⟩ := found
  have behind_sep : later = text.drop (j + sep.length) := by
    rw [← List.drop_drop, ← whole, List.drop_left]
  have cut : text.drop start =
      (text.drop start).take (j - start) ++ (sep ++ text.drop (j + sep.length)) := by
    rw [← behind_sep, whole, ← Nat.add_sub_cancel' behind, ← List.drop_drop,
      Nat.add_sub_cancel_left, List.take_append_drop]
  have length : ((text.drop start).take (j - start)).length ≤ j - start := List.length_take_le _ _
  generalize (text.drop start).take (j - start) = piece at cut length ⊢
  rw [cut] at free ⊢
  exact .cons (fun k within => free k (within.trans_le length)) (left.splits qs rest)

/-- The loop ends where the separator is longer than the rest. -/
theorem splitLoop_end (some_sep : sep ≠ []) {j start : Nat} {tokens : TokenArray}
    (behind : start ≤ j) (inside : j ≤ text.length) (late : text.length < j + sep.length)
    (free : Free sep (text.drop start) (j - start)) (valid : tokens.Valid)
    (room : tokens.Room (tokens.elements.length + 1)) :
    ⦃fun m => ⌜m = m₀⌝⦄
    (pure (tokens, start) : SdsM (TokenArray × Nat))
    ⦃post⟨fun r m => ⌜∃ ps, SplitLeft m₀ m text sep start tokens r ps⌝,
      fun e m => ⌜Lacks A m₀ m tokens.held [] e⌝⟩⦄ := by
  have none_left := free.short some_sep (by rw [List.length_drop]; omega) (text.drop start).length
  refine Triple.pure _ fun m same => ⟨[], ⟨valid, ?_, ?_⟩, room, behind.trans inside, none_left, ?_⟩
  · exact (List.append_nil _).symm
  · exact same ▸ .refl _ _
  · exact fun qs splits => splits

/-- The loop of `sdssplitlen` makes a string of every piece that a separator ends. -/
theorem splitLoop_spec (some_sep : sep ≠ []) (small : text.length < 2 ^ 30) {fuel j start : Nat}
    {tokens : TokenArray} (m₀ : Memory) (behind : start ≤ j) (inside : j ≤ text.length)
    (enough : text.length ≤ j + fuel) (free : Free sep (text.drop start) (j - start))
    (valid : tokens.Valid) (room : tokens.Room (tokens.elements.length + 1))
    (few : tokens.elements.length ≤ start) :
    ⦃fun m => ⌜m = m₀⌝⦄
    splitLoop A text sep fuel j start tokens
    ⦃post⟨fun r m => ⌜∃ ps, SplitLeft m₀ m text sep start tokens r ps⌝,
      fun e m => ⌜Lacks A m₀ m tokens.held [] e⌝⟩⦄ := by
  have positive := List.length_pos_iff.mpr some_sep
  induction fuel generalizing j start tokens m₀ with
  | zero => exact splitLoop_end some_sep behind inside (by omega) free valid room
  | succ fuel ih =>
    rw [splitLoop]
    by_cases more : (j : Int) < text.length - (sep.length - 1)
    · rw [if_pos more]
      have within : j + sep.length ≤ text.length := by omega
      refine Allocating.seq (makeSlots_spec valid room (by omega)) fun q m₁ grown => ?_
      obtain ⟨same, slots, grown⟩ := grown
      have here : (text.drop start).drop (j - start) = text.drop j := by
        rw [List.drop_drop, Nat.add_sub_cancel' behind]
      rw [← same] at slots few
      by_cases found : sep <+: text.drop j
      · rw [if_pos ((occurs_iff some_sep).mpr found)]
        have added := @addToken_spec A m₁ (j - start) q (text.drop start) _ grown.valid slots
          (by omega) (by rw [List.length_drop]; omega) (by omega)
        refine Allocating.chain added ?_ fun t m₂ added => ?_
        · exact fun e m lacks => lacks.later grown.trades
        obtain ⟨added, room⟩ := added
        have both := grown.trans added
        have count := added.length
        rw [List.length_singleton] at count
        have next : j + (sep.length - 1) + 1 = j + sep.length := by omega
        have rest := @ih (j + sep.length) (j + sep.length) t m₂ le_rfl within (by omega)
          (by rw [Nat.sub_self]; exact fun k none_left => absurd none_left k.not_lt_zero)
          added.valid (count ▸ room) (by omega)
        rw [next]
        refine Allocating.weaken rest ?_ fun e m lacks => lacks.later both.trades
        exact fun r m ⟨ps, left⟩ => left.found behind both found free
      · rw [if_neg (mt (occurs_iff some_sep).mp found)]
        have free' := free.succ (here ▸ found)
        have rest := @ih (j + 1) start q m₁ (by omega) (by omega) (by omega)
          (by rwa [Nat.sub_add_comm behind]) grown.valid ⟨slots.1, Nat.le_of_succ_le slots.2⟩ few
        refine Allocating.weaken rest ?_ fun e m lacks => lacks.later grown.trades
        rintro r m ⟨ps, left⟩
        exact ⟨ps, grown.trans left.grown, left.room, left.inside, left.free, left.splits⟩
    · rw [if_neg more]
      exact splitLoop_end some_sep behind inside (by omega) free valid room

/-- The blocks of what `sdssplitlen` or `sdssplitargs` returns. -/
def heldBy (r : Option TokenArray) : List Nat := r.elim [] TokenArray.held

/-- `sdssplitlen` returns the pieces of the text, or `NULL` for an empty text or separator, or the
allocator refused and nothing is left of what was drawn. -/
theorem sdssplitlen_spec (m₀ : Memory) (small : text.length < 2 ^ 30) :
    ⦃fun m => ⌜m = m₀⌝⦄
    sdssplitlen A text sep
    ⦃post⟨fun r m => ⌜m₀.Trades m [] (heldBy r) ∧ (r = none → text = [] ∨ sep = []) ∧
        ∀ t, r = some t → t.Valid ∧ Splits sep text t.contents⌝,
      fun e m => ⌜Lacks A m₀ m [] [] e⌝⟩⦄ := by
  rw [sdssplitlen]
  by_cases empty : sep.length < 1 ∨ text.length = 0
  · rw [if_pos empty]
    rw [Nat.lt_one_iff, List.length_eq_zero_iff, List.length_eq_zero_iff] at empty
    refine Triple.pure _ fun m same => ⟨same ▸ .refl _ _, fun _ => empty.symm, fun t found => ?_⟩
    cases found
  · rw [if_neg empty]
    have some_sep : sep ≠ [] := by
      rintro rfl
      exact empty (.inl Nat.one_pos)
    refine Allocating.seq (resize_spec {} (by decide)) fun tokens m₁ made => ?_
    obtain ⟨none_yet, room, -, drawn⟩ := made
    have size : tokens.elements.length = 0 := by rw [none_yet]; rfl
    have slots := room.2
    have contents : tokens.contents = [] := by rw [TokenArray.contents, none_yet]; rfl
    have valid : tokens.Valid := by
      intro t member
      rw [none_yet] at member
      cases member
    have before : Free sep (text.drop 0) 0 := fun k none_left => absurd none_left k.not_lt_zero
    have loop := @splitLoop_spec A text sep some_sep small text.length 0 0 tokens m₁ le_rfl
      (Nat.zero_le _) (Nat.le_add_left _ _) before valid ⟨room.1, by omega⟩ size.le
    refine Allocating.chain loop ?_ fun r m₂ left => ?_
    · exact fun e m lacks => lacks.later drawn
    obtain ⟨ps, left⟩ := left
    have traded := drawn.trans left.grown.trades
    have length : (text.drop r.2).length = text.length - r.2 := List.length_drop
    have final := @addToken_spec A m₂ (text.length - r.2) r.1 (text.drop r.2) _ left.grown.valid
      left.room (Nat.lt_succ_self _) length.ge (by omega)
    refine Allocating.chain final ?_ fun t m₃ added => ?_
    · exact fun e m lacks => lacks.later traded
    have grown := left.grown.trans added.1
    refine Triple.pure _ fun m same => ⟨?_, fun none_left => ?_, ?_⟩
    · exact same ▸ drawn.trans grown.trades
    · cases none_left
    · rintro _ ⟨rfl⟩
      have pieces := left.splits _ (.last left.free)
      have holds := grown.contents
      rw [← length, List.take_length, contents, List.nil_append] at holds
      exact ⟨grown.valid, holds ▸ pieces⟩

/-- `sdsfreesplitres` gives back everything that an array holds. -/
theorem sdsfreesplitres_spec {tokens : Option TokenArray} (m₀ : Memory)
    (valid : ∀ t, tokens = some t → t.Valid) :
    ⦃fun m => ⌜m = m₀⌝⦄
    sdsfreesplitres tokens
    ⦃post⟨fun _ m => ⌜m₀.Trades m (heldBy tokens) []⌝, fun _ _ => ⌜False⌝⟩⦄ := by
  cases tokens with
  | none => exact Triple.pure _ fun m same => same ▸ .refl _ _
  | some t =>
    have given := @freeElements_spec t.elements.reverse t.block m₀ fun u member =>
      valid t rfl u (List.mem_reverse.mp member)
    refine Allocating.weaken given (fun _ m gone => ?_) fun _ _ wrong => wrong
    have bases : (basesOf t.elements).Perm (basesOf t.elements.reverse) :=
      t.elements.reverse_perm.symm.map _
    have same : t.held.Perm (t.block.toList ++ basesOf t.elements.reverse ++ []) := by
      rw [List.append_nil]
      exact bases.append_left _
    exact gone.frame same (.refl _)

/-- The loop of `sdsjoin` and `sdsjoinsds` appends the rest of the array, with the separator between
its elements. -/
theorem joinLoop_appends {α : Type} {add : SdsString → α → SdsM SdsString}
    {separate : SdsString → SdsM SdsString} {bytes : α → List UInt8} {argv : List α}
    (adds : ∀ t ∈ argv, Appends A (fun s => add s t) (bytes t))
    (separates : Appends A separate sep) :
    Appends A (joinLoop add separate argv) (sep.intercalate (argv.map bytes)) := by
  induction argv with
  | nil => exact .none
  | cons t argv ih =>
    have added := adds t List.mem_cons_self
    cases argv with
    | nil =>
      rw [List.map_singleton, List.intercalate_singleton]
      exact added
    | cons u argv =>
      have rest := ih fun v member => adds v (List.mem_cons_of_mem t member)
      rw [List.map_cons, List.map_cons, List.intercalate_cons_cons, List.append_assoc]
      exact added.seq (separates.seq rest)

/-- Joined strings start as an empty string. -/
theorem joined_spec {α : Type} {add : SdsString → α → SdsM SdsString}
    {separate : SdsString → SdsM SdsString} {bytes : α → List UInt8} {argv : List α}
    (adds : ∀ t ∈ argv, Appends A (fun s => add s t) (bytes t)) (separates : Appends A separate sep)
    (m₀ : Memory) (small : (sep.intercalate (argv.map bytes)).length < 2 ^ 63) :
    ⦃fun m => ⌜m = m₀⌝⦄
    (do joinLoop add separate argv (← sdsempty A))
    ⦃post⟨fun r m => ⌜r.Valid ∧ r.content = sep.intercalate (argv.map bytes) ∧
        m₀.Trades m [] [r.base]⌝,
      fun e m => ⌜∃ held, Lacks A m₀ m [] held e⌝⟩⦄ := by
  refine Allocating.chain (sdsempty_spec m₀) (fun _ _ lacks => ⟨_, lacks⟩) fun q m₁ made => ?_
  obtain ⟨valid, nothing, drawn⟩ := made
  have loop := joinLoop_appends adds separates q m₁ valid
    (by rwa [nothing, List.length_nil, Nat.zero_add])
  refine Allocating.weaken loop (fun r m becomes => ?_) ?_
  · refine ⟨becomes.valid, ?_, drawn.trans becomes.trades⟩
    rw [becomes.content, nothing, List.nil_append]
  · exact fun e m ⟨b, lacks⟩ => ⟨[b], lacks.later drawn⟩

/-- `sdsjoinsds` returns the strings with the separator between them. -/
theorem sdsjoinsds_spec {argv : List SdsString} (m₀ : Memory) (others : ∀ t ∈ argv, t.Valid)
    (small : (sep.intercalate (contentsOf argv)).length < 2 ^ 63) :
    ⦃fun m => ⌜m = m₀⌝⦄
    sdsjoinsds A argv sep
    ⦃post⟨fun r m => ⌜r.Valid ∧ r.content = sep.intercalate (contentsOf argv) ∧
        m₀.Trades m [] [r.base]⌝,
      fun e m => ⌜∃ held, Lacks A m₀ m [] held e⌝⟩⦄ := by
  have adds : ∀ t ∈ argv, Appends A (fun s => sdscatsds A s t) t.content :=
    fun t member => .of_refused fun valid small => sdscatsds_spec valid (others t member) small
  have separates : Appends A (fun s => sdscatlen A s sep) sep :=
    .of_refused fun valid small => sdscatlen_spec valid small
  exact joined_spec adds separates m₀ small

/-- `sdsjoin` returns the C strings with the separator between them. -/
theorem sdsjoin_spec {argv : List (List UInt8)} (m₀ : Memory)
    (small : ((cstr sep).intercalate (argv.map cstr)).length < 2 ^ 63) :
    ⦃fun m => ⌜m = m₀⌝⦄
    sdsjoin A argv sep
    ⦃post⟨fun r m => ⌜r.Valid ∧ r.content = (cstr sep).intercalate (argv.map cstr) ∧
        m₀.Trades m [] [r.base]⌝,
      fun e m => ⌜∃ held, Lacks A m₀ m [] held e⌝⟩⦄ := by
  have appends : ∀ t, Appends A (fun s => sdscat A s t) (cstr t) :=
    fun t => .of_refused fun valid small => sdscat_spec valid small
  exact joined_spec (fun t _ => appends t) (appends sep) m₀ small

/-- Split a text, join the pieces again with the separator and give them back. -/
def splitJoin (A : Allocator) (text sep : List UInt8) : SdsM (Option SdsString) := do
  let some tokens ← sdssplitlen A text sep | return none
  let joined ← sdsjoinsds A tokens.elements sep
  sdsfreesplitres (some tokens)
  return some joined

/-- Join some strings with a separator, split the result at the separator and give it back. -/
def joinSplit (A : Allocator) (argv : List SdsString) (sep : List UInt8) :
    SdsM (Option TokenArray) := do
  let joined ← sdsjoinsds A argv sep
  let tokens ← sdssplitlen A joined.content sep
  sdsfree (some joined)
  return tokens

end Sherry
