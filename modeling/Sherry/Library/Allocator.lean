import Mathlib

/-!
# Blocks of an allocator

An allocator answers a request with a block of the requested size and arbitrary content, or
refuses it. Blocks are named by the number of the request that drew them, so a block that was
given back is never drawn again. A program over the memory may end in a fault. `Memory.Owns` says
that the blocks drawn so far are the ones given back, each once, and the ones held; the rules of
the three operations carry the blocks a caller holds besides as `rest`.
-/

open Std.Do

set_option mvcgen.warning false

/-- How many requests were made, and which blocks were drawn and given back. -/
structure Memory where
  /-- The number of requests. -/
  requests : Nat := 0
  /-- The blocks that were drawn. -/
  drawn : List Nat := []
  /-- The blocks that were given back, in order. -/
  returned : List Nat := []
  deriving DecidableEq

/-- What each request is answered with: a block of the size, or nothing. -/
structure Allocator where
  /-- The answer, by the number of the request and the size. -/
  answer : Nat → (size : Nat) → Option (Vector UInt8 size)

/-- Programs over the memory that may end in a fault. -/
abbrev Allocating (ε : Type) : Type → Type := ExceptT ε (StateM Memory)

namespace Allocator

variable {ε : Type}

/-- The allocator refuses some request. -/
def Refuses (A : Allocator) : Prop := ∃ k n, A.answer k n = none

/-- An allocator that answers every request, with zeros. -/
def zeros : Allocator where
  answer _ size := some (Vector.replicate size 0)

/-- It refuses none. -/
theorem zeros_answers : ¬zeros.Refuses := by
  rintro ⟨k, n, refused⟩
  cases refused

/-- Draw a block, with its name and content. -/
def malloc (A : Allocator) (refused : ε) (n : Nat) : Allocating ε (Nat × List UInt8) := do
  let m ← get
  match A.answer m.requests n with
  | some bytes =>
    set { m with requests := m.requests + 1, drawn := m.requests :: m.drawn }
    return (m.requests, bytes.toList)
  | none =>
    set { m with requests := m.requests + 1 }
    throw refused

/-- Give a block back. -/
def free (block : Nat) : Allocating ε Unit :=
  modify fun m => { m with returned := block :: m.returned }

/-- Exchange a block for one of another size with the same content as far as it fits. When the
request is refused, the block stays. -/
def realloc (A : Allocator) (refused : ε) (block : Nat) (content : List UInt8) (n : Nat) :
    Allocating ε (Nat × List UInt8) := do
  let (fresh, bytes) ← A.malloc refused n
  free block
  return (fresh, content.take n ++ bytes.drop content.length)

end Allocator

namespace Memory

variable {m : Memory} {b : Nat} {held other : List Nat}

/-- The blocks that were drawn are those given back and those held. -/
structure Owns (m : Memory) (held : List Nat) : Prop where
  /-- What was drawn was given back or is held. -/
  balance : (m.returned ++ held).Perm m.drawn
  /-- No block was drawn twice. -/
  once : m.drawn.Nodup
  /-- Blocks carry the numbers of past requests. -/
  past : ∀ b ∈ m.drawn, b < m.requests

namespace Owns

/-- Nothing was drawn yet. -/
theorem start : Owns {} [] := ⟨.refl _, List.nodup_nil, by simp⟩

/-- The order in which blocks are held does not matter. -/
theorem perm (owns : m.Owns held) (same : held.Perm other) : m.Owns other :=
  ⟨(same.symm.append_left m.returned).trans owns.balance, owns.once, owns.past⟩

/-- A request that is refused. -/
theorem refuse (owns : m.Owns held) : Owns { m with requests := m.requests + 1 } held :=
  ⟨owns.balance, owns.once, fun b drawn => (owns.past b drawn).trans (Nat.lt_succ_self _)⟩

/-- A request that is answered. -/
theorem draw (owns : m.Owns held) :
    Owns { m with requests := m.requests + 1, drawn := m.requests :: m.drawn }
      (m.requests :: held) where
  balance := List.perm_middle.trans (owns.balance.cons m.requests)
  once := List.nodup_cons.mpr ⟨fun drawn => (owns.past _ drawn).false, owns.once⟩
  past := by
    intro b drawn
    cases List.mem_cons.mp drawn with
    | inl new => exact new ▸ Nat.lt_succ_self _
    | inr old => exact (owns.past b old).trans (Nat.lt_succ_self _)

/-- A held block is given back. -/
theorem giveBack (owns : m.Owns (b :: held)) : Owns { m with returned := b :: m.returned } held :=
  ⟨List.perm_middle.symm.trans owns.balance, owns.once, owns.past⟩

end Owns

/-- Whoever held some blocks before, besides any others, holds other ones in their place now. -/
def Trades (before after : Memory) (old new : List Nat) : Prop :=
  ∀ rest, before.Owns (old ++ rest) → after.Owns (new ++ rest)

namespace Trades

variable {before middle after : Memory} {old new last : List Nat}

/-- Nothing happens to the blocks. -/
theorem refl (m : Memory) (held : List Nat) : m.Trades m held held := fun _ owns => owns

/-- One exchange after the other. -/
theorem trans (first : before.Trades middle old new) (second : middle.Trades after new last) :
    before.Trades after old last := fun rest owns => second rest (first rest owns)

/-- What is held besides stays held, and may be held in any order. -/
theorem frame (trade : before.Trades after old new) {held others : List Nat}
    (from_held : held.Perm (old ++ others)) {result : List Nat}
    (to_result : (new ++ others).Perm result) : before.Trades after held result := by
  intro rest owns
  have split : before.Owns (old ++ (others ++ rest)) := by
    rw [← List.append_assoc]
    exact owns.perm (from_held.append_right rest)
  have traded := trade (others ++ rest) split
  rw [← List.append_assoc] at traded
  exact traded.perm (to_result.append_right rest)

/-- What is held besides stays held. -/
theorem beside (trade : before.Trades after old new) (others : List Nat) :
    before.Trades after (others ++ old) (others ++ new) :=
  trade.frame List.perm_append_comm List.perm_append_comm

end Trades

end Memory

namespace Allocator

variable {ε : Type} {A : Allocator} {refused : ε} {m₀ : Memory}

/-- A block of the size is drawn, or the allocator refused. -/
@[spec] theorem malloc_spec (n : Nat) :
    ⦃fun m => ⌜m = m₀⌝⦄
    A.malloc refused n
    ⦃post⟨fun r m => ⌜m₀.Trades m [] [r.1] ∧ m.requests = m₀.requests + 1 ∧ r.2.length = n⌝,
      fun e m => ⌜e = refused ∧ A.Refuses ∧ m₀.Trades m [] []⌝⟩⦄ := by
  mvcgen [malloc]
  case vc1.h_1 same bytes answered =>
    subst same
    exact ⟨fun rest owns => Memory.Owns.draw owns, rfl, Vector.length_toList⟩
  case vc2.h_2 same answered =>
    subst same
    exact ⟨trivial, ⟨_, n, answered⟩, fun rest owns => Memory.Owns.refuse owns⟩

/-- A held block is given back. -/
@[spec] theorem free_spec (b : Nat) :
    ⦃fun m => ⌜m = m₀⌝⦄
    free (ε := ε) b
    ⦃post⟨fun _ m => ⌜m₀.Trades m [b] [] ∧ m.requests = m₀.requests⌝, fun _ _ => ⌜False⌝⟩⦄ := by
  mvcgen [free]
  case vc1 same after =>
    subst same
    refine ⟨fun rest owns => ?_, rfl⟩
    have back : Memory.Owns _ rest := Memory.Owns.giveBack owns
    exact back

/-- A held block is exchanged for one of another size, or it is still held and the allocator
refused. -/
@[spec] theorem realloc_spec (b : Nat) (content : List UInt8) (n : Nat) :
    ⦃fun m => ⌜m = m₀⌝⦄
    A.realloc refused b content n
    ⦃post⟨fun r m => ⌜m₀.Trades m [b] [r.1] ∧ m.requests = m₀.requests + 1 ∧ r.2.length = n ∧
        ∀ k, k ≤ n → k ≤ content.length → r.2.take k = content.take k⌝,
      fun e m => ⌜e = refused ∧ A.Refuses ∧ m₀.Trades m [b] [b]⌝⟩⦄ := by
  mvcgen [realloc]
  case vc1.post.success.post.success same r m drawn u m' given =>
    subst same
    obtain ⟨traded, count, size⟩ := drawn
    obtain ⟨back, same_count⟩ := given
    have held : Memory.Trades _ m [b] [b, r.1] :=
      traded.frame (.refl _) (.swap b r.1 [])
    refine ⟨held.trans (back.frame (.refl _) (.refl _)), same_count.trans count, ?_, ?_⟩
    · simp only [List.length_append, List.length_take, List.length_drop, size]
      omega
    · intro k small within
      rw [List.take_append_of_le_length (by rw [List.length_take]; omega), List.take_take,
        Nat.min_eq_left small]
  case vc2.post.except.handle same e m =>
    subst same
    exact fun failed refuses traded =>
      ⟨failed, refuses, traded.frame (List.Perm.refl [b]) (.refl _)⟩

end Allocator

namespace Allocating

variable {ε α β : Type} {x : Allocating ε α} {m₀ : Memory} {Q Q' : α → Memory → Prop}
  {E E' : ε → Memory → Prop} {R : β → Memory → Prop}

/-- Nothing runs after a fault. -/
@[simp] theorem throw_bind (e : ε) (f : α → Allocating ε β) :
    (throw e >>= f : Allocating ε β) = throw e := rfl

/-- Run a program from a memory. -/
def exec (x : Allocating ε α) (m : Memory) : Except ε α × Memory := StateT.run (ExceptT.run x) m

/-- What holds of the result and the memory at the end of a run. -/
def Ends (Q : α → Memory → Prop) (E : ε → Memory → Prop) : Except ε α × Memory → Prop
  | (.ok r, m) => Q r m
  | (.error e, m) => E e m

/-- A triple from a memory says what running the program from it gives. -/
theorem ends (triple : ⦃fun m => ⌜m = m₀⌝⦄ x ⦃post⟨fun r m => ⌜Q r m⌝, fun e m => ⌜E e m⌝⟩⦄) :
    Ends Q E (exec x m₀) := by
  have weakest := Triple.iff.mp triple m₀ rfl
  refine @Id.of_wp_run_eq _ _ (StateT.run (ExceptT.run x) m₀) rfl _ fun _ => ?_
  rw [WP.StateT_run, WP.ExceptT_run]
  exact weakest

/-- A program whose triple allows no fault returns from every memory. -/
theorem returns (triple : ⦃fun m => ⌜m = m₀⌝⦄ x ⦃post⟨fun r m => ⌜Q r m⌝, fun e m => ⌜E e m⌝⟩⦄)
    (never : ∀ e m, ¬E e m) : ∃ r m, exec x m₀ = (.ok r, m) ∧ Q r m := by
  have result := ends triple
  rcases ran : exec x m₀ with ⟨e | r, m⟩ <;> rw [ran] at result
  · exact absurd result (never e m)
  · exact ⟨r, m, rfl, result⟩

/-- What holds of every memory that the precondition allows holds under it. -/
theorem under {P : Memory → Prop}
    (each : ∀ m₀, P m₀ →
      ⦃fun m => ⌜m = m₀⌝⦄ x ⦃post⟨fun r m => ⌜Q r m⌝, fun e m => ⌜E e m⌝⟩⦄) :
    ⦃fun m => ⌜P m⌝⦄ x ⦃post⟨fun r m => ⌜Q r m⌝, fun e m => ⌜E e m⌝⟩⦄ :=
  Triple.iff.mpr fun m holds => Triple.iff.mp (each m holds) m rfl

/-- One program and then another. -/
theorem seq {f : α → Allocating ε β}
    (first : ⦃fun m => ⌜m = m₀⌝⦄ x ⦃post⟨fun r m => ⌜Q r m⌝, fun e m => ⌜E e m⌝⟩⦄)
    (second : ∀ r m₁, Q r m₁ →
      ⦃fun m => ⌜m = m₁⌝⦄ f r ⦃post⟨fun r m => ⌜R r m⌝, fun e m => ⌜E e m⌝⟩⦄) :
    ⦃fun m => ⌜m = m₀⌝⦄ (x >>= f) ⦃post⟨fun r m => ⌜R r m⌝, fun e m => ⌜E e m⌝⟩⦄ :=
  Triple.bind x f first fun r => under fun m₁ holds => second r m₁ holds

/-- A fault. -/
theorem fails {e : ε} (holds : E e m₀) :
    ⦃fun m => ⌜m = m₀⌝⦄ (throw e : Allocating ε α)
    ⦃post⟨fun r m => ⌜Q r m⌝, fun e m => ⌜E e m⌝⟩⦄ := by
  mvcgen
  case vc1 m same => exact same ▸ holds

/-- A program whose faults are handled. -/
theorem caught {handler : ε → Allocating ε α}
    (first : ⦃fun m => ⌜m = m₀⌝⦄ x ⦃post⟨fun r m => ⌜Q r m⌝, fun e m => ⌜E e m⌝⟩⦄)
    (handled : ∀ e m₁, E e m₁ →
      ⦃fun m => ⌜m = m₁⌝⦄ handler e ⦃post⟨fun r m => ⌜Q r m⌝, fun e m => ⌜E' e m⌝⟩⦄) :
    ⦃fun m => ⌜m = m₀⌝⦄ tryCatch x handler
    ⦃post⟨fun r m => ⌜Q r m⌝, fun e m => ⌜E' e m⌝⟩⦄ := by
  have handled := fun e => under (handled e)
  mvcgen [first, handled]
  case vc2.post.success => exact id

/-- A weaker postcondition. -/
theorem weaken
    (triple : ⦃fun m => ⌜m = m₀⌝⦄ x ⦃post⟨fun r m => ⌜Q r m⌝, fun e m => ⌜E e m⌝⟩⦄)
    (result : ∀ r m, Q r m → Q' r m) (fault : ∀ e m, E e m → E' e m) :
    ⦃fun m => ⌜m = m₀⌝⦄ x ⦃post⟨fun r m => ⌜Q' r m⌝, fun e m => ⌜E' e m⌝⟩⦄ := by
  mvcgen [triple]
  case vc2.post.success r m => exact result r m
  case vc3.post.except.handle e m => exact fault e m

/-- One program and then another, with what a fault of the first one means for both. -/
theorem chain {f : α → Allocating ε β}
    (first : ⦃fun m => ⌜m = m₀⌝⦄ x ⦃post⟨fun r m => ⌜Q r m⌝, fun e m => ⌜E e m⌝⟩⦄)
    (fault : ∀ e m, E e m → E' e m)
    (second : ∀ r m₁, Q r m₁ →
      ⦃fun m => ⌜m = m₁⌝⦄ f r ⦃post⟨fun r m => ⌜R r m⌝, fun e m => ⌜E' e m⌝⟩⦄) :
    ⦃fun m => ⌜m = m₀⌝⦄ (x >>= f) ⦃post⟨fun r m => ⌜R r m⌝, fun e m => ⌜E' e m⌝⟩⦄ :=
  seq (weaken first (fun _ _ holds => holds) fault) second

/-- A fold keeps an invariant over what it has consumed that each of its steps keeps. -/
theorem fold {f : β → α → Allocating ε β} {I : List α → β → Memory → Prop} {xs : List α}
    (step : ∀ before x after b m₁, xs = before ++ x :: after → I before b m₁ →
      ⦃fun m => ⌜m = m₁⌝⦄ f b x ⦃post⟨fun b m => ⌜I (before ++ [x]) b m⌝, fun e m => ⌜E e m⌝⟩⦄)
    {b : β} (start : I [] b m₀) :
    ⦃fun m => ⌜m = m₀⌝⦄ xs.foldlM f b ⦃post⟨fun b m => ⌜I xs b m⌝, fun e m => ⌜E e m⌝⟩⦄ := by
  suffices from_here : ∀ before after b m₁, xs = before ++ after → I before b m₁ →
      ⦃fun m => ⌜m = m₁⌝⦄ after.foldlM f b
      ⦃post⟨fun b m => ⌜I xs b m⌝, fun e m => ⌜E e m⌝⟩⦄ from from_here [] xs b m₀ rfl start
  intro before after
  induction after generalizing before with
  | nil =>
    intro b m₁ whole holds
    rw [List.foldlM_nil]
    rw [List.append_nil] at whole
    exact Triple.pure b fun m same => whole ▸ same ▸ holds
  | cons x after ih =>
    intro b m₁ whole holds
    rw [List.foldlM_cons]
    refine seq (step before x after b m₁ whole holds) fun b m₂ kept => ?_
    exact ih (before ++ [x]) b m₂ (by simp [whole]) kept

end Allocating
