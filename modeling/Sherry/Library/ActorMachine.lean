import Mathlib.Data.List.Basic
import Mathlib.Logic.Function.Basic
import Sherry.Library.Machine

/-!
# Actors with mailboxes

What a system of actors is for. An actor has an id from its birth to its end, under which the
others reach it, and a mailbox. A letter names the ids that its sender and its receiver had when
it was sent; it goes to the end of the receiver's mailbox, and the receiver takes letters from
the front. The machine refuses everything else: an id that two living actors share, a letter
from or to an actor that is not alive, a letter received out of order or twice.
-/

/-- A letter, with the ids of its sender and its receiver. -/
structure Letter (ι β : Type) where
  /-- The id of the sender. -/
  source : ι
  /-- The id of the receiver. -/
  target : ι
  /-- What it says. -/
  body : β
  deriving DecidableEq, Repr

/-- One entry of the history of a system of actors. -/
inductive ActorStep (α ι β : Type)
  /-- An actor is born and gets an id. -/
  | spawn (a : α) (id : ι)
  /-- An actor ends. -/
  | finish (a : α)
  /-- An actor sends a letter to another one, or to itself. -/
  | send (a b : α) (letter : Letter ι β)
  /-- An actor takes a letter out of its mailbox. -/
  | receive (a : α) (letter : Letter ι β)
  deriving DecidableEq, Repr

/-- The actors of a system. -/
structure Actors (α ι β : Type) where
  /-- The ids of the living actors. -/
  id : α → Option ι
  /-- Who was ever born. -/
  born : List α
  /-- The letters that wait for each actor. -/
  box : α → List (Letter ι β)

namespace Actors

variable {α ι β : Type} [DecidableEq α] {w v : Actors α ι β} {a b : α} {i : ι}
  {letter : Letter ι β} {e : ActorStep α ι β} {es : List (ActorStep α ι β)}

/-- A system with one living actor. -/
def alone (a : α) (i : ι) : Actors α ι β where
  id := Function.update (fun _ => none) a (some i)
  born := [a]
  box _ := []

variable [DecidableEq ι] [DecidableEq β]

/-- One entry of a history, if the actors allow it. -/
def step (w : Actors α ι β) : ActorStep α ι β → Except Unit (Actors α ι β)
  | .spawn a i =>
    if a ∉ w.born ∧ ∀ b ∈ w.born, w.id b ≠ some i then
      .ok { w with id := Function.update w.id a (some i), born := a :: w.born }
    else .error ()
  | .finish a =>
    if w.id a ≠ none then .ok { w with id := Function.update w.id a none } else .error ()
  | .send a b letter =>
    if w.id a = some letter.source ∧ w.id b = some letter.target then
      .ok { w with box := Function.update w.box b (w.box b ++ [letter]) }
    else .error ()
  | .receive a letter =>
    if w.id a ≠ none ∧ (w.box a).head? = some letter then
      .ok { w with box := Function.update w.box a (w.box a).tail }
    else .error ()

/-- What the actors allow, and what becomes of them. -/
theorem step_ok :
    step w e = .ok v ↔
      match e with
      | .spawn a i =>
        (a ∉ w.born ∧ ∀ b ∈ w.born, w.id b ≠ some i) ∧
          v = { w with id := Function.update w.id a (some i), born := a :: w.born }
      | .finish a => w.id a ≠ none ∧ v = { w with id := Function.update w.id a none }
      | .send a b letter =>
        (w.id a = some letter.source ∧ w.id b = some letter.target) ∧
          v = { w with box := Function.update w.box b (w.box b ++ [letter]) }
      | .receive a letter =>
        (w.id a ≠ none ∧ (w.box a).head? = some letter) ∧
          v = { w with box := Function.update w.box a (w.box a).tail } := by
  cases e <;> simp only [step, Machine.ite_ok, Except.ok.injEq] <;>
    exact and_congr_right fun _ => eq_comm

/-- Living actors were born and have ids of their own, and their letters are addressed to them. -/
structure Sound (w : Actors α ι β) : Prop where
  /-- Who lives was born. -/
  alive : ∀ a, w.id a ≠ none → a ∈ w.born
  /-- No two living actors have one id. -/
  single : ∀ a b i, w.id a = some i → w.id b = some i → a = b
  /-- Nothing waits for who was not born. -/
  fresh : ∀ a, a ∉ w.born → w.box a = []
  /-- What waits for a living actor is addressed to its id. -/
  addressed : ∀ a i, w.id a = some i → ∀ letter ∈ w.box a, letter.target = i

omit [DecidableEq ι] [DecidableEq β] in
/-- One actor is sound. -/
theorem sound_alone (a : α) (i : ι) : Sound (alone a i : Actors α ι β) := by
  have only : ∀ b j, (alone a i : Actors α ι β).id b = some j → b = a := by
    intro b j named
    by_contra other
    simp [alone, other] at named
  refine ⟨fun b named => ?_, fun b c j first second => ?_, fun _ _ => rfl, fun _ _ _ _ => nofun⟩
  · obtain ⟨j, named⟩ := Option.ne_none_iff_exists'.mp named
    exact List.mem_singleton.mpr (only b j named)
  · exact (only b j first).trans (only c j second).symm

omit [DecidableEq ι] [DecidableEq β] in
/-- A birth under a free id. -/
theorem Sound.spawn (sound : Sound w) (new : a ∉ w.born) (free : ∀ b ∈ w.born, w.id b ≠ some i) :
    Sound { w with id := Function.update w.id a (some i), born := a :: w.born } := by
  have named : ∀ b j, Function.update w.id a (some i) b = some j →
      b = a ∧ j = i ∨ b ≠ a ∧ w.id b = some j := by
    intro b j has
    by_cases here : b = a
    · subst here
      rw [Function.update_self] at has
      exact .inl ⟨rfl, (Option.some.inj has).symm⟩
    · rw [Function.update_of_ne here] at has
      exact .inr ⟨here, has⟩
  have unused : ∀ b, w.id b ≠ some i := fun b has =>
    free b (sound.alive b (by rw [has]; nofun)) has
  refine ⟨fun b alive => ?_, fun b c j first second => ?_, fun b out => ?_,
    fun b j has letter waits => ?_⟩
  · obtain ⟨j, has⟩ := Option.ne_none_iff_exists'.mp alive
    rcases named b j has with ⟨rfl, _⟩ | ⟨_, has⟩
    · exact List.mem_cons_self
    · exact List.mem_cons_of_mem a (sound.alive b (by rw [has]; nofun))
  · rcases named b j first with ⟨rfl, rfl⟩ | ⟨_, has⟩
    · rcases named c j second with ⟨rfl, _⟩ | ⟨_, has⟩
      · rfl
      · exact absurd has (unused c)
    · rcases named c j second with ⟨rfl, rfl⟩ | ⟨_, has'⟩
      · exact absurd has (unused b)
      · exact sound.single b c j has has'
  · exact sound.fresh b fun member => out (List.mem_cons_of_mem a member)
  · rcases named b j has with ⟨rfl, _⟩ | ⟨_, has⟩
    · rw [sound.fresh b new] at waits
      cases waits
    · exact sound.addressed b j has letter waits

omit [DecidableEq ι] [DecidableEq β] in
/-- An end. -/
theorem Sound.finish (sound : Sound w) (a : α) :
    Sound { w with id := Function.update w.id a none } := by
  have before : ∀ b j, Function.update w.id a none b = some j → w.id b = some j := by
    intro b j has
    by_cases here : b = a
    · rw [here, Function.update_self] at has
      cases has
    · rwa [Function.update_of_ne here] at has
  refine ⟨fun b alive => ?_, fun b c j first second => ?_, sound.fresh,
    fun b j has => sound.addressed b j (before b j has)⟩
  · obtain ⟨j, has⟩ := Option.ne_none_iff_exists'.mp alive
    exact sound.alive b (by rw [before b j has]; nofun)
  · exact sound.single b c j (before b j first) (before c j second)

omit [DecidableEq ι] [DecidableEq β] in
/-- A change of the mailbox of one actor. -/
theorem Sound.mail (sound : Sound w) {letters : List (Letter ι β)}
    (fresh : a ∉ w.born → letters = [])
    (addressed : ∀ j, w.id a = some j → ∀ letter ∈ letters, letter.target = j) :
    Sound { w with box := Function.update w.box a letters } := by
  refine ⟨sound.alive, sound.single, fun c out => ?_, fun c j has l waits => ?_⟩
  · by_cases here : c = a
    · subst here
      simp only [Function.update_self]
      exact fresh out
    · simp only [Function.update_of_ne here]
      exact sound.fresh c out
  · by_cases here : c = a
    · subst here
      simp only [Function.update_self] at waits
      exact addressed j has l waits
    · simp only [Function.update_of_ne here] at waits
      exact sound.addressed c j has l waits

/-- Every entry keeps the actors sound. -/
theorem sound_step (sound : Sound w) (taken : step w e = .ok v) : Sound v := by
  have done := step_ok.mp taken
  cases e with
  | spawn a i =>
    obtain ⟨⟨new, free⟩, rfl⟩ := done
    exact sound.spawn new free
  | finish a =>
    obtain ⟨_, rfl⟩ := done
    exact sound.finish a
  | send a b letter =>
    obtain ⟨⟨_, target⟩, rfl⟩ := done
    refine sound.mail (fun out => ?_) fun j has l waits => ?_
    · exact absurd (sound.alive b (by rw [target]; nofun)) out
    · rcases List.mem_append.mp waits with old | new
      · exact sound.addressed b j has l old
      · rw [List.mem_singleton.mp new]
        exact Option.some.inj (target.symm.trans has)
  | receive a letter =>
    obtain ⟨_, rfl⟩ := done
    refine sound.mail (fun out => ?_) fun j has l waits => ?_
    · rw [sound.fresh a out]
      rfl
    · exact sound.addressed a j has l (List.mem_of_mem_tail waits)

/-- The actors of every history are sound. -/
theorem sound_run (sound : Sound w) (ran : Machine.run step w es = .ok v) : Sound v :=
  Machine.run_keeps sound_step sound ran

/-- The letters sent to an actor. -/
def sentTo (a : α) : ActorStep α ι β → Option (Letter ι β)
  | .send _ b letter => if b = a then some letter else none
  | _ => none

/-- The letters an actor received. -/
def receivedBy (a : α) : ActorStep α ι β → Option (Letter ι β)
  | .receive b letter => if b = a then some letter else none
  | _ => none

/-- An actor does something, or a letter is sent to it. -/
def involves (a : α) : ActorStep α ι β → Prop
  | .spawn b _ => b = a
  | .finish b => b = a
  | .send b c _ => b = a ∨ c = a
  | .receive b _ => b = a

/-- What waits for an actor and is sent to it, it has received or waits for it, in order. -/
theorem letters_run (ran : Machine.run step w es = .ok v) (a : α) :
    w.box a ++ es.filterMap (sentTo a) = es.filterMap (receivedBy a) ++ v.box a := by
  induction es generalizing w with
  | nil =>
    cases ran
    simp
  | cons e es ih =>
    obtain ⟨m, taken, rest⟩ := Machine.run_cons.mp ran
    have later := ih rest
    have done := step_ok.mp taken
    cases e with
    | spawn b i =>
      obtain ⟨_, rfl⟩ := done
      simpa [List.filterMap_cons, sentTo, receivedBy] using later
    | finish b =>
      obtain ⟨_, rfl⟩ := done
      simpa [List.filterMap_cons, sentTo, receivedBy] using later
    | send b c letter =>
      obtain ⟨_, rfl⟩ := done
      by_cases here : c = a
      · subst here
        simpa [List.filterMap_cons, sentTo, receivedBy] using later
      · simpa [List.filterMap_cons, sentTo, receivedBy, here, Ne.symm here] using later
    | receive b letter =>
      obtain ⟨⟨_, first⟩, rfl⟩ := done
      by_cases here : b = a
      · subst here
        obtain ⟨rest, box⟩ := List.head?_eq_some_iff.mp first
        simpa [List.filterMap_cons, sentTo, receivedBy, box] using later
      · simpa [List.filterMap_cons, sentTo, receivedBy, here, Ne.symm here] using later

/-- Who has ended does nothing more, and nobody reaches it. -/
theorem ended_run (ended : w.id a = none) (born : a ∈ w.born)
    (ran : Machine.run step w es = .ok v) : ∀ e ∈ es, ¬involves a e := by
  induction es generalizing w with
  | nil => exact fun _ => nofun
  | cons e es ih =>
    obtain ⟨m, taken, rest⟩ := Machine.run_cons.mp ran
    have done := step_ok.mp taken
    have now : ¬involves a e ∧ m.id a = none ∧ a ∈ m.born := by
      cases e with
      | spawn b i =>
        obtain ⟨⟨new, _⟩, rfl⟩ := done
        have other : a ≠ b := fun same => new (same ▸ born)
        refine ⟨Ne.symm other, ?_, List.mem_cons_of_mem b born⟩
        simp only [Function.update_of_ne other]
        exact ended
      | finish b =>
        obtain ⟨alive, rfl⟩ := done
        have other : a ≠ b := fun same => alive (same ▸ ended)
        refine ⟨Ne.symm other, ?_, born⟩
        simp only [Function.update_of_ne other]
        exact ended
      | send b c letter =>
        obtain ⟨⟨source, target⟩, rfl⟩ := done
        refine ⟨?_, ended, born⟩
        rintro (rfl | rfl)
        · cases ended.symm.trans source
        · cases ended.symm.trans target
      | receive b letter =>
        obtain ⟨⟨alive, _⟩, rfl⟩ := done
        exact ⟨fun same => alive (same ▸ ended), ended, born⟩
    intro f member
    rcases List.mem_cons.mp member with rfl | later
    · exact now.1
    · exact ih now.2.1 now.2.2 rest f later

end Actors
