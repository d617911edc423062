import Sherry.Verif.Moves
import Mathlib.Data.List.Count

/-!
# The actor registry

`Registry` ties the table, the ids stored in the actors and the counter together. It is kept
by `reg_actor` of an actor just made and by `unreg_actor` of a registered actor other than
main, and by everything that touches neither the table nor an id.
-/

namespace Sherry

variable {Q : Type → Type → Type} {φ : Type} {s t : State Q φ}

/-- An actor is registered when some slot of the table holds it. -/
def Registered (s : State Q φ) (a : ActorRef) : Prop := some a ∈ s.actors

instance (s : State Q φ) (a : ActorRef) : Decidable (Registered s a) :=
  inferInstanceAs (Decidable (some a ∈ s.actors))

/-- The table, the stored ids and the counter agree, and main holds slot zero. -/
structure Registry (s : State Q φ) : Prop where
  /-- The table has the recorded size. -/
  size : s.actors.length = s.sizeactors
  /-- The table is not empty. -/
  positive : 0 < s.sizeactors
  /-- A slot holds an allocated actor that stores the slot's index as its id. -/
  slots : ∀ (i : Nat) (a : ActorRef), s.actors[i]? = some (some a) →
    a < s.nactors ∧ (s.actor a).aid = i
  /-- The counter counts the slots in use. -/
  count : s.curractors = s.actors.countP Option.isSome
  /-- Main is registered under `SHERRY_MAIN_ID`. -/
  main : s.actors[0]? = some (some s.main)
  /-- Memory that was not allocated yet holds no actor. -/
  fresh : ∀ a, s.nactors ≤ a → s.actor a = {}

namespace Registry

/-- The recorded size covers the table. -/
theorem whole (registry : Registry s) : s.actors.take s.sizeactors = s.actors :=
  List.take_of_length_le (Nat.le_of_eq registry.size)

/-- A slot inside the table and `State.slot` agree. -/
theorem slot_iff {i : Nat} {a : ActorRef} : s.slot i = some a ↔ s.actors[i]? = some (some a) := by
  simp [State.slot, Option.join_eq_some_iff]

/-- A registered actor is in the slot of its id. -/
theorem at_id (registry : Registry s) {a : ActorRef} (registered : Registered s a) :
    ∃ i : Nat, s.actors[i]? = some (some a) ∧ (s.actor a).aid = i ∧ i < s.sizeactors := by
  obtain ⟨i, found⟩ := List.mem_iff_getElem?.mp registered
  refine ⟨i, found, (registry.slots i a found).2, ?_⟩
  rw [← registry.size]
  exact (List.getElem?_eq_some_iff.mp found).1

/-- A registered actor was allocated. -/
theorem allocated (registry : Registry s) {a : ActorRef} (registered : Registered s a) :
    a < s.nactors := by
  obtain ⟨i, found, _⟩ := registry.at_id registered
  exact (registry.slots i a found).1

/-- An actor occupies at most one slot. -/
theorem slot_unique (registry : Registry s) {i j : Nat} {a : ActorRef}
    (first : s.actors[i]? = some (some a)) (second : s.actors[j]? = some (some a)) : i = j := by
  have left := (registry.slots i a first).2
  have right := (registry.slots j a second).2
  omega

/-- Two registered actors with one id are the same actor. -/
theorem aid_injective (registry : Registry s) {a b : ActorRef} (first : Registered s a)
    (second : Registered s b) (same : (s.actor a).aid = (s.actor b).aid) : a = b := by
  obtain ⟨i, atFirst, firstId, _⟩ := registry.at_id first
  obtain ⟨j, atSecond, secondId, _⟩ := registry.at_id second
  have index : i = j := by omega
  subst index
  rw [atFirst] at atSecond
  exact Option.some.inj (Option.some.inj atSecond)

/-- Main is registered. -/
theorem main_registered (registry : Registry s) : Registered s s.main :=
  List.mem_of_getElem? registry.main

/-- The counter is above one exactly while an actor other than main is registered. -/
theorem shared_iff (registry : Registry s) :
    s.curractors > 1 ↔ ∃ a, Registered s a ∧ a ≠ s.main := by
  obtain ⟨rest, table⟩ : ∃ rest, s.actors = some s.main :: rest := by
    have first := registry.main
    cases actors : s.actors with
    | nil =>
      rw [actors] at first
      cases first
    | cons slot rest =>
      rw [actors, List.getElem?_cons_zero] at first
      exact ⟨rest, by rw [Option.some.inj first]⟩
  have counted : s.curractors = (rest.countP Option.isSome : Nat) + 1 := by
    rw [registry.count, table]
    simp
  have once : some s.main ∉ rest := by
    intro member
    obtain ⟨i, found⟩ := List.mem_iff_getElem?.mp member
    have later : s.actors[i + 1]? = some (some s.main) := by rw [table]; simpa using found
    have clash := registry.slot_unique registry.main later
    omega
  constructor
  · intro more
    have positive : 0 < rest.countP Option.isSome := by omega
    obtain ⟨slot, member, held⟩ := List.countP_pos_iff.mp positive
    obtain ⟨a, rfl⟩ := Option.isSome_iff_exists.mp held
    refine ⟨a, ?_, fun same => once (same ▸ member)⟩
    unfold Registered
    rw [table]
    exact List.mem_cons_of_mem _ member
  · rintro ⟨a, registered, other⟩
    unfold Registered at registered
    rw [table] at registered
    have member : some a ∈ rest := by
      rcases List.mem_cons.mp registered with same | member
      · exact absurd (Option.some.inj same) other
      · exact member
    have positive : 0 < rest.countP Option.isSome := List.countP_pos_iff.mpr ⟨_, member, rfl⟩
    omega

/-- A registry depends only on the table, the ids and what is allocated. -/
theorem congr (registry : Registry s) (actors : t.actors = s.actors)
    (sizeactors : t.sizeactors = s.sizeactors) (curractors : t.curractors = s.curractors)
    (main : t.main = s.main) (nactors : t.nactors = s.nactors)
    (aid : ∀ a, (t.actor a).aid = (s.actor a).aid)
    (fresh : ∀ a, s.nactors ≤ a → t.actor a = s.actor a) : Registry t := by
  constructor
  · rw [actors, sizeactors, registry.size]
  · rw [sizeactors]
    exact registry.positive
  · intro i a found
    rw [actors] at found
    rw [nactors, aid]
    exact registry.slots i a found
  · rw [curractors, actors, registry.count]
  · rw [actors, main, registry.main]
  · intro a unallocated
    rw [nactors] at unallocated
    rw [fresh a unallocated, registry.fresh a unallocated]

end Registry

/-- The table in which `reg_actor` finds its slot: the old one, or the doubled one. -/
def regTable (s : State Q φ) : List (Option ActorRef) :=
  match freeSlot s with
  | some _ => s.actors
  | none => (growActors s).actors

/-- The id that `reg_actor` gives. -/
def regId (s : State Q φ) : Nat := (freeSlot s).getD s.sizeactors

/-- `reg_actor` writes one slot, one id and the counter. -/
theorem regActor_eq (s : State Q φ) (a : ActorRef) :
    regActor s a =
      { s with
        actors := (regTable s).set (regId s) (some a)
        sizeactors := if (freeSlot s).isSome then s.sizeactors else s.sizeactors * 2
        curractors := s.curractors + 1
        actor := Function.update s.actor a { s.actor a with aid := regId s } } := by
  unfold regActor regTable regId
  cases freeSlot s <;> simp [growActors, State.setActor]

namespace Registry

/-- The chosen slot is inside the table and free. -/
theorem regTable_free (registry : Registry s) : (regTable s)[regId s]? = some none := by
  unfold regTable regId
  have whole := registry.whole
  cases found : freeSlot s with
  | some id =>
    simp only [freeSlot, whole] at found
    obtain ⟨inside, free, _⟩ := List.findIdx?_eq_some_iff_getElem.mp found
    rw [Option.getD_some, List.getElem?_eq_getElem inside]
    simpa using free
  | none =>
    have positive := registry.positive
    simp only [growActors, whole, Option.getD_none]
    rw [List.getElem?_append_right (Nat.le_of_eq registry.size), registry.size, Nat.sub_self,
      List.getElem?_replicate]
    simp only [Option.ite_none_right_eq_some, and_true]
    omega

/-- No slot before the chosen one is free. -/
theorem regTable_first (registry : Registry s) {j : Nat} (before : j < regId s) :
    (regTable s)[j]? ≠ some none := by
  unfold regTable
  have whole := registry.whole
  unfold regId at before
  cases found : freeSlot s with
  | some id =>
    rw [found] at before
    simp only [freeSlot, whole] at found
    obtain ⟨inside, _, earlier⟩ := List.findIdx?_eq_some_iff_getElem.mp found
    intro free
    obtain ⟨bound, same⟩ := List.getElem?_eq_some_iff.mp free
    exact earlier j before (by simp [same])
  | none =>
    rw [found, Option.getD_none] at before
    simp only [freeSlot, whole, List.findIdx?_eq_none_iff] at found
    simp only [growActors, whole]
    rw [List.getElem?_append_left (by rw [registry.size]; exact before)]
    intro free
    exact absurd (found none (List.mem_of_getElem? free)) (by simp)

/-- The actors in the table are those of the old table, in the same slots. -/
theorem regTable_some (registry : Registry s) {i : Nat} {a : ActorRef} :
    (regTable s)[i]? = some (some a) ↔ s.actors[i]? = some (some a) := by
  unfold regTable
  cases freeSlot s with
  | some id => rfl
  | none =>
    have whole := registry.whole
    simp only [growActors, whole]
    rcases Nat.lt_or_ge i s.actors.length with inside | outside
    · rw [List.getElem?_append_left inside]
    · rw [List.getElem?_append_right outside, List.getElem?_replicate,
        List.getElem?_eq_none outside]
      simp

/-- Growth adds no actor. -/
theorem regTable_count (registry : Registry s) :
    (regTable s).countP Option.isSome = s.actors.countP Option.isSome := by
  unfold regTable
  cases freeSlot s with
  | some id => rfl
  | none =>
    have whole := registry.whole
    simp [growActors, whole, List.countP_append, List.countP_replicate]

/-- The table has the size that `reg_actor` records. -/
theorem regTable_length (registry : Registry s) :
    (regTable s).length =
      if (freeSlot s).isSome then s.sizeactors else s.sizeactors * 2 := by
  unfold regTable
  cases freeSlot s with
  | some id => simpa using registry.size
  | none =>
    have size := registry.size
    simp only [growActors, List.length_append, List.length_take, List.length_replicate,
      Option.isSome_none, Bool.false_eq_true, ↓reduceIte]
    omega

/-- Making an actor keeps the registry. -/
theorem newActor [ListStore Q] (registry : Registry s) (fn : Option φ) :
    Registry (newActor s fn).1 := by
  have kept : ∀ a, a ≠ s.nactors → ((Sherry.newActor s fn).1.actor a) = s.actor a := by
    intro a other
    simp [Sherry.newActor, other]
  constructor
  · exact registry.size
  · exact registry.positive
  · intro i a found
    have old := registry.slots i a found
    rw [kept a (Nat.ne_of_lt old.1)]
    exact ⟨Nat.lt_succ_of_lt old.1, old.2⟩
  · exact registry.count
  · exact registry.main
  · intro a unallocated
    have above : s.nactors + 1 ≤ a := unallocated
    rw [kept a (by omega)]
    exact registry.fresh a (by omega)

/-- An actor in the first free slot is registered, and no other in addition. -/
theorem registered_entered (registry : Registry s) {a b : ActorRef}
    (entered : t.actors = (regTable s).set (regId s) (some a)) :
    Registered t b ↔ b = a ∨ Registered s b := by
  have free := registry.regTable_free
  have inside : regId s < (regTable s).length := (List.getElem?_eq_some_iff.mp free).1
  simp only [Registered, entered, List.mem_iff_getElem?, List.getElem?_set]
  constructor
  · rintro ⟨i, found⟩
    by_cases here : regId s = i
    · simp only [here, ↓reduceIte] at found
      left
      by_cases bound : i < (regTable s).length
      · simpa [bound, eq_comm] using found
      · simp [bound] at found
    · simp only [here, ↓reduceIte] at found
      exact .inr ⟨i, registry.regTable_some.mp found⟩
  · rintro (rfl | ⟨i, found⟩)
    · exact ⟨regId s, by simp [inside]⟩
    · have here : regId s ≠ i := by
        rintro rfl
        rw [registry.regTable_some.mpr found] at free
        simp at free
      exact ⟨i, by simpa [here] using registry.regTable_some.mpr found⟩

/-- `reg_actor` of an allocated actor that is not registered keeps the registry. -/
theorem regActor (registry : Registry s) {a : ActorRef} (allocated : a < s.nactors)
    (outside : ¬Registered s a) : Registry (regActor s a) := by
  have free := registry.regTable_free
  have inside : regId s < (regTable s).length := (List.getElem?_eq_some_iff.mp free).1
  have others : ∀ (i : Nat) (b : ActorRef), regId s ≠ i →
      (((regTable s).set (regId s) (some a))[i]? = some (some b) ↔
        s.actors[i]? = some (some b)) := by
    intro i b here
    rw [List.getElem?_set, if_neg here, registry.regTable_some]
  rw [regActor_eq]
  constructor
  · simpa using registry.regTable_length
  · have positive := registry.positive
    simp only
    split <;> omega
  · intro i b found
    by_cases here : regId s = i
    · subst here
      simp only [List.getElem?_set_self inside, Option.some.injEq] at found
      subst found
      simp [allocated]
    · have old := (others i b here).mp found
      have other : b ≠ a := fun same => outside (same ▸ List.mem_of_getElem? old)
      simpa [other] using registry.slots i b old
  · obtain ⟨_, before⟩ := List.getElem?_eq_some_iff.mp free
    simp only [registry.count, ← registry.regTable_count]
    rw [List.countP_set inside]
    simp [before]
  · have apart : regId s ≠ 0 := by
      intro zero
      rw [zero, registry.regTable_some.mpr registry.main] at free
      simp at free
    exact (others 0 s.main apart).mpr registry.main
  · intro b unallocated
    have above : s.nactors ≤ b := unallocated
    have other : b ≠ a := Nat.ne_of_gt (Nat.lt_of_lt_of_le allocated above)
    simpa [other] using registry.fresh b unallocated

/-- `unreg_actor` of a registered actor's id clears that actor's slot. -/
theorem unregActor_eq (registry : Registry s) {a : ActorRef} {i : Nat}
    (found : s.actors[i]? = some (some a)) :
    unregActor s (s.actor a).aid =
      { s with actors := s.actors.set i none, curractors := s.curractors - 1 } := by
  have id : (s.actor a).aid = i := (registry.slots i a found).2
  have inside : i < s.sizeactors := by
    rw [← registry.size]
    exact (List.getElem?_eq_some_iff.mp found).1
  have held : s.slot i = some a := slot_iff.mpr found
  unfold unregActor
  rw [id]
  simp [held]
  omega

/-- An actor whose slot is cleared is registered no more, and every other still is. -/
theorem registered_left (registry : Registry s) {a b : ActorRef} {i : Nat}
    (found : s.actors[i]? = some (some a)) (left : t.actors = s.actors.set i none) :
    Registered t b ↔ Registered s b ∧ b ≠ a := by
  have inside : i < s.actors.length := (List.getElem?_eq_some_iff.mp found).1
  simp only [Registered, left, List.mem_iff_getElem?, List.getElem?_set]
  constructor
  · rintro ⟨j, kept⟩
    by_cases here : i = j
    · simp [here] at kept
    · simp only [here, ↓reduceIte] at kept
      exact ⟨⟨j, kept⟩, fun same => here (registry.slot_unique found (same ▸ kept))⟩
  · rintro ⟨⟨j, held⟩, other⟩
    have here : i ≠ j := by
      rintro rfl
      rw [found] at held
      exact other (Option.some.inj (Option.some.inj held)).symm
    exact ⟨j, by simpa [here] using held⟩

/-- `unreg_actor` of an actor other than main keeps the registry. -/
theorem unregActor (registry : Registry s) {a : ActorRef} (registered : Registered s a)
    (other : a ≠ s.main) : Registry (unregActor s (s.actor a).aid) := by
  obtain ⟨i, found, _⟩ := registry.at_id registered
  obtain ⟨inside, held⟩ := List.getElem?_eq_some_iff.mp found
  rw [registry.unregActor_eq found]
  constructor
  · simpa using registry.size
  · exact registry.positive
  · intro j b kept
    simp only [List.getElem?_set] at kept
    by_cases here : i = j
    · simp [here] at kept
    · simp only [here, ↓reduceIte] at kept
      exact registry.slots j b kept
  · have positive : 0 < s.actors.countP Option.isSome :=
      List.countP_pos_iff.mpr ⟨some a, registered, rfl⟩
    simp only [registry.count]
    rw [List.countP_set inside]
    simp [held]
    omega
  · have apart : i ≠ 0 := by
      rintro rfl
      rw [registry.main] at found
      exact other (Option.some.inj (Option.some.inj found)).symm
    simpa [List.getElem?_set, apart] using registry.main
  · exact registry.fresh

end Registry

end Sherry
