import Sherry.Verif.Changes

/-!
# The registry over whole runs

`sherry_spawn` and the return of an actor are the only changes of the table before
`sherry_exit` returns. A spawn takes the first free slot and leaves every other slot and id
alone, also when the table has to be doubled for it, which happens only when no slot is free.
So the counter that `sherry_exit` tests counts the registered actors in every state of a run.
-/

namespace Sherry

variable {φ : Type} {s t : State Seqs φ} {a : ActorRef} {e : Event φ} {fn : φ}

/-- `reg_actor` gave an actor the first free id of a table and changed no other slot. -/
structure Enters (s t : State Seqs φ) (a : ActorRef) (id : Nat) : Prop where
  /-- The actor has the id and its slot. -/
  own : (t.actor a).aid = id ∧ t.slot id = some a
  /-- The slot was free. -/
  free : s.slot id = none
  /-- No slot before it was free. -/
  first : ∀ j, j < id → s.slot j ≠ none
  /-- Every other slot is unchanged. -/
  slots : ∀ j, j ≠ id → t.slot j = s.slot j
  /-- Registered actors keep their ids. -/
  ids : ∀ b, Registered s b → (t.actor b).aid = (s.actor b).aid
  /-- The table keeps its size or is doubled, the latter only if it was full. -/
  size : t.sizeactors = s.sizeactors ∨
    t.sizeactors = s.sizeactors * 2 ∧ ∀ j, j < s.sizeactors → s.slot j ≠ none

/-- A registered actor is in the slot of its id. -/
theorem Registry.slot_aid (registry : Registry s) (registered : Registered s a) :
    0 ≤ (s.actor a).aid ∧ (s.actor a).aid < s.sizeactors ∧
      s.slot (s.actor a).aid.toNat = some a := by
  obtain ⟨i, found, id, inside⟩ := registry.at_id registered
  rw [id]
  refine ⟨Int.natCast_nonneg i, Int.ofNat_lt.mpr inside, ?_⟩
  rw [Int.toNat_natCast]
  exact Registry.slot_iff.mpr found

/-- A slot is the same in the table in which `reg_actor` finds its slot. -/
theorem Registry.regTable_slot (registry : Registry s) (j : Nat) :
    (regTable s)[j]?.join = s.slot j := by
  have same : ∀ b, (regTable s)[j]?.join = some b ↔ s.slot j = some b := by
    intro b
    rw [Registry.slot_iff, ← registry.regTable_some, Option.join_eq_some_iff]
  cases held : s.slot j with
  | some b => exact (same b).mpr held
  | none =>
    apply Option.eq_none_iff_forall_ne_some.mpr
    intro b there
    rw [(same b).mp there] at held
    cases held

/-- Every slot before the one that `reg_actor` takes is in use. -/
theorem Registry.slot_first (registry : Registry s) {j : Nat} (before : j < regId s) :
    s.slot j ≠ none := by
  have inside : j < (regTable s).length :=
    Nat.lt_trans before (List.getElem?_eq_some_iff.mp registry.regTable_free).1
  have taken := registry.regTable_first before
  rw [← registry.regTable_slot]
  rw [List.getElem?_eq_getElem inside] at taken ⊢
  intro none
  exact taken (congrArg some none)

/-- `reg_actor` doubles the table only when no slot is free. -/
theorem Registry.slot_full (registry : Registry s) (full : freeSlot s = none) {j : Nat}
    (inside : j < s.sizeactors) : s.slot j ≠ none := by
  have last : regId s = s.sizeactors := by simp [regId, full]
  exact registry.slot_first (last ▸ inside)

/-- A spawn registers its actor in the first free slot. -/
theorem spawn_enters (inv : Inv s) (happened : step s (.spawn fn) = .ok t) :
    Enters s t s.nactors (regId s) := by
  obtain ⟨_, _, done⟩ := call_ok.mp happened
  have same : sherrySpawn s fn = t := Except.ok.inj done
  rw [sherrySpawn_eq] at same
  have registry := inv.registry
  have free := registry.regTable_free
  have inside : regId s < (regTable s).length := (List.getElem?_eq_some_iff.mp free).1
  subst same
  constructor
  · simp [State.slot, inside]
  · rw [← registry.regTable_slot, free]
    rfl
  · intro j before
    exact registry.slot_first before
  · intro j other
    rw [← registry.regTable_slot]
    simp only [State.slot, List.getElem?_set_ne (Ne.symm other)]
  · intro b registered
    simp [Nat.ne_of_lt (registry.allocated registered)]
  · cases found : freeSlot s with
    | some id => exact .inl rfl
    | none => exact .inr ⟨rfl, fun j => registry.slot_full found⟩

/-- `sherry_exit` returns only when main is the only registered actor. -/
theorem exits_alone (inv : Inv s) (happened : step s e = .ok t) (exits : t.exited = true)
    (registered : Registered s a) : a = s.main := by
  by_contra other
  have shared : s.curractors > 1 := inv.registry.shared_iff.mpr ⟨a, registered, other⟩
  have goes_on := (step_outcome inv happened).exited_kept shared (step_live happened)
  cases goes_on.symm.trans exits

/-- In every state of a run before `sherry_exit` unregisters main, the counter counts the slots
in use, every registered actor is in the slot of its id and in no other, main is in the slot of
`SHERRY_MAIN_ID`, a spawn takes the first free slot and touches no other, and `sherry_exit`
returns only when main is alone. -/
theorem run_registry {es : List (Event φ)}
    (ran : Machine.run step (sherryInit : State Seqs φ) es = .ok s) (live : s.exited = false) :
    (s.curractors = s.actors.countP Option.isSome ∧ s.actors.length = s.sizeactors) ∧
      (∀ a, Registered s a → 0 ≤ (s.actor a).aid ∧ (s.actor a).aid < s.sizeactors ∧
        s.slot (s.actor a).aid.toNat = some a) ∧
      (∀ a b, Registered s a → Registered s b → (s.actor a).aid = (s.actor b).aid → a = b) ∧
      s.slot mainId.toNat = some s.main ∧
      (∀ fn t, step s (.spawn fn) = .ok t → ∃ id, Enters s t s.nactors id) ∧
      ∀ e t, step s e = .ok t → t.exited = true → ∀ a, Registered s a → a = s.main := by
  have inv := inv_run ran live
  have registry := inv.registry
  refine ⟨⟨registry.count, registry.size⟩, fun a => registry.slot_aid,
    fun a b => registry.aid_injective, Registry.slot_iff.mpr registry.main, ?_, ?_⟩
  · intro fn t happened
    exact ⟨regId s, spawn_enters inv happened⟩
  · intro e t happened exits a
    exact exits_alone inv happened exits

/-- Actor 1 has returned, actor 2 is registered, and main executes. -/
def holeRun : List (Event Unit) :=
  [.spawn (), .spawn (), .yield, .schdule, .resume 0, .ret, .schdule, .resume 0, .yield, .schdule]

/-- A third spawn fills the slot that actor 1 left. -/
theorem run_registry_hole :
    ∃ s, Machine.run step (sherryInit : State Seqs Unit) holeRun = .ok s ∧
      ∃ t id, step s (.spawn ()) = .ok t ∧ Enters s t 3 id := by
  obtain ⟨s, ran, live, third, t, happened, _⟩ :
      ∃ s, Machine.run step (sherryInit : State Seqs Unit) holeRun = .ok s ∧
        s.exited = false ∧ s.nactors = 3 ∧ ∃ t, step s (.spawn ()) = .ok t ∧ True := by
    decide +kernel
  obtain ⟨id, enters⟩ := (run_registry ran live).2.2.2.2.1 () t happened
  exact ⟨s, ran, t, id, happened, third ▸ enters⟩

end Sherry
