import Mathlib.Data.List.Nodup
import Mathlib.Logic.Function.Basic

/-!
# Resources held in one slot for each owner

Owners draw resources, each with one slot for the resource it holds, and give resources back. A
resource that an owner rejects goes back at once; one that it keeps takes the slot, and what was
in the slot goes back; and when an owner leaves, its slot goes back. A ledger is `Balanced` when
nothing was given back twice, an owner that has not left holds exactly what it drew and did not
give back, and one that has left gave back all.
-/

/-- Who drew what, what was given back, what is in the slots and who has left. -/
@[ext] structure Ledger (ι ν : Type) where
  /-- The resources that were drawn, each with its owner. -/
  drawn : List (ι × ν)
  /-- The resources that were given back. -/
  returned : List ν
  /-- The slots. -/
  slot : ι → Option ν
  /-- The owners that have left. -/
  left : List ι

namespace Ledger

variable {ι ν : Type} {l : Ledger ι ν} {i : ι} {x : ν}

/-- An owner draws a resource and gives it back at once. -/
def reject (l : Ledger ι ν) (i : ι) (x : ν) : Ledger ι ν :=
  { l with drawn := l.drawn ++ [(i, x)], returned := l.returned ++ [x] }

/-- An owner draws a resource and gives back the one in its slot. -/
def keep [DecidableEq ι] (l : Ledger ι ν) (i : ι) (x : ν) : Ledger ι ν :=
  { l with
    drawn := l.drawn ++ [(i, x)]
    returned := l.returned ++ (l.slot i).toList
    slot := Function.update l.slot i (some x) }

/-- An owner gives back the resource in its slot and leaves. -/
def leave (l : Ledger ι ν) (i : ι) : Ledger ι ν :=
  { l with returned := l.returned ++ (l.slot i).toList, left := l.left ++ [i] }

/-- Every resource is in one place: in the slot of its owner, or given back. -/
structure Balanced (l : Ledger ι ν) : Prop where
  /-- Nothing was drawn twice. -/
  once : (l.drawn.map Prod.snd).Nodup
  /-- Nothing was given back twice. -/
  single : l.returned.Nodup
  /-- What was given back was drawn. -/
  known : ∀ x ∈ l.returned, x ∈ l.drawn.map Prod.snd
  /-- An owner holds what it drew and did not give back. -/
  held : ∀ i x, i ∉ l.left → ((i, x) ∈ l.drawn ∧ x ∉ l.returned ↔ l.slot i = some x)
  /-- An owner that has left gave back what it drew. -/
  done : ∀ i x, i ∈ l.left → (i, x) ∈ l.drawn → x ∈ l.returned

/-- Before anything was drawn. -/
theorem Balanced.empty {slot : ι → Option ν} (blank : ∀ i, slot i = none) :
    Balanced ⟨[], [], slot, []⟩ where
  once := List.nodup_nil
  single := List.nodup_nil
  known _ member := absurd member List.not_mem_nil
  held i x _ := by simp [blank i]
  done _ _ member := absurd member List.not_mem_nil

namespace Balanced

/-- A resource has one owner. -/
theorem owner_unique (balanced : l.Balanced) {j : ι} (first : (i, x) ∈ l.drawn)
    (second : (j, x) ∈ l.drawn) : i = j := by
  have same := List.inj_on_of_nodup_map balanced.once first second rfl
  exact congrArg Prod.fst same

/-- What is in a slot was not given back. -/
theorem slot_out (balanced : l.Balanced) (here : i ∉ l.left) (full : l.slot i = some x) :
    (i, x) ∈ l.drawn ∧ x ∉ l.returned :=
  (balanced.held i x here).mpr full

/-- A resource that was never drawn is in no slot. -/
theorem not_slot (balanced : l.Balanced) (here : i ∉ l.left) (fresh : x ∉ l.drawn.map Prod.snd) :
    l.slot i ≠ some x := fun full =>
  fresh (List.mem_map_of_mem (balanced.slot_out here full).1)

/-- A further draw of a new resource. -/
theorem draw_once (balanced : l.Balanced) (fresh : x ∉ l.drawn.map Prod.snd) :
    ((l.drawn ++ [(i, x)]).map Prod.snd).Nodup := by
  simpa using balanced.once.concat fresh

/-- What is in a slot is given back for the first time. -/
theorem slot_single (balanced : l.Balanced) (here : i ∉ l.left) :
    (l.returned ++ (l.slot i).toList).Nodup := by
  cases full : l.slot i with
  | none => simpa using balanced.single
  | some y => simpa using balanced.single.concat (balanced.slot_out here full).2

/-- What is in a slot was drawn. -/
theorem slot_known (balanced : l.Balanced) (here : i ∉ l.left) :
    ∀ y ∈ l.returned ++ (l.slot i).toList, y ∈ l.drawn.map Prod.snd := by
  intro y gone
  cases List.mem_append.mp gone with
  | inl old => exact balanced.known y old
  | inr last =>
    have full : l.slot i = some y := Option.mem_toList.mp last
    exact List.mem_map_of_mem (balanced.slot_out here full).1

/-- Giving back what is in a slot takes nothing from another owner. -/
theorem slot_other (balanced : l.Balanced) {j : ι} (here : i ∉ l.left) (other : j ≠ i)
    (drawn : (j, x) ∈ l.drawn) : x ∈ l.returned ++ (l.slot i).toList ↔ x ∈ l.returned := by
  have apart : l.slot i ≠ some x := fun full =>
    other (balanced.owner_unique drawn (balanced.slot_out here full).1)
  simp [apart]

/-- With what is in its slot an owner gives back all that it drew. -/
theorem slot_rest (balanced : l.Balanced) (here : i ∉ l.left) (drawn : (i, x) ∈ l.drawn) :
    x ∈ l.returned ++ (l.slot i).toList := by
  by_cases out : x ∈ l.returned
  · exact List.mem_append_left _ out
  · have full := (balanced.held i x here).mp ⟨drawn, out⟩
    exact List.mem_append_right _ (Option.mem_toList.mpr full)

/-- Rejecting a new resource keeps a ledger balanced. -/
theorem reject (balanced : l.Balanced) (fresh : x ∉ l.drawn.map Prod.snd) :
    (l.reject i x).Balanced where
  once := balanced.draw_once fresh
  single := by
    have unreturned : x ∉ l.returned := fun gone => fresh (balanced.known x gone)
    simpa [Ledger.reject] using balanced.single.concat unreturned
  known := by
    intro y gone
    simp only [Ledger.reject, List.map_append, List.mem_append]
    cases List.mem_append.mp gone with
    | inl old => exact .inl (balanced.known y old)
    | inr new => exact .inr (by simpa using new)
  held := by
    intro j y here
    have before := balanced.held j y here
    by_cases new : y = x
    · subst new
      simp [Ledger.reject, balanced.not_slot here fresh]
    · simpa [Ledger.reject, new] using before
  done := by
    intro j y gone drawn
    simp only [Ledger.reject, List.mem_append, List.mem_singleton] at drawn ⊢
    rcases drawn with old | new
    · exact .inl (balanced.done j y gone old)
    · exact .inr (Prod.mk.inj new).2

/-- Keeping a new resource keeps a ledger balanced. -/
theorem keep [DecidableEq ι] (balanced : l.Balanced) (fresh : x ∉ l.drawn.map Prod.snd)
    (here : i ∉ l.left) : (l.keep i x).Balanced where
  once := balanced.draw_once fresh
  single := balanced.slot_single here
  known := by
    intro y gone
    simp only [Ledger.keep, List.map_append, List.mem_append]
    exact .inl (balanced.slot_known here y gone)
  held := by
    intro j y still
    have before := balanced.held j y still
    show (j, y) ∈ l.drawn ++ [(i, x)] ∧ y ∉ l.returned ++ (l.slot i).toList ↔
      Function.update l.slot i (some x) j = some y
    by_cases own : j = i
    · subst own
      have unreturned : x ∉ l.returned ++ (l.slot j).toList := fun gone =>
        fresh (balanced.slot_known here x gone)
      rw [Function.update_self, Option.some.injEq]
      constructor
      · rintro ⟨drawn, out⟩
        cases List.mem_append.mp drawn with
        | inl old => exact absurd (balanced.slot_rest here old) out
        | inr new => exact (Prod.mk.inj (List.mem_singleton.mp new)).2.symm
      · rintro rfl
        exact ⟨by simp, unreturned⟩
    · have drawn : (j, y) ∈ l.drawn ++ [(i, x)] ↔ (j, y) ∈ l.drawn := by simp [own]
      rw [Function.update_of_ne own, drawn, ← before]
      exact and_congr_right fun old => not_congr (balanced.slot_other here own old)
  done := by
    intro j y gone drawn
    simp only [Ledger.keep, List.mem_append, List.mem_singleton] at drawn ⊢
    rcases drawn with old | new
    · exact .inl (balanced.done j y gone old)
    · rw [(Prod.mk.inj new).1] at gone
      exact absurd gone here

/-- A ledger stays balanced when an owner leaves. -/
theorem leave (balanced : l.Balanced) (here : i ∉ l.left) : (l.leave i).Balanced where
  once := balanced.once
  single := balanced.slot_single here
  known := balanced.slot_known here
  held := by
    intro j y still
    simp only [Ledger.leave, List.mem_append, List.mem_singleton, not_or] at still
    show (j, y) ∈ l.drawn ∧ y ∉ l.returned ++ (l.slot i).toList ↔ l.slot j = some y
    rw [← balanced.held j y still.1]
    exact and_congr_right fun old => not_congr (balanced.slot_other here still.2 old)
  done := by
    intro j y gone drawn
    by_cases own : j = i
    · subst own
      exact balanced.slot_rest here drawn
    · have left : j ∈ l.left := by simpa [Ledger.leave, own] using gone
      exact List.mem_append_left _ (balanced.done j y left drawn)

end Balanced

end Ledger
