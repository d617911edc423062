import Mathlib.Data.List.Nodup
import Mathlib.Data.List.Perm.Subperm
import Mathlib.Logic.Function.Basic

/-!
# Families of sequences whose elements have at most one home

A family of sequences gives every index one finite sequence. A home function gives every
element at most one index. The family is `Homed` when each sequence lists, without repeats,
exactly the elements whose home is its index. Because the home is a function, no element is
in two sequences, so the rules for appending, removing and draining need one side condition
each: what the home of the moved element is before the operation.
-/

/-- One finite sequence for every index. -/
@[ext] structure Seqs (ι ν : Type) where
  /-- The sequence at an index. -/
  seq : ι → List ν

namespace Seqs

variable {ι ν : Type}

/-- Each sequence lists, without repeats, exactly the elements whose home is its index. -/
structure Homed (q : Seqs ι ν) (home : ν → Option ι) : Prop where
  /-- No sequence repeats an element. -/
  nodup : ∀ i, (q.seq i).Nodup
  /-- Membership is decided by the home alone. -/
  mem_iff : ∀ i x, x ∈ q.seq i ↔ home x = some i

namespace Homed

variable {q : Seqs ι ν} {home home' : ν → Option ι} {i j : ι} {x : ν}

/-- Pointwise equal homes are interchangeable. -/
theorem congr (homed : q.Homed home) (same : ∀ x, home' x = home x) : q.Homed home' := by
  rw [show home' = home from funext same]
  exact homed

/-- An element without a home is in no sequence. -/
theorem not_mem (homed : q.Homed home) (homeless : home x = none) (i : ι) : x ∉ q.seq i := by
  rw [homed.mem_iff, homeless]
  nofun

/-- A member of one sequence is in no other. -/
theorem not_mem_of_ne (homed : q.Homed home) (member : x ∈ q.seq i) (other : j ≠ i) :
    x ∉ q.seq j := by
  rw [homed.mem_iff] at member ⊢
  rw [member]
  simpa using other.symm

/-- An element occurs exactly once in the sequence of its home. -/
theorem count_eq_one [DecidableEq ν] (homed : q.Homed home) (at_home : home x = some i) :
    (q.seq i).count x = 1 :=
  List.count_eq_one_of_mem (homed.nodup i) ((homed.mem_iff i x).mpr at_home)

/-- The empty family is homed when nothing has a home. -/
theorem empty : (⟨fun _ => []⟩ : Seqs ι ν).Homed (fun _ => none) :=
  ⟨fun _ => List.nodup_nil, fun _ _ => by simp⟩

/-- A bound on the elements of a sequence bounds its length. -/
theorem length_le {r : Seqs ι Nat} {home : Nat → Option ι} (homed : r.Homed home) {bound : Nat}
    (below : ∀ x, x ∈ r.seq i → x < bound) : (r.seq i).length ≤ bound := by
  have contained : (r.seq i) ⊆ List.range bound := fun x member =>
    List.mem_range.mpr (below x member)
  have short := ((homed.nodup i).subperm contained).length_le
  simpa using short

end Homed

variable [DecidableEq ι]

/-- Replace the sequence at one index. -/
def set (q : Seqs ι ν) (i : ι) (items : List ν) : Seqs ι ν :=
  ⟨Function.update q.seq i items⟩

@[simp] theorem set_seq_self (q : Seqs ι ν) (i : ι) (items : List ν) :
    (q.set i items).seq i = items := by
  simp [set]

@[simp] theorem set_seq_of_ne (q : Seqs ι ν) {i j : ι} (items : List ν) (other : j ≠ i) :
    (q.set i items).seq j = q.seq j := by
  simp [set, other]

/-- The sequence at any index after one is replaced. -/
theorem set_seq (q : Seqs ι ν) (i j : ι) (items : List ν) :
    (q.set i items).seq j = if j = i then items else q.seq j := by
  by_cases same : j = i
  · subst same
    simp
  · simp [same]

/-- Replacing a sequence by itself changes nothing. -/
theorem set_eq_self {q : Seqs ι ν} {i : ι} {items : List ν} (same : q.seq i = items) :
    q.set i items = q := by
  subst same
  simp [set]

namespace Homed

variable [DecidableEq ν] {q : Seqs ι ν} {home : ν → Option ι} {i j : ι} {x : ν}
  {items : List ν}

/-- Appending a homeless element makes the sequence its home. -/
theorem append (homed : q.Homed home) (homeless : home x = none) :
    (q.set i (q.seq i ++ [x])).Homed (Function.update home x (some i)) := by
  constructor
  · intro k
    rw [set_seq]
    split
    · have fresh := homed.not_mem homeless i
      rw [List.nodup_append]
      exact ⟨homed.nodup i, List.nodup_singleton x, fun y member z last same => by
        rw [List.mem_singleton] at last
        exact fresh (last ▸ same ▸ member)⟩
    · exact homed.nodup k
  · intro k y
    rw [set_seq]
    by_cases moved : y = x
    · subst moved
      by_cases here : k = i
      · simp [here]
      · simp [here, homed.not_mem homeless k, Ne.symm here]
    · by_cases here : k = i
      · subst here
        simp [moved, homed.mem_iff]
      · simp [here, moved, homed.mem_iff]

/-- Removing an element from its sequence leaves it without a home. -/
theorem erase (homed : q.Homed home) (at_home : home x = some i) :
    (q.set i ((q.seq i).erase x)).Homed (Function.update home x none) := by
  constructor
  · intro k
    rw [set_seq]
    split
    · exact (homed.nodup i).erase x
    · exact homed.nodup k
  · intro k y
    rw [set_seq]
    by_cases moved : y = x
    · subst moved
      by_cases here : k = i
      · simp [here, (homed.nodup i).not_mem_erase]
      · have absent : y ∉ q.seq k :=
          homed.not_mem_of_ne ((homed.mem_iff i y).mpr at_home) here
        simp [here, absent]
    · by_cases here : k = i
      · subst here
        simp [List.mem_erase_of_ne moved, moved, homed.mem_iff]
      · simp [here, moved, homed.mem_iff]

/-- Popping the first element of a sequence leaves it without a home. -/
theorem pop (homed : q.Homed home) (first : q.seq i = x :: items) :
    (q.set i items).Homed (Function.update home x none) := by
  have at_home : home x = some i := (homed.mem_iff i x).mp (by simp [first])
  simpa [first] using homed.erase at_home

/-- Draining a sequence to the end of another moves the home of all its elements. -/
theorem drain (homed : q.Homed home) (apart : i ≠ j) :
    ((q.set i []).set j (q.seq j ++ q.seq i)).Homed
      (fun x => if x ∈ q.seq i then some j else home x) := by
  constructor
  · intro k
    simp only [set_seq]
    split
    · rw [List.nodup_append]
      exact ⟨homed.nodup j, homed.nodup i, fun y first z second same =>
        homed.not_mem_of_ne second apart.symm (same ▸ first)⟩
    · split
      · exact List.nodup_nil
      · exact homed.nodup k
  · intro k y
    simp only [set_seq]
    by_cases moved : y ∈ q.seq i
    · by_cases here : k = j
      · simp [here, moved]
      · by_cases there : k = i
        · subst there
          simp [here, moved, Ne.symm here]
        · simp [here, there, moved, Ne.symm here, homed.not_mem_of_ne moved there]
    · by_cases here : k = j
      · simp [here, moved, homed.mem_iff]
      · by_cases there : k = i
        · subst there
          simpa [here, moved] using (homed.mem_iff k y).not.mp moved
        · simp [here, there, moved, homed.mem_iff]

end Homed

end Seqs
