import Mathlib.Data.List.Infix

/-!
# Lists with separators

A list splits at the occurrences of a separator, found from the left and without overlaps, into
pieces. `Splits` says which pieces: no occurrence starts before the one that a piece ends at. A
list splits in one way, the pieces with the separator between them are the list again, and pieces
that no separator starts in are found again in the list that they make.
-/

variable {α : Type} {sep xs rest : List α} {ps qs : List (List α)}

/-- The separator starts at none of the first positions of a list. -/
def Free (sep xs : List α) (n : Nat) : Prop := ∀ k < n, ¬ sep <+: xs.drop k

instance [DecidableEq α] (n : Nat) : Decidable (Free sep xs n) :=
  inferInstanceAs (Decidable (∀ k < n, ¬ sep <+: xs.drop k))

/-- A list splits into pieces at a separator. -/
inductive Splits (sep : List α) : List α → List (List α) → Prop
  /-- The separator does not occur. -/
  | last {xs : List α} (free : Free sep xs xs.length) : Splits sep xs [xs]
  /-- The first occurrence ends the first piece. -/
  | cons {piece rest : List α} {ps : List (List α)}
    (free : Free sep (piece ++ (sep ++ rest)) piece.length) (later : Splits sep rest ps) :
    Splits sep (piece ++ (sep ++ rest)) (piece :: ps)

namespace Free

/-- No occurrence starts at a further position. -/
theorem succ {n : Nat} (free : Free sep xs n) (here : ¬ sep <+: xs.drop n) :
    Free sep xs (n + 1) := by
  intro k within
  obtain before | rfl := Nat.lt_succ_iff_lt_or_eq.mp within
  · exact free k before
  · exact here

/-- A list too short for a separator is free of it from there on. -/
theorem short {n : Nat} (free : Free sep xs n) (some_sep : sep ≠ [])
    (rest : xs.length < n + sep.length) (m : Nat) : Free sep xs m := by
  intro k _ occurs
  obtain before | behind := Nat.lt_or_ge k n
  · exact free k before occurs
  · have size := occurs.length_le
    have positive := List.length_pos_iff.mpr some_sep
    rw [List.length_drop] at size
    omega

end Free

namespace Splits

/-- The pieces with the separator between them are the list. -/
theorem join (splits : Splits sep xs ps) : sep.intercalate ps = xs := by
  induction splits with
  | last => simp
  | @cons piece rest ps _ later ih =>
    obtain ⟨q, qs, rfl⟩ : ∃ q qs, ps = q :: qs := by
      cases later <;> exact ⟨_, _, rfl⟩
    rw [List.intercalate_cons_cons, ih, List.append_assoc]

/-- A list splits in one way. -/
theorem unique (some_sep : sep ≠ []) (first : Splits sep xs ps) (second : Splits sep xs qs) :
    ps = qs := by
  have positive := List.length_pos_iff.mpr some_sep
  -- An occurrence in front of which the list is free, in two places.
  have same : ∀ {p q r t : List α}, p ++ (sep ++ r) = q ++ (sep ++ t) →
      Free sep (q ++ (sep ++ t)) q.length → ¬ p.length < q.length := by
    intro p q r t whole free before
    refine free p.length before ?_
    rw [← whole, List.drop_left]
    exact List.prefix_append sep r
  induction first generalizing qs with
  | @last xs free =>
    generalize whole : xs = ys at second
    cases second with
    | last => rfl
    | @cons piece rest ps _ later =>
      subst whole
      refine absurd ?_ (free piece.length (by simp; omega))
      rw [List.drop_left]
      exact List.prefix_append sep rest
  | @cons piece rest ps free later ih =>
    generalize whole : piece ++ (sep ++ rest) = ys at second
    cases second with
    | last none_left =>
      subst whole
      refine absurd ?_ (none_left piece.length (by simp; omega))
      rw [List.drop_left]
      exact List.prefix_append sep rest
    | @cons other rest' ps' free' later' =>
      have length : piece.length = other.length := by
        have le := same whole free'
        have ge := same whole.symm free
        omega
      obtain ⟨rfl, behind⟩ := List.append_inj whole length
      rw [List.append_cancel_left behind] at ih
      rw [ih later']

/-- Pieces in which no separator starts, not even one that goes on behind them, are found again. -/
theorem of_pieces {p : List α} (clean : ∀ q ∈ p :: ps, Free sep (q ++ sep) q.length) :
    Splits sep (sep.intercalate (p :: ps)) (p :: ps) := by
  have extended : ∀ {q : List α} (rest : List α), Free sep (q ++ sep) q.length →
      Free sep (q ++ (sep ++ rest)) q.length := by
    intro q rest free k within occurs
    refine free k within ?_
    rw [← List.append_assoc, List.drop_append_of_le_length (by simp; omega)] at occurs
    exact List.prefix_of_prefix_length_le occurs (List.prefix_append _ _) (by simp; omega)
  induction ps generalizing p with
  | nil =>
    have free := clean p List.mem_cons_self
    rw [List.intercalate_singleton]
    refine .last fun k within occurs => free k within ?_
    rw [List.drop_append_of_le_length within.le]
    exact occurs.trans (List.prefix_append _ _)
  | cons q ps ih =>
    rw [List.intercalate_cons_cons, List.append_assoc]
    exact .cons (extended _ (clean p List.mem_cons_self))
      (ih fun q member => clean q (List.mem_cons_of_mem p member))

end Splits
