import Mathlib.Data.List.Basic

/-!
# Round robin

A queue of programs, each a list of operations, is run by turns: the first program runs up to
and including its first operation that ends a turn, and what is left of it goes to the end of
the queue; a program that runs out leaves the queue. `roundRobin` lists the operations in the
order in which they run. The number of turns is known beforehand, so the order is defined by
recursion on it.
-/

namespace RoundRobin

variable {α : Type} {stops : α → Bool} {p : List α} {q : List (List α)}

/-- The operations of one turn, and the program left after it, if the turn ended before the
program did. -/
def firstTurn (stops : α → Bool) : List α → List α × Option (List α)
  | [] => ([], none)
  | op :: ops =>
    if stops op then ([op], some ops)
    else (op :: (firstTurn stops ops).1, (firstTurn stops ops).2)

/-- How many turns a queue takes. -/
def turns (stops : α → Bool) : List (List α) → Nat
  | [] => 0
  | p :: q => (p.countP stops + 1) + turns stops q

/-- The operations of a number of turns. -/
def order (stops : α → Bool) : Nat → List (List α) → List α
  | 0, _ => []
  | _ + 1, [] => []
  | n + 1, p :: q => (firstTurn stops p).1 ++ order stops n (q ++ (firstTurn stops p).2.toList)

/-- The operations of all programs, in the order in which they run. -/
def roundRobin (stops : α → Bool) (q : List (List α)) : List α := order stops (turns stops q) q

/-- The turns of two queues, one after the other. -/
theorem turns_append {q' : List (List α)} :
    turns stops (q ++ q') = turns stops q + turns stops q' := by
  induction q with
  | nil => simp [turns]
  | cons p q ih =>
    simp only [List.cons_append, turns, ih]
    omega

/-- A program that goes back to the queue has one turn less, and one that does not had one. -/
theorem firstTurn_turns :
    turns stops (firstTurn stops p).2.toList + 1 = p.countP stops + 1 := by
  induction p with
  | nil => simp [firstTurn, turns]
  | cons op ops ih =>
    by_cases stop : stops op = true
    · simp [firstTurn, turns, stop]
    · simp only [firstTurn, stop, Bool.false_eq_true, ↓reduceIte, List.countP_cons]
      exact ih

/-- Every turn takes one off the number of turns. -/
theorem turns_cons :
    turns stops (p :: q) = turns stops (q ++ (firstTurn stops p).2.toList) + 1 := by
  have first : turns stops (firstTurn stops p).2.toList + 1 = p.countP stops + 1 :=
    firstTurn_turns
  rw [turns_append, turns]
  omega

@[simp] theorem roundRobin_nil : roundRobin stops [] = [] := rfl

/-- The order begins with the first turn. -/
theorem roundRobin_cons :
    roundRobin stops (p :: q) =
      (firstTurn stops p).1 ++ roundRobin stops (q ++ (firstTurn stops p).2.toList) := by
  unfold roundRobin
  rw [turns_cons]
  rfl

end RoundRobin
