import Mathlib.Data.List.Induction
import Sherry.Library.Sequences

/-!
# Doubly linked lists on a shared heap

A heap of intrusive lists gives every node a link to the node before it and one to the node after
it, and every list a first and a last node. A `Segment` is a stretch of nodes whose links agree
with a sequence, between what lies before it and what lies after it; a list is a segment with
nothing on either side. A heap `Holds` a family of sequences when every list is the segment of
its sequence and no node is in two lists. The rules below cut segments, join them and let a link
at either end go somewhere else; with them an operation on a list needs to say only which links
it writes.
-/

variable {ι ν : Type}

/-- The links agree with a sequence of nodes between two neighbours. -/
def Segment (prev next : ν → Option ν) : Option ν → List ν → Option ν → Prop
  | _, [], _ => True
  | before, x :: rest, after =>
    (prev x = before ∧ next x = rest.head?.or after) ∧ Segment prev next (some x) rest after

/-- The nodes that are met from one on, by at most so many links. -/
def walk (link : ν → Option ν) : Nat → Option ν → List ν
  | fuel + 1, some x => x :: walk link fuel (link x)
  | _, _ => []

namespace Segment

variable {prev next prev' next' : ν → Option ν} {before after other : Option ν} {xs ys : List ν}

/-- A segment is two segments that meet. -/
theorem append_iff :
    Segment prev next before (xs ++ ys) after ↔
      Segment prev next before xs (ys.head?.or after) ∧
        Segment prev next (xs.getLast?.or before) ys after := by
  induction xs generalizing before with
  | nil => simp [Segment]
  | cons x rest ih =>
    have first : (rest ++ ys).head?.or after = rest.head?.or (ys.head?.or after) := by
      cases rest <;> simp
    have last : rest.getLast?.or (some x) = (x :: rest).getLast?.or before := by
      cases rest with
      | nil => rfl
      | cons y rest => simp [List.getLast?_cons]
    rw [List.cons_append, Segment, Segment, ih, first, last]
    exact and_assoc.symm

/-- Only the links of the nodes matter. -/
theorem congr (segment : Segment prev next before xs after) (prevs : ∀ x ∈ xs, prev' x = prev x)
    (nexts : ∀ x ∈ xs, next' x = next x) : Segment prev' next' before xs after := by
  induction xs generalizing before with
  | nil => trivial
  | cons x rest ih =>
    obtain ⟨⟨back, forth⟩, tail⟩ := segment
    refine ⟨⟨?_, ?_⟩, ih tail ?_ ?_⟩
    · rw [prevs x List.mem_cons_self, back]
    · rw [nexts x List.mem_cons_self, forth]
    · exact fun y member => prevs y (List.mem_cons_of_mem x member)
    · exact fun y member => nexts y (List.mem_cons_of_mem x member)

section Relink

variable [DecidableEq ν]

/-- The last node of a segment may be linked to another node after it. -/
theorem relink_after (segment : Segment prev next before xs after) (nodup : xs.Nodup)
    (prevs : ∀ x ∈ xs, prev' x = prev x)
    (nexts : ∀ x ∈ xs, next' x = if xs.getLast? = some x then other else next x) :
    Segment prev' next' before xs other := by
  induction xs generalizing before with
  | nil => trivial
  | cons x rest ih =>
    obtain ⟨⟨back, forth⟩, tail⟩ := segment
    rw [List.nodup_cons] at nodup
    refine ⟨⟨?_, ?_⟩, ih tail nodup.2 ?_ ?_⟩
    · rw [prevs x List.mem_cons_self, back]
    · rw [nexts x List.mem_cons_self]
      cases rest with
      | nil => simp
      | cons y rest =>
        have inner : (x :: y :: rest).getLast? ≠ some x := by
          intro same
          rw [List.getLast?_cons_cons] at same
          exact nodup.1 (List.mem_of_getLast? same)
        rw [if_neg inner, forth]
        rfl
    · exact fun y member => prevs y (List.mem_cons_of_mem x member)
    · intro y member
      rw [nexts y (List.mem_cons_of_mem x member)]
      cases rest with
      | nil => cases member
      | cons z rest => rw [List.getLast?_cons_cons]

/-- The first node of a segment may be linked to another node before it. -/
theorem relink_before (segment : Segment prev next before xs after) (nodup : xs.Nodup)
    (prevs : ∀ x ∈ xs, prev' x = if xs.head? = some x then other else prev x)
    (nexts : ∀ x ∈ xs, next' x = next x) : Segment prev' next' other xs after := by
  cases xs with
  | nil => trivial
  | cons x rest =>
    obtain ⟨⟨_, forth⟩, tail⟩ := segment
    rw [List.nodup_cons] at nodup
    refine ⟨⟨?_, ?_⟩, tail.congr ?_ ?_⟩
    · rw [prevs x List.mem_cons_self]
      simp
    · rw [nexts x List.mem_cons_self, forth]
    · intro y member
      have apart : x ≠ y := fun same => nodup.1 (same ▸ member)
      rw [prevs y (List.mem_cons_of_mem x member)]
      simp [apart]
    · exact fun y member => nexts y (List.mem_cons_of_mem x member)

end Relink

/-- Walking along `next` meets the nodes of a segment in order, and stops after them. -/
theorem walk_next (segment : Segment prev next before xs none) {fuel : Nat}
    (enough : xs.length < fuel) : walk next fuel xs.head? = xs := by
  induction xs generalizing before fuel with
  | nil => cases fuel <;> rfl
  | cons x rest ih =>
    obtain ⟨⟨_, forth⟩, tail⟩ := segment
    rw [Option.or_none] at forth
    cases fuel with
    | zero => exact absurd enough (Nat.not_lt_zero _)
    | succ fuel =>
      have less : rest.length < fuel := Nat.lt_of_succ_lt_succ enough
      rw [List.head?_cons, walk, forth, ih tail less]

/-- Walking along `prev` meets the nodes of a segment in reverse order, and stops after them. -/
theorem walk_prev (segment : Segment prev next none xs after) {fuel : Nat}
    (enough : xs.length < fuel) : walk prev fuel xs.getLast? = xs.reverse := by
  induction xs using List.reverseRecOn generalizing after fuel with
  | nil => cases fuel <;> rfl
  | append_singleton rest x ih =>
    obtain ⟨initial, last⟩ := append_iff.mp segment
    have back : prev x = rest.getLast? := by simpa using last.1.1
    cases fuel with
    | zero => exact absurd enough (Nat.not_lt_zero _)
    | succ fuel =>
      have less : rest.length < fuel := by
        rw [List.length_append] at enough
        exact Nat.lt_of_succ_lt_succ enough
      rw [List.getLast?_concat, walk, back, ih initial less, List.reverse_concat]

/-- A segment that ends has no node twice: from one node on, the links lead only one way. -/
theorem nodup (segment : Segment prev next before xs none) : xs.Nodup := by
  induction xs generalizing before with
  | nil => exact List.nodup_nil
  | cons x rest ih =>
    refine List.nodup_cons.mpr ⟨fun again => ?_, ih segment.2⟩
    obtain ⟨front, back, split⟩ := List.append_of_mem again
    have later : Segment prev next (some x) (front ++ x :: back) none := split ▸ segment.2
    have here := segment.walk_next (Nat.lt_succ_self _)
    have shorter : (x :: back).length < (x :: rest).length + 1 := by
      simp only [split, List.length_cons, List.length_append]
      omega
    have there := (append_iff.mp later).2.walk_next shorter
    have same : rest = back := (List.cons.inj (here.symm.trans there)).2
    have length := congrArg List.length (same ▸ split)
    simp only [List.length_append, List.length_cons] at length
    omega

end Segment

/-- A heap of lists: the ends of every list and the links of every node. -/
@[ext] structure LinkedLists (ι ν : Type) where
  /-- The first node of a list. -/
  head : ι → Option ν
  /-- The last node of a list. -/
  tail : ι → Option ν
  /-- The link to the node before. -/
  prev : ν → Option ν
  /-- The link to the node after. -/
  next : ν → Option ν

namespace LinkedLists

/-- A list is the segment of a sequence, with nothing before it and nothing after it. -/
structure IsList (h : LinkedLists ι ν) (l : ι) (xs : List ν) : Prop where
  /-- The first node. -/
  head : h.head l = xs.head?
  /-- The last node. -/
  tail : h.tail l = xs.getLast?
  /-- The links. -/
  segment : Segment h.prev h.next none xs none

/-- The lists are those of a family of sequences, and share no node. -/
structure Holds (h : LinkedLists ι ν) (q : Seqs ι ν) : Prop where
  /-- Every list has its sequence. -/
  lists : ∀ l, h.IsList l (q.seq l)
  /-- No list has a node twice. -/
  nodup : ∀ l, (q.seq l).Nodup
  /-- No two lists share a node. -/
  disjoint : ∀ l m x, x ∈ q.seq l → x ∈ q.seq m → l = m

/-- The nodes of a list, found along `next` and along `prev`. -/
structure Walks (h : LinkedLists ι ν) (l : ι) (xs : List ν) : Prop where
  /-- From the first node along `next`. -/
  forwards : ∀ fuel, xs.length < fuel → walk h.next fuel (h.head l) = xs
  /-- From the last node along `prev`. -/
  backwards : ∀ fuel, xs.length < fuel → walk h.prev fuel (h.tail l) = xs.reverse
  /-- The last node of the forward walk. -/
  last : h.tail l = xs.getLast?

variable {h h' : LinkedLists ι ν} {q : Seqs ι ν} {l m : ι} {x : ν} {xs ys : List ν}

/-- A list is walked in both directions. -/
theorem IsList.walks (list : h.IsList l xs) : h.Walks l xs where
  forwards fuel enough := by
    rw [list.head]
    exact list.segment.walk_next enough
  backwards fuel enough := by
    rw [list.tail]
    exact list.segment.walk_prev enough
  last := list.tail

/-- A list stays when its ends and the links of its nodes do. -/
theorem IsList.congr (list : h.IsList l xs) (head : h'.head l = h.head l)
    (tail : h'.tail l = h.tail l) (prevs : ∀ x ∈ xs, h'.prev x = h.prev x)
    (nexts : ∀ x ∈ xs, h'.next x = h.next x) : h'.IsList l xs :=
  ⟨head.trans list.head, tail.trans list.tail, list.segment.congr prevs nexts⟩

/-- What surrounds a node of a list. -/
theorem IsList.around (list : h.IsList l (xs ++ x :: ys)) :
    Segment h.prev h.next none xs (some x) ∧ (h.prev x = xs.getLast? ∧ h.next x = ys.head?) ∧
      Segment h.prev h.next (some x) ys none := by
  obtain ⟨front, ⟨⟨back, forth⟩, rest⟩⟩ := Segment.append_iff.mp list.segment
  rw [Option.or_none] at back forth
  exact ⟨by simpa using front, ⟨back, forth⟩, rest⟩

/-- A heap in which every list is empty. -/
theorem Holds.empty (head : ∀ l, h.head l = none) (tail : ∀ l, h.tail l = none) :
    h.Holds ⟨fun _ => []⟩ where
  lists l := ⟨head l, tail l, trivial⟩
  nodup _ := List.nodup_nil
  disjoint _ _ _ member := absurd member List.not_mem_nil

/-- Well-formed lists that share no node hold their sequences. -/
theorem Holds.of_lists (lists : ∀ l, h.IsList l (q.seq l))
    (disjoint : ∀ l m x, x ∈ q.seq l → x ∈ q.seq m → l = m) : h.Holds q where
  lists := lists
  nodup l := (lists l).segment.nodup
  disjoint := disjoint

variable [DecidableEq ι]

/-- A heap in which one list was changed. -/
theorem Holds.change (holds : h.Holds q) (changed : h'.IsList l xs) (nodup : xs.Nodup)
    (others : ∀ m, m ≠ l → h'.IsList m (q.seq m))
    (apart : ∀ m, m ≠ l → ∀ x ∈ xs, x ∉ q.seq m) : h'.Holds (q.set l xs) := by
  constructor
  · intro m
    by_cases here : m = l
    · subst here
      rw [Seqs.set_seq_self]
      exact changed
    · rw [Seqs.set_seq_of_ne q xs here]
      exact others m here
  · intro m
    rw [Seqs.set_seq]
    split
    · exact nodup
    · exact holds.nodup m
  · intro m k y first second
    rw [Seqs.set_seq] at first second
    split at first
    · rename_i here
      split at second
      · rename_i there
        exact here.trans there.symm
      · rename_i there
        exact absurd second (apart k there y first)
    · rename_i here
      split at second
      · exact absurd first (apart m here y second)
      · exact holds.disjoint m k y first second

end LinkedLists
