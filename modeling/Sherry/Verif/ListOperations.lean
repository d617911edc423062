import Sherry.Verif.Queues

/-!
# The operations of the linked lists

An operation on one list changes that list as a sequence, and of everything else in the heap only
the links of the node it is given. What it writes says so, and also that erasing a node right
after its insertion puts every other link back.
-/

namespace Sherry

variable {ι ν : Type} {h g f : LinkedLists ι ν} {q : Seqs ι ν} {l : ι} {x : ν} {xs ys : List ν}

/-- Between two heaps only a list with some nodes, and one more node, changed. -/
structure OnlyChanges (h g : LinkedLists ι ν) (l : ι) (xs : List ν) (x : ν) : Prop where
  /-- The ends of the other lists are the same. -/
  ends : ∀ m, m ≠ l → g.head m = h.head m ∧ g.tail m = h.tail m
  /-- The links of the other nodes are the same. -/
  links : ∀ z, z ≠ x → z ∉ xs → g.prev z = h.prev z ∧ g.next z = h.next z

/-- The last node before a place is linked to the first node after it. -/
theorem next_place (list : h.IsList l (xs ++ ys)) {b : ν} (last : xs.getLast? = some b) :
    h.next b = ys.head? := by
  obtain ⟨front, rfl⟩ := List.getLast?_eq_some_iff.mp last
  rw [List.append_assoc] at list
  exact list.around.2.1.2

section Written

variable [DecidableEq ν]

/-- An insertion links the new node to its neighbours, which are in the list. -/
theorem Inserted.only (inserted : Inserted h g l x xs.getLast? ys.head?) :
    OnlyChanges h g l (xs ++ ys) x where
  ends := inserted.ends
  links := by
    intro z other outside
    rw [List.mem_append, not_or] at outside
    have before : xs.getLast? ≠ some z := fun same => outside.1 (List.mem_of_getLast? same)
    have after : ys.head? ≠ some z := fun same => outside.2 (List.mem_of_head? same)
    exact ⟨by rw [inserted.prev z other, if_neg after],
      by rw [inserted.next z other, if_neg before]⟩

/-- An erasure links the neighbours of the node to each other. -/
theorem Erased.only (list : h.IsList l (xs ++ x :: ys)) (erased : Erased h g l x) :
    OnlyChanges h g l (xs ++ x :: ys) x where
  ends := erased.ends
  links := by
    intro z other outside
    obtain ⟨_, ⟨back, forth⟩, _⟩ := list.around
    have before : h.prev x ≠ some z := by
      rw [back]
      exact fun same => outside (List.mem_append_left _ (List.mem_of_getLast? same))
    have after : h.next x ≠ some z := by
      rw [forth]
      intro same
      exact outside (List.mem_append_right xs (List.mem_cons_of_mem x (List.mem_of_head? same)))
    exact ⟨by rw [erased.prev z other, if_neg after], by rw [erased.next z other, if_neg before]⟩

/-- Erasing a node right after its insertion gives every other node and both ends back what they
had. -/
theorem Erased.undoes [DecidableEq ι] (list : h.IsList l (xs ++ ys)) (nodup : (xs ++ ys).Nodup)
    (inserted : Inserted h g l x xs.getLast? ys.head?) (erased : Erased g f l x) :
    f = Links.setNext (Links.setPrev h x none) x none := by
  obtain ⟨back, forth⟩ := inserted.own
  have place : Links.before h l ys.head? = xs.getLast? := Links.before_eq list
  ext1
  · funext m
    by_cases here : m = l
    · subst here
      show f.head m = h.head m
      rw [erased.head, back, forth, inserted.head, list.head]
      cases xs with
      | nil => simp
      | cons b rest =>
        have other := (place_apart nodup).1 b List.mem_cons_self
        cases first : ys.head? with
        | none => simp
        | some y =>
          have apart : b ≠ y := fun same => other (same ▸ first)
          simp [apart]
    · exact ((erased.ends m here).1).trans (inserted.ends m here).1
  · funext m
    by_cases here : m = l
    · subst here
      show f.tail m = h.tail m
      rw [erased.tail, back, forth, inserted.tail, ← place]
      cases ys.head? with
      | none => simp [Links.before]
      | some y => simp
    · exact ((erased.ends m here).2).trans (inserted.ends m here).2
  · funext z
    by_cases here : z = x
    · subst here
      simpa [Links.setNext, Links.setPrev] using erased.own.1
    · rw [erased.prev z here, forth, back, inserted.prev z here, ← place]
      by_cases after : ys.head? = some z
      · simp [after, Links.before, Links.setNext, Links.setPrev, here]
      · simp [after, Links.setNext, Links.setPrev, here]
  · funext z
    by_cases here : z = x
    · subst here
      simpa [Links.setNext, Links.setPrev] using erased.own.2
    · rw [erased.next z here, forth, back, inserted.next z here]
      by_cases last : xs.getLast? = some z
      · simp [last, Links.setNext, Links.setPrev, here, next_place list last]
      · simp [last, Links.setNext, Links.setPrev, here]

end Written

variable [DecidableEq ι] [DecidableEq ν]

/-- `list_insert` of a node that is in no list puts it directly before the given member, or at
the end, and `list_erase` then takes it out again and leaves the heap as it was but for its
links; `list_erase` takes a member out, returns the node after it and clears its links;
`list_dequeue` takes out the first node, if there is one. Every list stays well formed, and
nothing changes but the one list and the links of the one node. -/
theorem list_operations (lists : ∀ l, h.IsList l (q.seq l))
    (disjoint : ∀ l m x, x ∈ q.seq l → x ∈ q.seq m → l = m) (l : ι) :
    (∀ x it, (∀ m, x ∉ q.seq m) → (∀ y, it = some y → y ∈ q.seq l) →
      ∃ xs ys, q.seq l = xs ++ ys ∧ ys.head? = it ∧
        (Links.listInsert h l x it).Holds (q.set l (xs ++ x :: ys)) ∧
        OnlyChanges h (Links.listInsert h l x it) l (q.seq l) x ∧
        Links.listErase (Links.listInsert h l x it) l x =
          (Links.setNext (Links.setPrev h x none) x none, it)) ∧
      (∀ x ∈ q.seq l, ∃ xs ys, q.seq l = xs ++ x :: ys ∧
        (Links.listErase h l x).1.Holds (q.set l (xs ++ ys)) ∧
        (Links.listErase h l x).2 = ys.head? ∧
        (Links.listErase h l x).1.prev x = none ∧ (Links.listErase h l x).1.next x = none ∧
        OnlyChanges h (Links.listErase h l x).1 l (q.seq l) x) ∧
      (q.seq l = [] → listDequeue h l = (h, none)) ∧
      ∀ x rest, q.seq l = x :: rest →
        ∃ g, listDequeue h l = (g, some x) ∧ g.Holds (q.set l rest) ∧
          g.prev x = none ∧ g.next x = none ∧ OnlyChanges h g l (q.seq l) x := by
  have holds : h.Holds q := .of_lists lists disjoint
  refine ⟨?_, ?_, ?_, ?_⟩
  · intro x it outside member
    have place : ∃ xs ys, q.seq l = xs ++ ys ∧ ys.head? = it := by
      cases it with
      | none => exact ⟨q.seq l, [], (List.append_nil _).symm, rfl⟩
      | some y =>
        obtain ⟨xs, ys, split⟩ := List.append_of_mem (member y rfl)
        exact ⟨xs, y :: ys, split, rfl⟩
    obtain ⟨xs, ys, split, rfl⟩ := place
    have inserted := listInsert_writes holds outside split
    have after := listInsert_holds holds outside split
    obtain ⟨erased, returned⟩ := listErase_writes after (Seqs.set_seq_self q l (xs ++ x :: ys))
    have undone := erased.undoes (split ▸ lists l) (split ▸ holds.nodup l) inserted
    exact ⟨xs, ys, split, rfl, after, split ▸ inserted.only, Prod.ext undone returned⟩
  · intro x member
    obtain ⟨xs, ys, split⟩ := List.append_of_mem member
    obtain ⟨erased, returned⟩ := listErase_writes holds split
    have after := (listErase_holds holds split).1
    exact ⟨xs, ys, split, after, returned, erased.own.1, erased.own.2,
      split ▸ erased.only (split ▸ lists l)⟩
  · intro empty
    rcases listDequeue_holds holds l with ⟨here, _⟩ | ⟨g, r, x, _, there, _⟩
    · exact here
    · rw [listDequeue_nil q l empty] at there
      cases there
  · intro x rest split
    have begins : listBegin h l = some x := by
      rw [listBegin_holds holds, listBegin_seqs, split]
      rfl
    have first : q.seq l = [] ++ x :: rest := split
    obtain ⟨erased, _⟩ := listErase_writes holds first
    have after := (listErase_holds holds first).1
    have list : h.IsList l ([] ++ x :: rest) := first ▸ lists l
    exact ⟨(Links.listErase h l x).1, by rw [listDequeue, begins]; rfl, after, erased.own.1,
      erased.own.2, first ▸ erased.only list⟩

/-- A heap with a list of the nodes 1 and 2, and a list of the node 3. -/
def twoLists : LinkedLists Bool Nat where
  head l := if l then some 3 else some 1
  tail l := if l then some 3 else some 2
  prev x := if x = 2 then some 1 else none
  next x := if x = 1 then some 2 else none

/-- The sequences of `twoLists`. -/
def twoSequences : Seqs Bool Nat := ⟨fun l => if l then [3] else [1, 2]⟩

/-- A node that is inserted before the second node of a list is erased again without a trace. -/
theorem list_operations_undo :
    (Links.listInsert twoLists false 4 (some 2)).Walks false [1, 4, 2] ∧
      Links.listErase (Links.listInsert twoLists false 4 (some 2)) false 4 =
        (Links.setNext (Links.setPrev twoLists 4 none) 4 none, some 2) := by
  have lists : ∀ l, twoLists.IsList l (twoSequences.seq l) := by
    rintro (_ | _) <;> exact ⟨by decide, by decide, by simp [twoLists, twoSequences, Segment]⟩
  have disjoint : ∀ l m x, x ∈ twoSequences.seq l → x ∈ twoSequences.seq m → l = m := by
    rintro (_ | _) (_ | _) x <;> simp [twoSequences] <;> omega
  obtain ⟨xs, ys, split, place, after, _, undone⟩ :=
    (list_operations lists disjoint false).1 4 (some 2) (by simp [twoSequences])
      (by simp [twoSequences])
  have one : xs = [1] ∧ ys = [2] := by
    have both : xs ++ ys = [1, 2] := split.symm
    rcases List.append_eq_cons_iff.mp both with ⟨_, rfl⟩ | ⟨rest, rfl, tail⟩
    · cases place
    · rcases List.append_eq_singleton_iff.mp tail.symm with ⟨rfl, rfl⟩ | ⟨_, rfl⟩
      · exact ⟨rfl, rfl⟩
      · cases place
  obtain ⟨rfl, rfl⟩ := one
  exact ⟨(after.lists false).walks, undone⟩

end Sherry
