import Sherry.Model.Heap

/-!
# The linked lists hold sequences

Each operation on a heap that holds a family of sequences does to it what the operation of the
same name does to the sequences. An operation is a few assignments; `Inserted` and `Erased` say
which links they leave where, and from that alone the sequences before and after are compared.
-/

namespace Sherry

variable {ι ν : Type} {h g : LinkedLists ι ν} {q : Seqs ι ν} {l m : ι} {x z : ν}
  {xs ys zs : List ν}

/-- `list_begin` is the first node. -/
theorem listBegin_holds (holds : h.Holds q) : listBegin h l = listBegin q l :=
  (holds.lists l).head

/-- `list_empty` is emptiness. -/
theorem listEmpty_holds (holds : h.Holds q) : listEmpty h l = listEmpty q l := by
  rw [listEmpty, listEmpty, listBegin_holds holds]

/-- What `list_insert` stores in `item->prev`. -/
def Links.before (h : LinkedLists ι ν) (l : ι) : Option ν → Option ν
  | some it => h.prev it
  | none => h.tail l

/-- The neighbours of a place in a list. -/
theorem Links.before_eq (list : h.IsList l (xs ++ ys)) :
    Links.before h l ys.head? = xs.getLast? := by
  cases ys with
  | nil => simpa [Links.before] using list.tail
  | cons y rest =>
    obtain ⟨_, ⟨back, _⟩, _⟩ := list.around
    exact back

/-- In a list without repetition no node before a place is the first behind it, and none behind it
the last before it. -/
theorem place_apart (nodup : (xs ++ ys).Nodup) :
    (∀ z ∈ xs, ys.head? ≠ some z) ∧ ∀ z ∈ ys, xs.getLast? ≠ some z := by
  have apart := (List.nodup_append.mp nodup).2.2
  exact ⟨fun z member same => apart z member z (List.mem_of_head? same) rfl,
    fun z member same => apart z (List.mem_of_getLast? same) z member rfl⟩

/-- The nodes on both sides of a place are others than one outside of the list. -/
theorem place_other (fresh : x ∉ xs ++ ys) : (∀ z ∈ xs, z ≠ x) ∧ ∀ z ∈ ys, z ≠ x := by
  constructor
  · rintro z member rfl
    exact fresh (List.mem_append_left ys member)
  · rintro z member rfl
    exact fresh (List.mem_append_right xs member)

section Written

variable [DecidableEq ν]

/-- What an insertion of a node between two neighbours writes. -/
structure Inserted (h g : LinkedLists ι ν) (l : ι) (x : ν) (before it : Option ν) : Prop where
  /-- The first node. -/
  head : g.head l = if h.head l = none ∨ h.head l = it then some x else h.head l
  /-- The last node. -/
  tail : g.tail l = if it = none then some x else h.tail l
  /-- The ends of the other lists. -/
  ends : ∀ m, m ≠ l → g.head m = h.head m ∧ g.tail m = h.tail m
  /-- The links of the new node. -/
  own : g.prev x = before ∧ g.next x = it
  /-- The links to the node before. -/
  prev : ∀ z, z ≠ x → g.prev z = if it = some z then some x else h.prev z
  /-- The links to the node after. -/
  next : ∀ z, z ≠ x → g.next z = if before = some z then some x else h.next z

/-- An insertion between two parts of a list puts the node there. -/
theorem Inserted.isList (list : h.IsList l (xs ++ ys))
    (nodup : (xs ++ ys).Nodup) (fresh : x ∉ xs ++ ys)
    (inserted : Inserted h g l x xs.getLast? ys.head?) : g.IsList l (xs ++ x :: ys) := by
  obtain ⟨front, rest⟩ := Segment.append_iff.mp list.segment
  simp only [Option.or_none] at front rest
  obtain ⟨nodup_xs, nodup_ys, _⟩ := List.nodup_append.mp nodup
  obtain ⟨not_first, not_last⟩ := place_apart nodup
  obtain ⟨left, right⟩ := place_other fresh
  constructor
  · rw [inserted.head, list.head]
    cases xs with
    | nil => simp
    | cons z rest => simpa using fun same => absurd same.symm (not_first z List.mem_cons_self)
  · rw [inserted.tail, list.tail]
    cases ys with
    | nil => simp
    | cons y rest => simp [List.getLast?_append]
  · rw [Segment.append_iff]
    refine ⟨front.relink_after nodup_xs ?_ ?_, ⟨?_, ?_⟩, rest.relink_before nodup_ys ?_ ?_⟩
    · intro z member
      rw [inserted.prev z (left z member), if_neg (not_first z member)]
    · intro z member
      rw [inserted.next z (left z member)]
      rfl
    · rw [inserted.own.1, Option.or_none]
    · rw [inserted.own.2, Option.or_none]
    · intro z member
      rw [inserted.prev z (right z member)]
    · intro z member
      rw [inserted.next z (right z member), if_neg (not_last z member)]

/-- An insertion leaves the lists alone that share no node with the place and the new node. -/
theorem Inserted.others (list : h.IsList m zs)
    (other : m ≠ l) (fresh : x ∉ zs) (left : ∀ z ∈ zs, z ∉ xs) (right : ∀ z ∈ zs, z ∉ ys)
    (inserted : Inserted h g l x xs.getLast? ys.head?) : g.IsList m zs := by
  have apart : ∀ z ∈ zs, z ≠ x := by
    rintro z member rfl
    exact fresh member
  apply list.congr (inserted.ends m other).1 (inserted.ends m other).2
  · intro z member
    rw [inserted.prev z (apart z member), if_neg]
    exact fun same => right z member (List.mem_of_head? same)
  · intro z member
    rw [inserted.next z (apart z member), if_neg]
    exact fun same => left z member (List.mem_of_getLast? same)

/-- What an erasure of a node writes. -/
structure Erased (h g : LinkedLists ι ν) (l : ι) (x : ν) : Prop where
  /-- The first node. -/
  head : g.head l = if h.prev x = none then h.next x else h.head l
  /-- The last node. -/
  tail : g.tail l = if h.next x = none then h.prev x else h.tail l
  /-- The ends of the other lists. -/
  ends : ∀ m, m ≠ l → g.head m = h.head m ∧ g.tail m = h.tail m
  /-- The links of the node that leaves. -/
  own : g.prev x = none ∧ g.next x = none
  /-- The links to the node before. -/
  prev : ∀ z, z ≠ x → g.prev z = if h.next x = some z then h.prev x else h.prev z
  /-- The links to the node after. -/
  next : ∀ z, z ≠ x → g.next z = if h.prev x = some z then h.next x else h.next z

/-- An erasure of a node of a list joins the parts before it and after it. -/
theorem Erased.isList (list : h.IsList l (xs ++ x :: ys)) (nodup : (xs ++ x :: ys).Nodup)
    (erased : Erased h g l x) : g.IsList l (xs ++ ys) := by
  obtain ⟨front, ⟨back, forth⟩, rest⟩ := list.around
  obtain ⟨fresh, nodup⟩ := List.nodup_cons.mp (List.nodup_middle.mp nodup)
  obtain ⟨nodup_xs, nodup_ys, _⟩ := List.nodup_append.mp nodup
  obtain ⟨not_first, not_last⟩ := place_apart nodup
  obtain ⟨left, right⟩ := place_other fresh
  constructor
  · rw [erased.head, back, forth, list.head]
    cases xs with
    | nil => simp
    | cons z rest => simp
  · rw [erased.tail, back, forth, list.tail]
    cases ys with
    | nil => simp
    | cons y rest => simp [List.getLast?_append]
  · rw [Segment.append_iff, Option.or_none, Option.or_none]
    constructor
    · apply front.relink_after nodup_xs
      · intro z member
        rw [erased.prev z (left z member), forth, if_neg (not_first z member)]
      · intro z member
        rw [erased.next z (left z member), back, forth]
    · apply rest.relink_before nodup_ys
      · intro z member
        rw [erased.prev z (right z member), back, forth]
      · intro z member
        rw [erased.next z (right z member), back, if_neg (not_last z member)]

/-- An erasure leaves the lists alone that have neither the node nor a neighbour of it. -/
theorem Erased.others (list : h.IsList m zs) (other : m ≠ l) (absent : x ∉ zs)
    (left : ∀ z ∈ zs, h.prev x ≠ some z) (right : ∀ z ∈ zs, h.next x ≠ some z)
    (erased : Erased h g l x) : g.IsList m zs := by
  have apart : ∀ z ∈ zs, z ≠ x := by
    rintro z member rfl
    exact absent member
  apply list.congr (erased.ends m other).1 (erased.ends m other).2
  · intro z member
    rw [erased.prev z (apart z member), if_neg (right z member)]
  · intro z member
    rw [erased.next z (apart z member), if_neg (left z member)]

end Written

variable [DecidableEq ι]

/-- `list_init` empties a list. -/
theorem listInit_holds (holds : h.Holds q) : (listInit h l).Holds (listInit q l) := by
  apply holds.change
  · exact ⟨by simp [listInit, Links.listInit, Links.setTail, Links.setHead],
      by simp [listInit, Links.listInit, Links.setTail], trivial⟩
  · exact List.nodup_nil
  · intro m other
    have head : (listInit h l).head m = h.head m := by
      simp [listInit, Links.listInit, Links.setTail, Links.setHead, other]
    have tail : (listInit h l).tail m = h.tail m := by
      simp [listInit, Links.listInit, Links.setTail, Links.setHead, other]
    exact (holds.lists m).congr head tail (fun _ _ => rfl) (fun _ _ => rfl)
  · exact fun _ _ z member => absurd member List.not_mem_nil

variable [DecidableEq ν]

namespace Links

/-- Assign to a link of a node, if there is one. -/
def assign (link : ν → Option ν) (node value : Option ν) : ν → Option ν :=
  match node with
  | some y => Function.update link y value
  | none => link

/-- The links after an assignment. -/
theorem assign_apply {link : ν → Option ν} {node value : Option ν} :
    assign link node value z = if node = some z then value else link z := by
  cases node with
  | none => rfl
  | some y =>
    by_cases here : z = y
    · simp [assign, here]
    · simp [assign, here, Ne.symm here]

/-- The heap after `list_insert` of a node that is not its own neighbour. -/
theorem listInsert_eq {it : Option ν} (left : before h l it ≠ some x) (right : it ≠ some x) :
    listInsert h l x it =
      { head :=
          if h.head l = none ∨ h.head l = it then Function.update h.head l (some x) else h.head
        tail := if it = none then Function.update h.tail l (some x) else h.tail
        prev := assign (Function.update h.prev x (before h l it)) it (some x)
        next := assign (Function.update h.next x it) (before h l it) (some x) } := by
  cases it with
  | none =>
    cases tail : h.tail l with
    | none =>
      by_cases first : h.head l = none <;>
        simp [listInsert, before, assign, tail, first, setPrev, setNext, setHead, setTail]
    | some b =>
      have other : x ≠ b := by simpa [before, tail, eq_comm] using left
      by_cases first : h.head l = none <;>
        simp [listInsert, before, assign, tail, first, other, setPrev, setNext, setHead, setTail]
  | some a =>
    have other : x ≠ a := by simpa [eq_comm] using right
    cases back : h.prev a with
    | none =>
      by_cases first : h.head l = none ∨ h.head l = some a <;>
        simp [listInsert, before, assign, back, first, setPrev, setNext, setHead]
    | some b =>
      have apart : x ≠ b := by simpa [before, back, eq_comm] using left
      by_cases first : h.head l = none ∨ h.head l = some a <;>
        simp [listInsert, before, assign, back, first, apart, setPrev, setNext, setHead]

/-- The heap after `list_erase` of a node that is not its own neighbour. -/
theorem listErase_eq (left : h.prev x ≠ some x) :
    listErase h l x =
      ({ head := if h.prev x = none then Function.update h.head l (h.next x) else h.head
         tail := if h.next x = none then Function.update h.tail l (h.prev x) else h.tail
         prev := Function.update (assign h.prev (h.next x) (h.prev x)) x none
         next := Function.update (assign h.next (h.prev x) (h.next x)) x none }, h.next x) := by
  cases back : h.prev x with
  | none =>
    cases forth : h.next x with
    | none => simp [listErase, assign, back, forth, setPrev, setNext, setHead, setTail]
    | some a => simp [listErase, assign, back, forth, setPrev, setNext, setHead]
  | some b =>
    have apart : x ≠ b := by simpa [back, eq_comm] using left
    cases forth : h.next x with
    | none => simp [listErase, assign, back, forth, apart, setPrev, setNext, setTail]
    | some a => simp [listErase, assign, back, forth, apart, setPrev, setNext]

end Links

/-- `list_insert` writes the links of its node, of the neighbours and of the ends. -/
theorem listInsert_inserted {it : Option ν} (left : Links.before h l it ≠ some x)
    (right : it ≠ some x) :
    Inserted h (Links.listInsert h l x it) l x (Links.before h l it) it := by
  rw [Links.listInsert_eq left right]
  constructor
  · by_cases first : h.head l = none ∨ h.head l = it <;> simp [first]
  · by_cases last : it = none <;> simp [last]
  · intro m other
    constructor <;> dsimp only <;> split <;> simp [other]
  · constructor
    · simp [Links.assign_apply, right]
    · simp [Links.assign_apply, left]
  · intro z other
    simp [Links.assign_apply, other]
  · intro z other
    simp [Links.assign_apply, other]

/-- `list_erase` writes the links of its node, of the neighbours and of the ends. -/
theorem listErase_erased (left : h.prev x ≠ some x) : Erased h (Links.listErase h l x).1 l x := by
  rw [Links.listErase_eq left]
  constructor
  · by_cases first : h.prev x = none <;> simp [first]
  · by_cases last : h.next x = none <;> simp [last]
  · intro m other
    constructor <;> dsimp only <;> split <;> simp [other]
  · simp
  · intro z other
    simp [Links.assign_apply, other]
  · intro z other
    simp [Links.assign_apply, other]

/-- What `list_insert` writes for a node that is in no list, before a member or at the end. -/
theorem listInsert_writes (holds : h.Holds q) (outside : ∀ m, x ∉ q.seq m)
    (split : q.seq l = xs ++ ys) :
    Inserted h (Links.listInsert h l x ys.head?) l x xs.getLast? ys.head? := by
  have list := holds.lists l
  have fresh := outside l
  rw [split] at list fresh
  have source := Links.before_eq list
  rw [← source]
  apply listInsert_inserted
  · rw [source]
    exact fun same => fresh (List.mem_append_left ys (List.mem_of_getLast? same))
  · exact fun same => fresh (List.mem_append_right xs (List.mem_of_head? same))

/-- `list_insert` places a node that is in no list before a member, or at the end. -/
theorem listInsert_holds (holds : h.Holds q) (outside : ∀ m, x ∉ q.seq m)
    (split : q.seq l = xs ++ ys) :
    (Links.listInsert h l x ys.head?).Holds (q.set l (xs ++ x :: ys)) := by
  have inserted := listInsert_writes holds outside split
  have list := holds.lists l
  have nodup := holds.nodup l
  have fresh := outside l
  rw [split] at list nodup fresh
  apply holds.change (inserted.isList list nodup fresh)
  · exact List.nodup_middle.mpr (List.nodup_cons.mpr ⟨fresh, nodup⟩)
  · intro m other
    have away : ∀ z ∈ q.seq m, z ∉ xs ++ ys := fun z member here =>
      other (holds.disjoint m l z member (split ▸ here))
    apply inserted.others (holds.lists m) other (outside m)
    · exact fun z member here => away z member (List.mem_append_left ys here)
    · exact fun z member here => away z member (List.mem_append_right xs here)
  · intro m other z member inside
    rcases List.mem_append.mp member with front | rest
    · exact other (holds.disjoint m l z inside (split ▸ List.mem_append_left ys front))
    · rcases List.mem_cons.mp rest with rfl | later
      · exact outside m inside
      · exact other (holds.disjoint m l z inside (split ▸ List.mem_append_right xs later))

/-- What `list_erase` writes for a member. -/
theorem listErase_writes (holds : h.Holds q) (split : q.seq l = xs ++ x :: ys) :
    Erased h (Links.listErase h l x).1 l x ∧ (Links.listErase h l x).2 = ys.head? := by
  have list := holds.lists l
  have nodup := holds.nodup l
  rw [split] at list nodup
  obtain ⟨_, ⟨back, forth⟩, _⟩ := list.around
  have fresh := (List.nodup_cons.mp (List.nodup_middle.mp nodup)).1
  have left : h.prev x ≠ some x := by
    rw [back]
    exact fun same => fresh (List.mem_append_left ys (List.mem_of_getLast? same))
  refine ⟨listErase_erased left, ?_⟩
  rw [Links.listErase_eq left]
  exact forth

/-- `list_erase` takes a member out of its list and returns the node after it. -/
theorem listErase_holds (holds : h.Holds q) (split : q.seq l = xs ++ x :: ys) :
    (Links.listErase h l x).1.Holds (q.set l (xs ++ ys)) ∧
      (Links.listErase h l x).2 = ys.head? := by
  obtain ⟨erased, returned⟩ := listErase_writes holds split
  have list := holds.lists l
  have nodup := holds.nodup l
  rw [split] at list nodup
  obtain ⟨_, ⟨back, forth⟩, _⟩ := list.around
  have rest := (List.nodup_cons.mp (List.nodup_middle.mp nodup)).2
  refine ⟨?_, returned⟩
  have away : ∀ m, m ≠ l → ∀ z ∈ q.seq m, z ∉ xs ++ x :: ys := fun m other z member here =>
    other (holds.disjoint m l z member (split ▸ here))
  apply holds.change (erased.isList list nodup) rest
  · intro m other
    apply erased.others (holds.lists m) other
    · exact fun member => away m other x member (by simp)
    · intro z member same
      rw [back] at same
      exact away m other z member (List.mem_append_left _ (List.mem_of_getLast? same))
    · intro z member same
      rw [forth] at same
      have later : z ∈ x :: ys := List.mem_cons_of_mem x (List.mem_of_head? same)
      exact away m other z member (List.mem_append_right xs later)
  · intro m other z member inside
    rcases List.mem_append.mp member with front | later
    · exact away m other z inside (List.mem_append_left _ front)
    · exact away m other z inside (List.mem_append_right xs (List.mem_cons_of_mem x later))

/-- `list_enqueue` appends a node that is in no list. -/
theorem listEnqueue_holds (holds : h.Holds q) (outside : ∀ m, x ∉ q.seq m) :
    (listEnqueue h l x).Holds (listEnqueue q l x) :=
  listInsert_holds holds outside (List.append_nil (q.seq l)).symm

/-- `list_erase` takes out a member. -/
theorem listErase_member (holds : h.Holds q) (member : x ∈ q.seq l) :
    (listErase h l x).Holds (listErase q l x) := by
  obtain ⟨xs, ys, split⟩ := List.append_of_mem member
  have nodup := holds.nodup l
  rw [split] at nodup
  have first : x ∉ xs := fun early =>
    (List.nodup_append.mp nodup).2.2 x early x List.mem_cons_self rfl
  have taken : (q.seq l).erase x = xs ++ ys := by
    rw [split, List.erase_append_right _ first, List.erase_cons_head]
  rw [listErase_seqs, taken]
  exact (listErase_holds holds split).1

/-- A node that was taken out of its list is in no list. -/
theorem erase_outside (holds : h.Holds q) (member : x ∈ q.seq l) (m : ι) :
    x ∉ (q.set l ((q.seq l).erase x)).seq m := by
  by_cases here : m = l
  · subst here
    rw [Seqs.set_seq_self]
    exact (holds.nodup m).not_mem_erase
  · rw [Seqs.set_seq_of_ne q _ here]
    exact fun inside => here (holds.disjoint m l x inside member)

/-- `list_dequeue` of an empty list returns nothing and changes nothing; of any other list it
takes out the first node, which is then in no list. -/
theorem listDequeue_holds (holds : h.Holds q) (l : ι) :
    (listDequeue h l = (h, none) ∧ listDequeue q l = (q, none)) ∨
      ∃ g r x, listDequeue h l = (g, some x) ∧ listDequeue q l = (r, some x) ∧ g.Holds r ∧
        ∀ m, x ∉ r.seq m := by
  have begins := listBegin_holds (l := l) holds
  rw [listBegin_seqs] at begins
  cases first : q.seq l with
  | nil =>
    left
    constructor
    · simp [listDequeue, begins, first]
    · exact listDequeue_nil q l first
  | cons node rest =>
    right
    have member : node ∈ q.seq l := by simp [first]
    refine ⟨listErase h l node, listErase q l node, node, ?_, ?_, ?_, ?_⟩
    · simp [listDequeue, begins, first]
    · simp [listDequeue, first]
    · exact listErase_member holds member
    · exact erase_outside holds member

end Sherry
