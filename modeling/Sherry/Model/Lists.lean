import Sherry.Library.Sequences

/-!
# List stores

`sherry.c` links actors and messages through nodes inside their structures, and every
operation of the library goes through `list_init`, `list_begin`, `list_insert` and
`list_erase`. The model is written against these four operations, so the same definitions of
the scheduler run over any store of lists. Here the store is a family of finite sequences,
the meaning the operations are meant to have: insert before a member or at the end, remove a
member, and read the first element.
-/

namespace Sherry

/-- A store of lists named by `ι` that link the nodes of the objects `ν`. -/
class ListStore (Q : Type → Type → Type) where
  /-- The store before any list was used. -/
  blank : {ι ν : Type} → Q ι ν
  /-- `list_init`. -/
  listInit : {ι ν : Type} → [DecidableEq ι] → Q ι ν → ι → Q ι ν
  /-- `list_begin`: the first node, nothing for `NULL`. -/
  listBegin : {ι ν : Type} → Q ι ν → ι → Option ν
  /-- `list_insert`: the item goes before `it`, at the end for `NULL`. -/
  listInsert : {ι ν : Type} → [DecidableEq ι] → [DecidableEq ν] → Q ι ν → ι → ν → Option ν → Q ι ν
  /-- `list_erase`. -/
  listErase : {ι ν : Type} → [DecidableEq ι] → [DecidableEq ν] → Q ι ν → ι → ν → Q ι ν

export ListStore (listInit listBegin listInsert listErase)

section Interface

variable {Q : Type → Type → Type} [ListStore Q] {ι ν : Type}

/-- `list_empty`. -/
def listEmpty (q : Q ι ν) (l : ι) : Bool := (listBegin q l).isNone

variable [DecidableEq ι] [DecidableEq ν]

/-- `list_enqueue`. -/
def listEnqueue (q : Q ι ν) (l : ι) (node : ν) : Q ι ν := listInsert q l node none

/-- `list_dequeue`, with the store after it. -/
def listDequeue (q : Q ι ν) (l : ι) : Q ι ν × Option ν :=
  match listBegin q l with
  | none => (q, none)
  | some node => (listErase q l node, some node)

end Interface

/-- Put an item before the first occurrence of a member. -/
def insertBefore {ν : Type} [DecidableEq ν] (item it : ν) : List ν → List ν
  | [] => [item]
  | x :: rest => if x = it then item :: x :: rest else x :: insertBefore item it rest

/-- The store of finite sequences. -/
instance : ListStore Seqs where
  blank := ⟨fun _ => []⟩
  listInit q l := q.set l []
  listBegin q l := (q.seq l).head?
  listInsert q l item it :=
    match it with
    | none => q.set l (q.seq l ++ [item])
    | some it => q.set l (insertBefore item it (q.seq l))
  listErase q l item := q.set l ((q.seq l).erase item)

section Sequences

variable {ι ν : Type} (q : Seqs ι ν) (l : ι)

@[simp] theorem blank_seq : (ListStore.blank : Seqs ι ν).seq l = [] := rfl

@[simp] theorem listBegin_seqs : listBegin q l = (q.seq l).head? := rfl

/-- `list_empty` is emptiness of the sequence. -/
@[simp] theorem listEmpty_seqs : listEmpty q l = true ↔ q.seq l = [] := by
  simp [listEmpty]

variable [DecidableEq ι]

@[simp] theorem listInit_seqs : listInit q l = q.set l [] := rfl

variable [DecidableEq ν]

@[simp] theorem listErase_seqs (node : ν) : listErase q l node = q.set l ((q.seq l).erase node) :=
  rfl

/-- `list_enqueue` appends at the tail. -/
@[simp] theorem listEnqueue_seqs (node : ν) : listEnqueue q l node = q.set l (q.seq l ++ [node]) :=
  rfl

/-- `list_dequeue` of an empty list returns `NULL` and changes nothing. -/
theorem listDequeue_nil (empty : q.seq l = []) : listDequeue q l = (q, none) := by
  simp [listDequeue, empty]

/-- `list_dequeue` of a list with a first node returns it and keeps the rest. -/
theorem listDequeue_cons {node : ν} {rest : List ν} (first : q.seq l = node :: rest) :
    listDequeue q l = (q.set l rest, some node) := by
  simp [listDequeue, first]

end Sequences

end Sherry
