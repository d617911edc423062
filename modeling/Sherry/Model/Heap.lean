import Sherry.Library.LinkedLists
import Sherry.Model.Lists

/-!
# The linked lists

The section "Generic double linked list implementation" of `sherry.c`, as functions of a heap
with the `head` and `tail` of every `struct list` and the `prev` and `next` of every
`struct list_node`. Every assignment of the source is one change of the heap, in its order, and
reads the heap as the assignments before it left it. A node that was never in a list has `NULL`
in both links, as `new_actor` and `sherry_msg_send` set them.
-/

namespace Sherry

variable {ι ν : Type} [DecidableEq ι] [DecidableEq ν]

namespace Links

variable (h : LinkedLists ι ν)

/-- `l->head = node`. -/
def setHead (l : ι) (node : Option ν) : LinkedLists ι ν :=
  { h with head := Function.update h.head l node }

/-- `l->tail = node`. -/
def setTail (l : ι) (node : Option ν) : LinkedLists ι ν :=
  { h with tail := Function.update h.tail l node }

/-- `item->prev = node`. -/
def setPrev (item : ν) (node : Option ν) : LinkedLists ι ν :=
  { h with prev := Function.update h.prev item node }

/-- `item->next = node`. -/
def setNext (item : ν) (node : Option ν) : LinkedLists ι ν :=
  { h with next := Function.update h.next item node }

/-- `list_init`. -/
def listInit (l : ι) : LinkedLists ι ν := setTail (setHead h l none) l none

/-- `list_insert`. -/
def listInsert (l : ι) (item : ν) (it : Option ν) : LinkedLists ι ν :=
  let h := setPrev h item (match it with
    | some it => h.prev it
    | none => h.tail l)
  let h := setNext h item it
  let h := match h.prev item with
    | some before => setNext h before (some item)
    | none => h
  let h := match h.next item with
    | some after => setPrev h after (some item)
    | none => h
  let h := if h.head l = none ∨ h.head l = it then setHead h l (some item) else h
  if it = none then setTail h l (some item) else h

/-- `list_erase`, with the node that it returns. -/
def listErase (l : ι) (item : ν) : LinkedLists ι ν × Option ν :=
  let h := match h.prev item with
    | some before => setNext h before (h.next item)
    | none => setHead h l (h.next item)
  let h := match h.next item with
    | some after => setPrev h after (h.prev item)
    | none => setTail h l (h.prev item)
  let next := h.next item
  (setNext (setPrev h item none) item none, next)

end Links

/-- The store of linked lists. -/
instance : ListStore LinkedLists where
  blank := ⟨fun _ => none, fun _ => none, fun _ => none, fun _ => none⟩
  listInit := Links.listInit
  listBegin h l := h.head l
  listInsert := Links.listInsert
  listErase h l item := (Links.listErase h l item).1

end Sherry
