import Mathlib.Data.List.Basic
import Mathlib.Data.List.Infix
import Mathlib.Data.List.Lattice

/-!
# A stream read through one replaceable buffer

A flow is what passes through a buffer that is filled by deliveries and emptied by reads from
an offset. A delivery replaces the buffer; only a prefix of it, the chunk, was received. A
read copies from the buffer at the offset, whether or not that is inside the chunk. A flow is
`Honest` when what was returned and what is unread come from what was received, in order, and
`Complete` when nothing received is missing from them. Each delivery keeps the first and each
read the second; the side conditions of the other two rules are exactly what goes wrong with a
short chunk and with a chunk replaced too early.
-/

/-- The history and the buffer of a stream. -/
@[ext] structure ChunkFlow (α : Type) where
  /-- All that was delivered. -/
  received : List α
  /-- All that was returned. -/
  returned : List α
  /-- The part of the buffer that was received. -/
  chunk : List α
  /-- The buffer. -/
  buffer : List α
  /-- Where the next read begins. -/
  offset : Nat

namespace ChunkFlow

variable {α : Type}

/-- The received items that no read has reached. -/
def unread (f : ChunkFlow α) : List α := f.chunk.drop f.offset

/-- The items of the buffer that no read has reached. -/
def window (f : ChunkFlow α) : List α := f.buffer.drop f.offset

/-- A delivery replaces the buffer. -/
def deliver (f : ChunkFlow α) (chunk buffer : List α) : ChunkFlow α :=
  { received := f.received ++ chunk, returned := f.returned, chunk, buffer, offset := 0 }

/-- A read copies the next items of the buffer. -/
def take (f : ChunkFlow α) (n : Nat) : ChunkFlow α :=
  { f with returned := f.returned ++ f.window.take n, offset := f.offset + n }

/-- The chunk is a prefix of the buffer. -/
def Valid (f : ChunkFlow α) : Prop := f.chunk <+: f.buffer

/-- What was returned and what is unread was received, in this order. -/
def Honest (f : ChunkFlow α) : Prop := (f.returned ++ f.unread).Sublist f.received

/-- What was received was returned or is unread, in this order. -/
def Complete (f : ChunkFlow α) : Prop := f.received.Sublist (f.returned ++ f.unread)

variable {f : ChunkFlow α} {chunk buffer : List α} {n : Nat}

/-- The unread items are a prefix of the window. -/
theorem unread_initial (valid : f.Valid) : f.unread <+: f.window := by
  obtain ⟨rest, same⟩ := valid
  rcases Nat.le_total f.offset f.chunk.length with inside | outside
  · refine ⟨rest, ?_⟩
    rw [unread, window, ← same, List.drop_append_of_le_length inside]
  · rw [unread, List.drop_eq_nil_of_le outside]
    exact List.nil_prefix

theorem valid_deliver (fits : chunk <+: buffer) : (f.deliver chunk buffer).Valid := fits

theorem valid_take (valid : f.Valid) : (f.take n).Valid := valid

/-- A read moves items from the unread ones. -/
theorem unread_take : (f.take n).unread = f.unread.drop n := by
  simp [unread, take, List.drop_drop]

/-- A delivery keeps a flow honest. -/
theorem honest_deliver (honest : f.Honest) : (f.deliver chunk buffer).Honest := by
  have returned : f.returned.Sublist f.received := (List.sublist_append_left _ _).trans honest
  simpa [Honest, deliver, unread] using returned.append (List.Sublist.refl chunk)

/-- A read inside the chunk keeps a flow honest. -/
theorem honest_take (valid : f.Valid) (honest : f.Honest) (inside : f.offset + n ≤ f.chunk.length) :
    (f.take n).Honest := by
  have enough : n ≤ f.unread.length := by
    simp only [unread, List.length_drop]
    omega
  have copied : f.window.take n = f.unread.take n := by
    obtain ⟨rest, same⟩ := unread_initial valid
    rw [← same, List.take_append_of_le_length enough]
  have whole : f.unread.take n ++ f.unread.drop n = f.unread := List.take_append_drop n _
  unfold Honest
  rw [unread_take]
  simp only [take, copied]
  rw [List.append_assoc, whole]
  exact honest

/-- A read keeps a flow complete. -/
theorem complete_take (valid : f.Valid) (complete : f.Complete) : (f.take n).Complete := by
  have copied : (f.unread.take n).Sublist (f.window.take n) :=
    ((unread_initial valid).take n).sublist
  have whole : f.unread.take n ++ f.unread.drop n = f.unread := List.take_append_drop n _
  unfold Complete
  rw [unread_take]
  simp only [take]
  apply complete.trans
  rw [List.append_assoc]
  have later : (f.unread.take n ++ f.unread.drop n).Sublist
      (f.window.take n ++ f.unread.drop n) := copied.append (List.Sublist.refl _)
  rw [whole] at later
  exact (List.Sublist.refl _).append later

/-- A delivery into a buffer whose chunk was read keeps a flow complete. -/
theorem complete_deliver (complete : f.Complete) (consumed : f.unread = []) :
    (f.deliver chunk buffer).Complete := by
  unfold Complete at complete
  rw [consumed, List.append_nil] at complete
  simpa [Complete, deliver, unread] using complete.append (List.Sublist.refl chunk)

/-- A delivery into a buffer with unread items loses them: an honest flow that was complete
stays complete exactly when there were none. -/
theorem complete_deliver_iff (honest : f.Honest) (complete : f.Complete) :
    (f.deliver chunk buffer).Complete ↔ f.unread = [] := by
  constructor
  · intro after
    have total : f.received.length = f.returned.length + f.unread.length := by
      rw [complete.antisymm honest, List.length_append]
    have bound := after.length_le
    simp only [deliver, unread, List.drop_zero, List.length_append] at bound
    apply List.length_eq_zero_iff.mp
    omega
  · exact complete_deliver complete

/-- In an honest flow what was returned was received. -/
theorem Honest.returned_sublist (honest : f.Honest) : f.returned.Sublist f.received :=
  (List.sublist_append_left _ _).trans honest

/-- In a complete flow what was received was returned or is in the window. -/
theorem Complete.received_sublist (valid : f.Valid) (complete : f.Complete) :
    f.received.Sublist (f.returned ++ f.window) :=
  complete.trans ((List.Sublist.refl _).append (unread_initial valid).sublist)

end ChunkFlow

/-! ## Consecutive reads -/

section Slices

variable {α : Type} {items : List α} {i n : Nat}

/-- The items from one position up to another. -/
def slice (items : List α) (i j : Nat) : List α := (items.take j).drop i

/-- What a read of some items returns when earlier reads asked for others. -/
theorem take_drop_slice :
    (items.drop i).take n = slice items (min i items.length) (min (i + n) items.length) := by
  have amount : min n (items.length - i) = min (i + n) items.length - min i items.length := by
    omega
  rw [List.take_eq_take_min, List.length_drop, amount, slice, List.drop_take,
    ← List.drop_eq_drop_min]

end Slices
