import Mathlib.Algebra.Order.Ring.Nat
import Mathlib.Tactic.Positivity
import Mathlib.Tactic.Ring

/-!
# Windows of a list and numbers in bytes

Memory that is read and written in place is a list. A window of it is read with `segment` and
replaced with `overwrite`, which keeps the length and everything outside the window. A number of
a fixed width lies in such a window with its least significant byte first.
-/

namespace Bytes

section Windows

variable {α : Type} {xs ys front back : List α} {i n : Nat}

/-- The window of a number of elements from a position. -/
def segment (xs : List α) (i n : Nat) : List α := (xs.drop i).take n

/-- The list with the window from a position replaced. -/
def overwrite (xs : List α) (i : Nat) (ys : List α) : List α :=
  xs.take i ++ ys ++ xs.drop (i + ys.length)

/-- A replaced window keeps the length. -/
theorem length_overwrite (inside : i + ys.length ≤ xs.length) :
    (overwrite xs i ys).length = xs.length := by
  simp only [overwrite, List.length_append, List.length_take, List.length_drop]
  omega

/-- A window has its length. -/
theorem length_segment (inside : i + n ≤ xs.length) : (segment xs i n).length = n := by
  simp only [segment, List.length_take, List.length_drop]
  omega

/-- A window behind a front part is a window of the rest. -/
theorem segment_append_right (front back : List α) (i n : Nat) :
    segment (front ++ back) (front.length + i) n = segment back i n := by
  rw [segment, segment, List.drop_append, List.drop_eq_nil_of_le (Nat.le_add_right _ _),
    List.nil_append, Nat.add_sub_cancel_left]

/-- The window of a front part. -/
theorem segment_left (front back : List α) : segment (front ++ back) 0 front.length = front := by
  simp [segment]

/-- Replacing behind a front part replaces in the rest. -/
theorem overwrite_append_right (front back : List α) (i : Nat) (ys : List α) :
    overwrite (front ++ back) (front.length + i) ys = front ++ overwrite back i ys := by
  simp [overwrite, List.take_append, List.drop_append, Nat.add_assoc, List.take_of_length_le]

/-- Replacing a front part as a whole. -/
theorem overwrite_left (same : ys.length = front.length) (back : List α) :
    overwrite (front ++ back) 0 ys = ys ++ back := by
  simp [overwrite, same]

/-- Up to its end, a replaced window is what was before it and what replaced it. -/
theorem take_overwrite (ys : List α) (inside : i ≤ xs.length) :
    (overwrite xs i ys).take (i + ys.length) = xs.take i ++ ys := by
  have length : (xs.take i ++ ys).length = i + ys.length := by
    rw [List.length_append, List.length_take, Nat.min_eq_left inside]
  rw [overwrite, ← length, List.take_left]

/-- From its start, a replaced window is what replaced it and what was behind it. -/
theorem drop_overwrite (ys : List α) (inside : i ≤ xs.length) :
    (overwrite xs i ys).drop i = ys ++ xs.drop (i + ys.length) := by
  have length : (xs.take i).length = i := by rw [List.length_take, Nat.min_eq_left inside]
  rw [overwrite, List.append_assoc]
  exact List.drop_left' length

/-- What is before a replaced window is the same. -/
theorem take_overwrite_of_le (ys : List α) (inside : i ≤ xs.length) {k : Nat} (before : k ≤ i) :
    (overwrite xs i ys).take k = xs.take k := by
  have short : k ≤ (xs.take i ++ ys).length := by
    rw [List.length_append, List.length_take]
    omega
  rw [overwrite, List.take_append_of_le_length short,
    List.take_append_of_le_length (by rw [List.length_take]; omega), List.take_take,
    Nat.min_eq_left before]

/-- Two windows one behind the other are replaced at once. -/
theorem overwrite_overwrite (ys zs : List α) (inside : i + ys.length ≤ xs.length) :
    overwrite (overwrite xs i ys) (i + ys.length) zs = overwrite xs i (ys ++ zs) := by
  have front : (xs.take i ++ ys).length = i + ys.length := by
    rw [List.length_append, List.length_take]
    omega
  have behind : (overwrite xs i ys).drop (i + ys.length + zs.length) =
      xs.drop (i + (ys ++ zs).length) := by
    rw [overwrite, ← front, List.drop_length_add_append, front, List.drop_drop, List.length_append,
      Nat.add_assoc]
  rw [overwrite, take_overwrite ys (by omega), behind, overwrite]
  simp only [List.append_assoc]

/-- The elements of a replaced window. -/
theorem getElem?_overwrite (ys : List α) (inside : i ≤ xs.length) {k : Nat}
    (within : k < ys.length) :
    (overwrite xs i ys)[i + k]? = ys[k]? := by
  have length : (xs.take i).length = i := by rw [List.length_take, Nat.min_eq_left inside]
  rw [overwrite, List.append_assoc, List.getElem?_append_right (by omega), length,
    Nat.add_sub_cancel_left, List.getElem?_append_left within]

end Windows

/-- The `w` lowest bytes of a number, the least significant first. -/
def little : Nat → Nat → List UInt8
  | 0, _ => []
  | w + 1, n => UInt8.ofNat n :: little w (n / 256)

/-- The number with the given bytes, the least significant first. -/
def value : List UInt8 → Nat
  | [] => 0
  | b :: bs => b.toNat + 256 * value bs

@[simp] theorem length_little (w n : Nat) : (little w n).length = w := by
  induction w generalizing n with
  | zero => rfl
  | succ w ih => rw [little, List.length_cons, ih]

/-- A number is read back modulo what fits into its bytes. -/
theorem value_little (w n : Nat) : value (little w n) = n % 256 ^ w := by
  induction w generalizing n with
  | zero => rw [little, value, pow_zero, Nat.mod_one]
  | succ w ih =>
    rw [little, value, ih, UInt8.toNat_ofNat', pow_succ' 256 w, Nat.mod_mul]

/-- A number that fits into its bytes is read back. -/
theorem value_little_of_lt {w n : Nat} (fits : n < 256 ^ w) : value (little w n) = n := by
  rw [value_little, Nat.mod_eq_of_lt fits]

/-- Bytes are those of their number. -/
theorem little_value (bs : List UInt8) : little bs.length (value bs) = bs := by
  induction bs with
  | nil => rfl
  | cons b bs ih =>
    have small : b.toNat < 256 := b.toNat_lt
    have first : UInt8.ofNat (b.toNat + 256 * value bs) = b := by
      rw [← UInt8.toNat_inj, UInt8.toNat_ofNat']
      omega
    have rest : (b.toNat + 256 * value bs) / 256 = value bs := by omega
    rw [List.length_cons, value, little, first, rest, ih]

/-- The number of some bytes is bounded by how many they are. -/
theorem value_lt (bs : List UInt8) : value bs < 256 ^ bs.length := by
  have read := value_little bs.length (value bs)
  rw [little_value] at read
  rw [read]
  exact Nat.mod_lt _ (by positivity)

end Bytes
