import Sherry.Model.StringFormat
import Sherry.Verif.StringEdits

/-!
# Decimal numbers

The digits are written from the last one on and reversed in place. What the buffer holds in the end
is the decimal text of the number, and the size of the buffer is just enough for every number of 64
bits.
-/

namespace Sherry

open Std.Do

set_option mvcgen.warning false

/-- The decimal text of a number. -/
def decimal (n : Nat) : List UInt8 := (Nat.toDigits 10 n).map fun c => UInt8.ofNat c.toNat

/-- The decimal text of a number with its sign. -/
def signedDecimal (value : Int) : List UInt8 :=
  if value < 0 then 45 :: decimal value.natAbs else decimal value.natAbs

/-- The byte of a digit. -/
def digitByte (d : Nat) : UInt8 := UInt8.ofNat (48 + d)

/-- The bytes of the digits that the decimal text is made of. -/
theorem digitByte_eq {d : Nat} (small : d < 10) :
    UInt8.ofNat (Nat.digitChar d).toNat = digitByte d := by
  have each : ∀ d < 10, UInt8.ofNat (Nat.digitChar d).toNat = digitByte d := by decide
  exact each d small

/-- A number below ten is one digit. -/
theorem decimal_of_lt {n : Nat} (small : n < 10) : decimal n = [digitByte n] := by
  rw [decimal, Nat.toDigits_of_lt_base small, List.map_singleton, digitByte_eq small]

/-- From ten on, the last digit follows the others. -/
theorem decimal_of_le {n : Nat} (large : 10 ≤ n) :
    decimal n = decimal (n / 10) ++ [digitByte (n % 10)] := by
  rw [decimal, Nat.toDigits_of_base_le (by decide) large, List.map_append, List.map_singleton,
    digitByte_eq (Nat.mod_lt n (by decide)), ← decimal]

/-- How long the decimal text is. -/
theorem length_decimal_le {n k : Nat} (positive : 0 < k) :
    (decimal n).length ≤ k ↔ n < 10 ^ k := by
  rw [decimal, List.length_map, Nat.length_toDigits_le_iff (by decide) positive]

/-- The decimal text is not empty. -/
theorem decimal_length_pos (n : Nat) : 0 < (decimal n).length := by
  rw [decimal, List.length_map]
  exact Nat.length_toDigits_pos

/-- A byte is assigned inside of the buffer. -/
theorem putByte_eq {buf : List UInt8} {i : Nat} (c : UInt8) (inside : i < buf.length) :
    putByte buf i c = pure (Bytes.overwrite buf i [c]) := by
  rw [putByte, if_pos inside, List.set_eq_take_append_cons_drop, if_pos inside]
  simp [Bytes.overwrite]

/-- The loop of the digits writes them in reverse, as far as the buffer has room for them. -/
theorem putDigits_eq {left p : Nat} (buf : List UInt8) (v : UInt64)
    (rest : p + left = buf.length) (enough : (decimal v.toNat).length ≤ left) :
    putDigits left buf p v =
      pure (Bytes.overwrite buf p (decimal v.toNat).reverse, p + (decimal v.toNat).length) := by
  induction left generalizing buf p v with
  | zero =>
    have some_digit := decimal_length_pos v.toNat
    omega
  | succ left ih =>
    have digit : 48 + (v % 10).toUInt8 = digitByte (v.toNat % 10) := by
      rw [← UInt8.toNat_inj, UInt8.toNat_add, UInt64.toNat_toUInt8, UInt64.toNat_mod, digitByte,
        UInt8.toNat_ofNat']
      simp
    have quotient : (v / 10).toNat = v.toNat / 10 := UInt64.toNat_div v 10
    rw [putDigits, putByte_eq _ (by omega), pure_bind, digit]
    by_cases small : v.toNat < 10
    · have last : v / 10 = 0 := by
        rw [← UInt64.toNat_inj, quotient]
        exact Nat.div_eq_of_lt small
      rw [if_pos last, decimal_of_lt small, Nat.mod_eq_of_lt small]
      rfl
    · have more : v / 10 ≠ 0 := by
        intro none_left
        rw [none_left] at quotient
        have zero : (0 : UInt64).toNat = 0 := rfl
        omega
      have large := decimal_of_le (not_lt.mp small)
      rw [← quotient] at large
      have fewer : (decimal (v / 10).toNat).length ≤ left := by
        rw [large, List.length_append, List.length_singleton] at enough
        omega
      have behind := Bytes.overwrite_overwrite [digitByte (v.toNat % 10)]
        (decimal (v / 10).toNat).reverse (show p + 1 ≤ buf.length by omega)
      have length : (Bytes.overwrite buf p [digitByte (v.toNat % 10)]).length = buf.length :=
        Bytes.length_overwrite (show p + 1 ≤ buf.length by omega)
      rw [if_neg more, ih _ (v / 10) (by omega) fewer, large, List.reverse_append,
        List.length_append, List.reverse_singleton, ← behind]
      simp [Nat.add_assoc, Nat.add_comm 1]

/-- The reversal ends where the two ends meet. -/
theorem swapBytes_of_le {buf : List UInt8} {i p : Nat} (met : p ≤ i) : swapBytes buf i p = buf := by
  cases p with
  | zero => rfl
  | succ p => rw [swapBytes, if_neg (by omega)]

/-- The reversal exchanges the two ends and goes on between them. -/
theorem swapBytes_ends (before mid after : List UInt8) (x y : UInt8) :
    swapBytes (before ++ (x :: (mid ++ [y])) ++ after) before.length
        (before.length + mid.length + 1) =
      swapBytes (before ++ [y] ++ mid ++ (x :: after)) (before ++ [y]).length
        (before.length + mid.length) := by
  have first : (before ++ (x :: (mid ++ [y])) ++ after).getD before.length 0 = x := by
    simp [List.getD]
  have last : (before ++ (x :: (mid ++ [y])) ++ after).getD (before.length + mid.length + 1) 0 =
      y := by
    simp [List.getD, Nat.add_assoc]
  rw [swapBytes, if_pos (by omega), first, last]
  simp [Nat.add_assoc]

/-- Reversing in place. -/
theorem swapBytes_eq (before mid after : List UInt8) :
    swapBytes (before ++ mid ++ after) before.length (before.length + mid.length - 1) =
      before ++ mid.reverse ++ after := by
  induction mid using List.bidirectionalRec generalizing before after with
  | nil => exact (swapBytes_of_le (by simp)).trans (by simp)
  | singleton x => exact (swapBytes_of_le (by simp)).trans (by simp)
  | cons_append x mid y ih =>
    have inner := ih (before ++ [y]) (x :: after)
    have end_ : (before ++ [y]).length + mid.length - 1 = before.length + mid.length := by
      rw [List.length_append, List.length_singleton]
      omega
    have start : before.length + (x :: (mid ++ [y])).length - 1 =
        before.length + mid.length + 1 := by
      simp only [List.length_cons, List.length_append, List.length_nil]
      omega
    rw [end_] at inner
    rw [start, swapBytes_ends, inner]
    simp

/-- The end of a number reverses its digits and terminates them. -/
theorem endNumber_eq (buf digits : List UInt8)
    (room : digits.length < buf.length) :
    endNumber (Bytes.overwrite buf 0 digits) digits.length =
      pure (Bytes.overwrite buf 0 (digits.reverse ++ [0]), digits.length) := by
  have length : (Bytes.overwrite buf 0 digits).length = buf.length :=
    Bytes.length_overwrite (by omega)
  have reversed := swapBytes_eq [] digits (0 :: buf.drop (digits.length + 1))
  have terminated := Bytes.overwrite_overwrite digits [0]
    (show 0 + digits.length ≤ buf.length by omega)
  rw [Nat.zero_add] at terminated
  have shape : ∀ ys : List UInt8, ys.length = digits.length →
      Bytes.overwrite buf 0 (ys ++ [0]) = ys ++ 0 :: buf.drop (digits.length + 1) := by
    intro ys same
    simp [Bytes.overwrite, same]
  rw [endNumber, putByte_eq 0 (by omega), pure_bind, terminated, shape digits rfl,
    shape digits.reverse List.length_reverse]
  simp only [List.nil_append, List.length_nil, Nat.zero_add] at reversed
  rw [reversed]

/-- `sdsull2str` writes the decimal text into a buffer with room for it and the terminator. -/
theorem sdsull2str_eq {buf : List UInt8} (v : UInt64)
    (room : (decimal v.toNat).length < buf.length) :
    sdsull2str buf v =
      pure (Bytes.overwrite buf 0 (decimal v.toNat ++ [0]), (decimal v.toNat).length) := by
  have digits := putDigits_eq (p := 0) buf v (Nat.zero_add _) room.le
  rw [sdsull2str, digits, pure_bind, Nat.zero_add]
  have ended := endNumber_eq buf (decimal v.toNat).reverse (by simpa using room)
  simpa using ended

/-- The magnitude of a number. -/
theorem magnitude_eq (value : Int64) : (magnitude value).toNat = value.toInt.natAbs := by
  have bits : value.toInt = if 2 * value.toUInt64.toNat < 2 ^ 64 then
      (value.toUInt64.toNat : Int) else value.toUInt64.toNat - 2 ^ 64 :=
    BitVec.toInt_eq_toNat_cond value.toBitVec
  have range := value.toUInt64.toNat_lt
  have sign : value < 0 ↔ value.toInt < 0 := Int64.lt_iff_toInt_lt
  unfold magnitude
  split_ifs with negative least
  · have below := sign.mp negative
    rw [Int64.toUInt64_neg, UInt64.toNat_neg, UInt64.size]
    split_ifs at bits <;> omega
  · obtain rfl := not_not.mp least
    decide
  · have above := sign.not.mp negative
    split_ifs at bits <;> omega

/-- `sdsll2str` writes the decimal text into a buffer with room for it and the terminator. -/
theorem sdsll2str_eq {buf : List UInt8} (value : Int64)
    (room : (signedDecimal value.toInt).length < buf.length) :
    sdsll2str buf value =
      pure (Bytes.overwrite buf 0 (signedDecimal value.toInt ++ [0]),
        (signedDecimal value.toInt).length) := by
  have sign : value < 0 ↔ value.toInt < 0 := Int64.lt_iff_toInt_lt
  have digits : (decimal value.toInt.natAbs).length ≤ buf.length →
      putDigits buf.length buf 0 (magnitude value) =
        pure (Bytes.overwrite buf 0 (decimal value.toInt.natAbs).reverse,
          (decimal value.toInt.natAbs).length) := by
    intro enough
    rw [← magnitude_eq] at enough ⊢
    simpa using putDigits_eq (p := 0) _ (magnitude value) (Nat.zero_add _) enough
  rw [signedDecimal] at room ⊢
  by_cases negative : value.toInt < 0
  · rw [if_pos negative] at room ⊢
    rw [List.length_cons] at room
    have signed := @Bytes.overwrite_overwrite _ buf 0
      (decimal value.toInt.natAbs).reverse [45] (by rw [List.length_reverse]; omega)
    have length : (Bytes.overwrite buf 0 (decimal value.toInt.natAbs).reverse).length =
        buf.length := Bytes.length_overwrite (by rw [List.length_reverse]; omega)
    have ended := endNumber_eq buf ((decimal value.toInt.natAbs).reverse ++ [45])
      (by simpa using room)
    rw [Nat.zero_add, List.length_reverse] at signed
    rw [List.length_append, List.length_reverse, List.length_singleton, List.reverse_append,
      List.reverse_reverse, List.reverse_singleton, List.singleton_append] at ended
    simp only [sdsll2str, digits (by omega), pure_bind, if_pos (sign.mpr negative)]
    rw [putByte_eq 45 (by omega), pure_bind, signed, ended, List.length_cons]
  · rw [if_neg negative] at room ⊢
    have ended := endNumber_eq buf (decimal value.toInt.natAbs).reverse
      (by simpa using room)
    rw [List.length_reverse, List.reverse_reverse] at ended
    simp only [sdsll2str, digits room.le, pure_bind, if_neg (sign.not.mpr negative)]
    rw [ended]

/-- The loop of the digits runs out of a buffer that has no room for them. -/
theorem putDigits_overrun {left p : Nat} {buf : List UInt8} (v : UInt64)
    (rest : p + left = buf.length) (short : left < (decimal v.toNat).length) :
    putDigits left buf p v = throw .overrun := by
  induction left generalizing buf p v with
  | zero => rfl
  | succ left ih =>
    have quotient : (v / 10).toNat = v.toNat / 10 := UInt64.toNat_div v 10
    have large : 10 ≤ v.toNat := by
      by_contra small
      rw [decimal_of_lt (not_le.mp small), List.length_singleton] at short
      omega
    have more : v / 10 ≠ 0 := by
      intro none_left
      rw [none_left] at quotient
      have zero : (0 : UInt64).toNat = 0 := rfl
      omega
    have length : (Bytes.overwrite buf p [48 + (v % 10).toUInt8]).length = buf.length :=
      Bytes.length_overwrite (by simp; omega)
    have fewer := congrArg List.length (decimal_of_le large)
    rw [← quotient, List.length_append, List.length_singleton] at fewer
    rw [putDigits, putByte_eq _ (by omega), pure_bind, if_neg more]
    exact ih (v / 10) (by omega) (by omega)

/-- A byte outside of the buffer is not assigned. -/
theorem putByte_overrun {buf : List UInt8} {i : Nat} (c : UInt8) (outside : buf.length ≤ i) :
    putByte buf i c = throw .overrun := by
  rw [putByte, if_neg (not_lt.mpr outside)]

/-- `sdsll2str` runs out of a buffer that has no room for the decimal text and the terminator. -/
theorem sdsll2str_overrun {buf : List UInt8} (value : Int64)
    (short : buf.length ≤ (signedDecimal value.toInt).length) :
    sdsll2str buf value = throw .overrun := by
  have sign : value < 0 ↔ value.toInt < 0 := Int64.lt_iff_toInt_lt
  have magnitude := magnitude_eq value
  by_cases digits : buf.length < (decimal value.toInt.natAbs).length
  · rw [← magnitude] at digits
    rw [sdsll2str, putDigits_overrun _ (Nat.zero_add _) digits, Allocating.throw_bind]
  · rw [not_lt, ← magnitude] at digits
    have written := putDigits_eq (p := 0) _ _ (Nat.zero_add _) digits
    have length : (Bytes.overwrite buf 0 (decimal (Sherry.magnitude value).toNat).reverse).length =
        buf.length := Bytes.length_overwrite (by rw [List.length_reverse]; omega)
    rw [signedDecimal, ← magnitude] at short
    simp only [sdsll2str, written, pure_bind, Nat.zero_add]
    by_cases negative : value.toInt < 0
    · rw [if_pos negative, List.length_cons] at short
      rw [if_pos (sign.mpr negative)]
      by_cases sign_fits : (decimal (Sherry.magnitude value).toNat).length < buf.length
      · have signed : (Bytes.overwrite (Bytes.overwrite buf 0
            (decimal (Sherry.magnitude value).toNat).reverse)
            (decimal (Sherry.magnitude value).toNat).length [45]).length = buf.length := by
          rw [Bytes.length_overwrite (by rw [length, List.length_singleton]; omega), length]
        rw [putByte_eq 45 (by omega), pure_bind, endNumber, putByte_overrun 0 (by omega),
          Allocating.throw_bind]
      · rw [putByte_overrun 45 (by omega), Allocating.throw_bind]
    · rw [if_neg negative] at short
      rw [if_neg (sign.not.mpr negative), endNumber, putByte_overrun 0 (by omega),
        Allocating.throw_bind]

/-- `sdsll2str` writes the decimal text and the terminator into a buffer with room for them, and
runs out of any other buffer. -/
theorem sdsll2str_total (buf : List UInt8) (value : Int64) :
    sdsll2str buf value =
      if (signedDecimal value.toInt).length < buf.length then
        pure (Bytes.overwrite buf 0 (signedDecimal value.toInt ++ [0]),
          (signedDecimal value.toInt).length)
      else throw .overrun := by
  split_ifs with room
  · exact sdsll2str_eq value room
  · exact sdsll2str_overrun value (not_lt.mp room)

/-- The decimal text of a number of 64 bits and its terminator fit into the buffer. -/
theorem decimal_fits (v : UInt64) : (decimal v.toNat).length < sdsLlstrSize := by
  have small := v.toNat_lt
  have digits : (decimal v.toNat).length ≤ 20 := (length_decimal_le (by decide)).mpr (by omega)
  rw [sdsLlstrSize]
  omega

/-- The decimal text of a signed number of 64 bits and its terminator fit into the buffer. -/
theorem signedDecimal_fits (value : Int64) :
    (signedDecimal value.toInt).length < sdsLlstrSize := by
  have above := value.le_toInt
  have below := value.toInt_lt
  have digits : (decimal value.toInt.natAbs).length ≤ 19 :=
    (length_decimal_le (by decide)).mpr (by omega)
  rw [signedDecimal, sdsLlstrSize]
  split_ifs
  · rw [List.length_cons]
    omega
  · omega

/-- The number that some digits say. -/
def readDigits (digits : List UInt8) : Nat :=
  Nat.ofDigitChars 10 (digits.map fun c => Char.ofNat c.toNat) 0

/-- The number that a decimal text with a sign says. -/
def readDecimal (text : List UInt8) : Int :=
  if text.head? = some 45 then -readDigits text.tail else readDigits text

/-- The digits of the decimal text have the codes of digits. -/
theorem digit_range {n : Nat} {d : Char} (digit : d ∈ Nat.toDigits 10 n) :
    48 ≤ d.toNat ∧ d.toNat ≤ 57 :=
  Char.isDigit_iff_toNat.mp (Nat.isDigit_of_mem_toDigits (by decide) (by decide) digit)

/-- No byte of the decimal text is a sign. -/
theorem decimal_no_sign (n : Nat) : 45 ∉ decimal n := by
  intro member
  obtain ⟨d, digit, sign⟩ := List.mem_map.mp member
  have range := digit_range digit
  have code := congrArg UInt8.toNat sign
  rw [UInt8.toNat_ofNat'] at code
  have value : (45 : UInt8).toNat = 45 := rfl
  omega

/-- The decimal text tells the number. -/
theorem readDigits_decimal (n : Nat) : readDigits (decimal n) = n := by
  have back : ∀ d ∈ Nat.toDigits 10 n,
      ((fun c => Char.ofNat c.toNat) ∘ fun d => UInt8.ofNat d.toNat) d = id d := by
    intro d digit
    have range := digit_range digit
    show Char.ofNat (UInt8.ofNat d.toNat).toNat = d
    rw [UInt8.toNat_ofNat', Nat.mod_eq_of_lt (by omega), Char.ofNat_toNat]
  rw [readDigits, decimal, List.map_map, List.map_congr_left back, List.map_id,
    Nat.ofDigitChars_ten_toDigits]

/-- The decimal text with a sign tells the number. -/
theorem readDecimal_signedDecimal (value : Int) : readDecimal (signedDecimal value) = value := by
  rw [readDecimal, signedDecimal]
  split_ifs with negative head head
  · rw [List.tail_cons, readDigits_decimal]
    omega
  · simp at head
  · exact absurd (List.mem_of_mem_head? head) (decimal_no_sign _)
  · rw [readDigits_decimal]
    omega

end Sherry
