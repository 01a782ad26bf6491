import Mathlib.Algebra.BigOperators.Ring.Finset
import Mathlib.Data.Nat.Digits.Defs
import StackLift.Operator
import StackLift.Word

/-!
# Words as Numbers

Words and bytes read as natural numbers.

`Word.ofBytes` and `Word.toBytes` work by shifting, one byte after the other,
which is how a word is put together but not what it is. Seen as a number, a word
is the value of its bytes as digits to the base 256, the least significant
first, and its byte at a position is the digit there. The operators are treated
in the same way: each of them is arithmetic on numbers whose result is cut to 64
bits.

## Main definitions

* `Operator.onNumbers`: The operator on numbers, before the result is cut.

## Theorems

* `toNat_ofBytes`: A word is the value of its bytes as digits.
* `getElem_toBytes`: A byte of a word is a digit.
* `ofDigits_eq_sum`: The value of bytes as digits, place by place.
* `toNat_ofBytes_toBytes`: A word made up of the low bytes of another.
* `toBytes_ofBytes`: The bytes that a word is made up of.
* `toNat_and_mask`: Cutting a word to a width keeps so many of its digits.
* `and_mask_of_lt`: A word that fits a width is not cut to it.
* `apply_eq_ofNat`: The operators are arithmetic on numbers.
-/

namespace StackLift

namespace Word

/-- A word is the value of its bytes as digits to the base 256, as far as it has
    room for them. -/
theorem toNat_ofBytes (bs : List UInt8) :
    (ofBytes bs).toNat = Nat.ofDigits 256 (bs.map UInt8.toNat) % 2 ^ 64 := by
  induction bs with
  | nil => rfl
  | cons b bs ih =>
      have hb : b.toNat < 2 ^ 8 := b.toNat_lt
      -- The shifted word is a multiple of 256, so the new byte is added below it.
      have hshift : (ofBytes bs).toNat <<< 8 % 2 ^ 64
          = 2 ^ 8 * (Nat.ofDigits 256 (bs.map UInt8.toNat) % 2 ^ 56) := by
        rw [ih, Nat.shiftLeft_eq]
        omega
      have hcase : (ofBytes (b :: bs)).toNat = (ofBytes bs).toNat <<< 8 % 2 ^ 64 ||| b.toNat := by
        simp only [ofBytes, UInt64.toNat_or, UInt64.toNat_shiftLeft, UInt8.toNat_toUInt64,
          UInt64.reduceToNat, Nat.reduceMod]
      rw [hcase, hshift, ← Nat.two_pow_add_eq_or_of_lt hb, List.map_cons, Nat.ofDigits_cons]
      omega

/-- A word shifted by bytes has lost so many digits. It cannot lose more than seven, since
    the count of a shift starts over at eight bytes. -/
theorem toNat_shiftRight_bytes (w : UInt64) (k : Nat) :
    (w >>> UInt64.ofNat (8 * k)).toNat = w.toNat / 256 ^ (k % 8) := by
  have hcount : 8 * k % 2 ^ 64 % 64 = 8 * (k % 8) := by omega
  rw [UInt64.toNat_shiftRight, UInt64.toNat_ofNat', hcount, Nat.shiftRight_eq_div_pow,
    Nat.pow_mul]

/-- The byte of a word at a position is its digit there. -/
theorem getElem_toBytes {n i : Nat} {w : UInt64} (h : i < (toBytes n w).length) :
    (toBytes n w)[i] = UInt8.ofNat (w.toNat / 256 ^ (i % 8)) := by
  refine UInt8.toNat_inj.mp ?_
  simp only [toBytes, List.getElem_map, List.getElem_range, UInt64.toNat_toUInt8,
    toNat_shiftRight_bytes, UInt8.toNat_ofNat']

example : toBytes 10 0x1122334455667788 =
    [0x88, 0x77, 0x66, 0x55, 0x44, 0x33, 0x22, 0x11, 0x88, 0x77] := by decide

theorem lt_of_mem_map_toNat {bs : List UInt8} : ∀ x ∈ bs.map UInt8.toNat, x < 256 := by
  intro x hx
  rcases List.mem_map.mp hx with ⟨b, _, rfl⟩
  exact b.toNat_lt

theorem ofDigits_lt (bs : List UInt8) :
    Nat.ofDigits 256 (bs.map UInt8.toNat) < 256 ^ bs.length := by
  have hlt : ∀ x ∈ bs.map UInt8.toNat, x < 256 := lt_of_mem_map_toNat
  have hdigits := Nat.ofDigits_lt_base_pow_length (by decide) hlt
  rwa [List.length_map] at hdigits

/-- Eight bytes have room in a word, so nothing of their value is cut off. -/
theorem toNat_ofBytes_of_length_le {bs : List UInt8} (h : bs.length ≤ 8) :
    (ofBytes bs).toNat = Nat.ofDigits 256 (bs.map UInt8.toNat) := by
  rw [toNat_ofBytes]
  exact Nat.mod_eq_of_lt (Nat.lt_of_lt_of_le (ofDigits_lt bs) (Nat.pow_le_pow_right (by decide) h))

/-- The value of bytes as digits, place by place. -/
theorem ofDigits_eq_sum (bs : List UInt8) :
    Nat.ofDigits 256 (bs.map UInt8.toNat) =
      ∑ k ∈ Finset.range bs.length, (bs.getD k 0).toNat * 256 ^ k := by
  induction bs with
  | nil => rfl
  | cons b bs ih =>
      -- The bytes behind the first are one place further up.
      have hplaces : ∑ k ∈ Finset.range bs.length, (bs.getD k 0).toNat * 256 ^ (k + 1) =
          256 * ∑ k ∈ Finset.range bs.length, (bs.getD k 0).toNat * 256 ^ k := by
        rw [Finset.mul_sum]
        refine Finset.sum_congr rfl fun k _ => ?_
        rw [Nat.pow_succ, Nat.mul_comm 256, Nat.mul_assoc]
      rw [List.map_cons, Nat.ofDigits_cons, List.length_cons, Finset.sum_range_succ', ih]
      simp only [List.getD_cons_succ, List.getD_cons_zero, hplaces, Nat.pow_zero, Nat.mul_one]
      exact Nat.add_comm _ _

/-- The low bytes of a word are its low digits. -/
theorem ofDigits_toBytes {n : Nat} (h : n ≤ 8) (w : UInt64) :
    Nat.ofDigits 256 ((toBytes n w).map UInt8.toNat) = w.toNat % 256 ^ n := by
  induction n with
  | zero => exact (Nat.mod_one w.toNat).symm
  | succ n ih =>
      -- One byte more is one digit more, at the upper end.
      have hsnoc : toBytes (n + 1) w = toBytes n w ++ [(w >>> UInt64.ofNat (8 * n)).toUInt8] := by
        rw [toBytes, List.range_succ, List.map_append, List.map_singleton, ← toBytes]
      have hdigit : (w >>> UInt64.ofNat (8 * n)).toUInt8.toNat = w.toNat / 256 ^ n % 256 := by
        rw [UInt64.toNat_toUInt8, toNat_shiftRight_bytes, Nat.mod_eq_of_lt (Nat.lt_of_succ_le h)]
      rw [hsnoc, List.map_append, List.map_singleton, Nat.ofDigits_append, Nat.ofDigits_singleton,
        List.length_map, length_toBytes, ih (Nat.le_of_succ_le h), hdigit, Nat.mod_pow_succ]

/-- A word is made up of its low bytes again, and the others are zero. -/
theorem toNat_ofBytes_toBytes {n : Nat} (h : n ≤ 8) (w : UInt64) :
    (ofBytes (toBytes n w)).toNat = w.toNat % 256 ^ n := by
  have hlt : w.toNat % 256 ^ n < 2 ^ 64 := Nat.lt_of_le_of_lt (Nat.mod_le _ _) w.toNat_lt
  rw [toNat_ofBytes, ofDigits_toBytes h, Nat.mod_eq_of_lt hlt]

/-- Eight bytes at most are the low bytes of the word that they make up. -/
theorem toBytes_ofBytes {bs : List UInt8} (h : bs.length ≤ 8) :
    toBytes bs.length (ofBytes bs) = bs := by
  have hvalue : Nat.ofDigits 256 ((toBytes bs.length (ofBytes bs)).map UInt8.toNat) =
      Nat.ofDigits 256 (bs.map UInt8.toNat) := by
    rw [ofDigits_toBytes h, toNat_ofBytes_of_length_le h, Nat.mod_eq_of_lt (ofDigits_lt bs)]
  -- Sequences of one length have different values unless they are the same.
  have hmaps := Nat.ofDigits_inj_of_len_eq (by decide)
    (by rw [List.length_map, List.length_map, length_toBytes])
    lt_of_mem_map_toNat lt_of_mem_map_toNat hvalue
  exact (List.map_inj_right fun _ _ => UInt8.toNat_inj.mp).mp hmaps

theorem toNat_ofBytes_lt (bs : List UInt8) : (ofBytes bs).toNat < 256 ^ bs.length := by
  rw [toNat_ofBytes]
  exact Nat.lt_of_le_of_lt (Nat.mod_le _ _) (ofDigits_lt bs)

/-- Cutting a word to a width keeps so many of its digits. -/
theorem toNat_and_mask (w : UInt64) {width : UInt64} (h : width ≤ 8) :
    (w &&& mask width).toNat = w.toNat % 256 ^ width.toNat := by
  have hw : w.toNat < 2 ^ 64 := w.toNat_lt
  have hpow : 256 ^ width.toNat = 2 ^ (8 * width.toNat) := by rw [Nat.pow_mul]
  have hmask : (mask width).toNat = 2 ^ (8 * width.toNat) - 1 := by
    have hle : width.toNat ≤ 8 := UInt64.le_iff_toNat_le.mp h
    unfold mask
    by_cases hfull : 8 ≤ width
    · have heq : width.toNat = 8 := Nat.le_antisymm hle (UInt64.le_iff_toNat_le.mp hfull)
      rw [if_pos hfull, heq]
      rfl
    · -- A narrower mask is one below a power of two that still fits into a word.
      have hlt : width.toNat < 8 := Nat.lt_of_not_le fun hc => hfull (UInt64.le_iff_toNat_le.mpr hc)
      have hsmall : 2 ^ (8 * width.toNat) < 2 ^ 64 :=
        Nat.pow_lt_pow_right (by decide) (by omega)
      have hpos : 0 < 2 ^ (8 * width.toNat) := Nat.two_pow_pos _
      rw [if_neg hfull]
      simp only [UInt64.toNat_sub, UInt64.toNat_shiftLeft, UInt64.toNat_mul, UInt64.reduceToNat,
        Nat.shiftLeft_eq, Nat.one_mul, Nat.mul_comm width.toNat 8]
      rw [Nat.mod_eq_of_lt (by omega : 8 * width.toNat < 2 ^ 64),
        Nat.mod_eq_of_lt (by omega : 8 * width.toNat < 64), Nat.mod_eq_of_lt hsmall]
      omega
  rw [UInt64.toNat_and, hmask, Nat.and_two_pow_sub_one_eq_mod, hpow]

@[simp] theorem and_mask (w : UInt64) : w &&& mask 8 = w := by
  refine UInt64.toNat_inj.mp ?_
  rw [toNat_and_mask w (by decide)]
  exact Nat.mod_eq_of_lt w.toNat_lt

/-- A word that fits a width is not cut to it. -/
theorem and_mask_of_lt {w width : UInt64} (h : w.toNat < 2 ^ (8 * width.toNat)) :
    w &&& mask width = w := by
  by_cases hle : width ≤ 8
  · refine UInt64.toNat_inj.mp ?_
    rw [toNat_and_mask w hle]
    refine Nat.mod_eq_of_lt ?_
    rwa [Nat.pow_mul] at h
  · -- A width beyond that of a word cuts as little as that of a word does.
    have hmask : mask width = mask 8 := if_pos (UInt64.le_of_lt (UInt64.not_le.mp hle))
    rw [hmask, and_mask]

end Word

namespace Operator

/-- The operator on numbers, before the result is cut to 64 bits. A difference is
    taken modulo 2^64, and a shift by 64 or more leaves nothing. -/
def onNumbers : Operator → Nat → Nat → Nat
  | add, a, b => a + b
  | mul, a, b => a * b
  | or, a, b => a ||| b
  | and, a, b => a &&& b
  | sub, a, b => a + (2 ^ 64 - b)
  | shl, a, b => if b < 64 then a * 2 ^ b else 0
  | lsr, a, b => if b < 64 then a / 2 ^ b else 0

/-- The operators are arithmetic on numbers, cut to 64 bits. -/
theorem apply_eq_ofNat (op : Operator) (a b : UInt64) :
    op.apply a b = UInt64.ofNat (op.onNumbers a.toNat b.toNat) := by
  have hb : b.toNat < 2 ^ 64 := b.toNat_lt
  have hle : 64 ≤ b ↔ ¬b.toNat < 64 := by
    simp only [UInt64.le_iff_toNat_le, UInt64.reduceToNat, Nat.not_lt]
  refine UInt64.toNat_inj.mp ?_
  cases op with
  | add => simp only [apply, onNumbers, UInt64.toNat_add, UInt64.toNat_ofNat']
  | mul => simp only [apply, onNumbers, UInt64.toNat_mul, UInt64.toNat_ofNat']
  | or =>
      simp only [apply, onNumbers, UInt64.toNat_or, UInt64.toNat_ofNat']
      exact (Nat.mod_eq_of_lt (Nat.or_lt_two_pow a.toNat_lt hb)).symm
  | and =>
      simp only [apply, onNumbers, UInt64.toNat_and, UInt64.toNat_ofNat']
      exact (Nat.mod_eq_of_lt (Nat.and_lt_two_pow _ hb)).symm
  | sub =>
      simp only [apply, onNumbers, UInt64.toNat_sub, UInt64.toNat_ofNat']
      rw [Nat.add_comm]
  | shl =>
      simp only [apply, onNumbers, hle]
      -- A shift within the word is a power of two, a longer one leaves nothing.
      by_cases h : b.toNat < 64
      · simp only [h, not_true_eq_false, if_false, if_true, UInt64.toNat_shiftLeft,
          UInt64.toNat_ofNat', Nat.mod_eq_of_lt h, Nat.shiftLeft_eq]
      · simp only [h, not_false_eq_true, if_true, if_false]
        rfl
  | lsr =>
      simp only [apply, onNumbers, hle]
      by_cases h : b.toNat < 64
      · simp only [h, not_true_eq_false, if_false, if_true, UInt64.toNat_shiftRight,
          UInt64.toNat_ofNat', Nat.mod_eq_of_lt h, Nat.shiftRight_eq_div_pow]
        exact (Nat.mod_eq_of_lt (Nat.lt_of_le_of_lt (Nat.div_le_self _ _) a.toNat_lt)).symm
      · simp only [h, not_false_eq_true, if_true, if_false]
        rfl

end Operator

end StackLift
