import Mathlib.Data.Int.ModEq
import Mathlib.Tactic.NormNum
import StackLift.Machine.Basic
import StackLift.Proofs.Memory

/-!
# Exact Arithmetic

What an expression computes, as arithmetic on integers.

An operator works on words of 64 bits and its result is cut once more, to the width that
stands with it. So there are two places where something is lost, and a third where a long
shift is taken for no bits at all. `toNat_eval_binary` says that nothing else happens: the
value is what the operator gives on the integers, modulo 2^8 for every byte of the width.
A shift by any number of bits is a product or a quotient by a power of two, and where that
power is 2^64 or more the two already agree.

Sums, products and differences may then be nested. They keep congruences, so it does not
matter that every operand has been cut before it is used, as long as all of them have been
cut to one width: a whole polynomial can be computed on the integers and reduced at the end.
What it is computed from are the values of the leaves, which is where registers are read and
values are taken off the stack. Their order is that of the text, and computing the leaves one
after the other leads to the same machine as computing the expression.

## Main definitions

* `Operator.onIntegers`: The operator on integers, before anything is cut off.
* `Expression.leaves`: The operands that no operator has computed.
* `Expression.polynomial`: The expression on integers, from the values of its leaves.
* `Machine.evalAll`: The values of expressions, one after the other.

## Theorems

* `onNumbers_modEq`: On words the operators are arithmetic modulo 2^64.
* `toNat_eval_lt`: A value has room in its width.
* `toNat_eval_binary`: The value of an operator, modulo its width.
* `eval_modEq_polynomial`: The value of a polynomial, modulo its width.
* `eval_exact`: Both of them as remainders.
-/

namespace StackLift

namespace Operator

/-- The operator on integers, before anything is cut off. Bits are those of natural numbers,
    and a shift is a product or a quotient by a power of two. -/
def onIntegers : Operator → Int → Int → Int
  | add, a, b => a + b
  | mul, a, b => a * b
  | or, a, b => (a.toNat ||| b.toNat : Nat)
  | and, a, b => (a.toNat &&& b.toNat : Nat)
  | sub, a, b => a - b
  | shl, a, b => a * 2 ^ b.toNat
  | lsr, a, b => a / 2 ^ b.toNat

/-- The operator is one that polynomials are made with. -/
def isRing : Operator → Bool
  | add | mul | sub => true
  | or | and | shl | lsr => false

/-- The operators on words are arithmetic modulo 2^64. -/
theorem onNumbers_modEq (op : Operator) {a b : Nat} (ha : a < 2 ^ 64) (hb : b < 2 ^ 64) :
    (op.onNumbers a b : Int) ≡ op.onIntegers a b [ZMOD 2 ^ 64] := by
  cases op with
  | add => exact .rfl
  | mul => exact .rfl
  | or => exact .rfl
  | and => exact .rfl
  | sub =>
      refine Int.modEq_iff_dvd.mpr ⟨-1, ?_⟩
      simp only [onNumbers, onIntegers]
      omega
  | shl =>
      simp only [onNumbers, onIntegers, Int.toNat_natCast]
      by_cases h : b < 64
      · rw [if_pos h]
        push_cast
        exact .rfl
      · -- All that is left of the shifted bits stands above the word.
        rw [if_neg h]
        have hdvd : (2 : Int) ^ 64 ∣ a * 2 ^ b :=
          Dvd.dvd.mul_left (pow_dvd_pow 2 (Nat.le_of_not_lt h)) _
        exact (Int.modEq_zero_iff_dvd.mpr hdvd).symm
  | lsr =>
      simp only [onNumbers, onIntegers, Int.toNat_natCast]
      by_cases h : b < 64
      · rw [if_pos h]
        push_cast
        exact .rfl
      · have hzero : a / 2 ^ b = 0 := Nat.div_eq_of_lt (Nat.lt_of_lt_of_le ha
          (Nat.pow_le_pow_right (by decide) (Nat.le_of_not_lt h)))
        rw [if_neg h, ← hzero]
        push_cast
        exact .rfl

theorem onIntegers_modEq_of_isRing {op : Operator} (h : op.isRing = true) {a b c d n : Int}
    (hac : a ≡ c [ZMOD n]) (hbd : b ≡ d [ZMOD n]) :
    op.onIntegers a b ≡ op.onIntegers c d [ZMOD n] := by
  cases op with
  | add => exact hac.add hbd
  | mul => exact hac.mul hbd
  | sub => exact hac.sub hbd
  | _ => contradiction

end Operator

namespace Expression

/-- The width under which the value of the expression is taken. -/
def width : Expression → UInt64
  | const width _ | reg width _ | pop width | load width _ | binary _ width _ _ => width

/-- The operands that no operator has computed, from left to right. A load is one of them,
    wherever its address comes from. -/
def leaves : Expression → List Expression
  | const width value => [const width value]
  | reg width r => [reg width r]
  | pop width => [pop width]
  | load width address => [load width address]
  | binary _ _ left right => left.leaves ++ right.leaves

/-- All operators are sums, products and differences, and of one width. -/
def isPolynomial (w : UInt64) : Expression → Bool
  | const _ _ | reg _ _ | pop _ | load _ _ => true
  | binary op width left right =>
    op.isRing && width == w && left.isPolynomial w && right.isPolynomial w

/-- The expression on integers, from the values of its leaves. -/
def polynomial : Expression → List Int → Int
  | const _ _, vs | reg _ _, vs | pop _, vs | load _ _, vs => vs.headD 0
  | binary op _ left right, vs =>
    op.onIntegers (left.polynomial (vs.take left.leaves.length))
      (right.polynomial (vs.drop left.leaves.length))

end Expression

namespace Machine

/-- The values of expressions that are computed one after the other, and the machine behind
    them. -/
def evalAll : List Expression → Machine → List UInt64 × Machine
  | [], m => ([], m)
  | e :: es, m =>
    let (v, m) := eval e m
    let (vs, m) := evalAll es m
    (v :: vs, m)

/-- The values of the leaves of an expression, as integers. -/
def leafValues (e : Expression) (m : Machine) : List Int :=
  (evalAll e.leaves m).1.map fun v => v.toNat

theorem evalAll_append (xs ys : List Expression) (m : Machine) :
    evalAll (xs ++ ys) m =
      ((evalAll xs m).1 ++ (evalAll ys (evalAll xs m).2).1, (evalAll ys (evalAll xs m).2).2) := by
  induction xs generalizing m with
  | nil => rfl
  | cons x xs ih => simp only [List.cons_append, evalAll, ih]

theorem length_evalAll (es : List Expression) (m : Machine) :
    (evalAll es m).1.length = es.length := by
  induction es generalizing m with
  | nil => rfl
  | cons e es ih => simp only [evalAll, List.length_cons, ih]

/-- Computing the leaves of an expression one after the other leads to the same machine. -/
theorem evalAll_leaves (e : Expression) (m : Machine) : (evalAll e.leaves m).2 = (eval e m).2 := by
  induction e generalizing m with
  | binary op width left right ihl ihr =>
      rw [Expression.leaves, evalAll_append, ihl, ihr]
      rfl
  | _ => rfl

theorem leafValues_binary (op : Operator) (width : UInt64) (left right : Expression) (m : Machine) :
    leafValues (.binary op width left right) m =
      leafValues left m ++ leafValues right (eval left m).2 := by
  rw [leafValues, Expression.leaves, evalAll_append, List.map_append, evalAll_leaves]
  rfl

theorem length_leafValues (e : Expression) (m : Machine) :
    (leafValues e m).length = e.leaves.length := by
  rw [leafValues, List.length_map, length_evalAll]

/-- A value has room in its width. -/
theorem toNat_eval_lt (e : Expression) (m : Machine) (h : e.width ≤ 8) :
    (eval e m).1.toNat < 2 ^ (8 * e.width.toNat) := by
  have hmask (v : UInt64) : (v &&& Word.mask e.width).toNat < 2 ^ (8 * e.width.toNat) := by
    rw [Word.toNat_and_mask v h, Nat.pow_mul]
    exact Nat.mod_lt _ (Nat.pow_pos (by decide))
  have hload (a : UInt64) (n : Machine) :
      (n.memory.load a e.width).toNat < 2 ^ (8 * e.width.toNat) := by
    have hlt := Word.toNat_ofBytes_lt (n.memory.read a e.width.toNat)
    rw [← Memory.load_eq_ofBytes _ _ h, Memory.read_eq_map, List.length_map,
      List.length_range] at hlt
    rwa [Nat.pow_mul]
  cases e with
  | const width value => exact hmask value
  | reg width r => exact hmask (m.get r)
  | pop width => exact hload _ m
  | load width address => exact hload _ (eval address m).2
  | binary op width left right => exact hmask _

section Width

variable {w : UInt64} (hw : w ≤ 8)
include hw

/-- The value of an operator is what it gives on integers, modulo its width. -/
theorem toNat_eval_binary (op : Operator) (left right : Expression) (m : Machine) :
    ((eval (.binary op w left right) m).1.toNat : Int) =
      op.onIntegers (eval left m).1.toNat (eval right (eval left m).2).1.toNat %
        2 ^ (8 * w.toNat) := by
  have hbits : 8 * w.toNat ≤ 64 := Nat.mul_le_mul_left 8 (UInt64.le_iff_toNat_le.mp hw)
  have hdvd : (2 : Int) ^ (8 * w.toNat) ∣ 2 ^ 64 := pow_dvd_pow 2 hbits
  have hmodEq := (op.onNumbers_modEq (eval left m).1.toNat_lt
    (eval right (eval left m).2).1.toNat_lt).of_dvd hdvd
  -- Cutting to the word first makes no difference, since the width is no wider.
  rw [eval, Word.toNat_and_mask _ hw, Operator.apply_eq_ofNat, UInt64.toNat_ofNat', ← hmodEq.eq]
  push_cast
  rw [← Int.emod_emod_of_dvd _ hdvd, pow_mul]
  rfl

/-- The value of a polynomial is that on the values of its leaves, modulo its width. The
    leaves may have any widths. -/
theorem eval_modEq_polynomial {e : Expression} (he : e.isPolynomial w = true) (m : Machine) :
    ((eval e m).1.toNat : Int) ≡ e.polynomial (leafValues e m) [ZMOD 2 ^ (8 * w.toNat)] := by
  induction e generalizing m with
  | binary op width left right ihl ihr =>
      simp only [Expression.isPolynomial, Bool.and_eq_true, beq_iff_eq] at he
      rcases he with ⟨⟨⟨hop, rfl⟩, hl⟩, hr⟩
      -- Both operands may be replaced by what they are congruent to.
      rw [Expression.polynomial, leafValues_binary, ← length_leafValues left m, List.take_left,
        List.drop_left, toNat_eval_binary hw]
      exact (Int.mod_modEq _ _).trans
        (Operator.onIntegers_modEq_of_isRing hop (ihl hl m) (ihr hr _))
  | _ => exact .rfl

end Width

/-- Expressions are arithmetic on integers, reduced modulo the width. An operator is so on the
    values of its operands, the right one of which is computed behind the left one, and
    sums, products and differences of one width are so however deep they are nested, on the
    values of their leaves. Only an expression that is a leaf itself is not cut to the width,
    so to be a remainder it must not be wider. -/
theorem eval_exact (m : Machine) {w : UInt64} (hw : w ≤ 8) :
    (∀ op left right, let n := (eval left m).2
      (eval (.binary op w left right) m).2 = (eval right n).2 ∧
      ((eval (.binary op w left right) m).1.toNat : Int) =
        op.onIntegers (eval left m).1.toNat (eval right n).1.toNat % 2 ^ (8 * w.toNat)) ∧
    ∀ e : Expression, e.isPolynomial w = true →
      (eval e m).2 = (evalAll e.leaves m).2 ∧
      ((eval e m).1.toNat : Int) ≡ e.polynomial (leafValues e m) [ZMOD 2 ^ (8 * w.toNat)] ∧
      (e.width ≤ w →
        ((eval e m).1.toNat : Int) = e.polynomial (leafValues e m) % 2 ^ (8 * w.toNat)) := by
  refine ⟨fun op left right => ⟨rfl, toNat_eval_binary hw op left right m⟩, fun e he => ?_⟩
  have hmodEq := eval_modEq_polynomial hw he m
  refine ⟨(evalAll_leaves e m).symm, hmodEq, fun hwidth => ?_⟩
  have hlt : (eval e m).1.toNat < 2 ^ (8 * w.toNat) :=
    Nat.lt_of_lt_of_le (toNat_eval_lt e m (UInt64.le_trans hwidth hw))
      (Nat.pow_le_pow_right (by decide)
        (Nat.mul_le_mul_left 8 (UInt64.le_iff_toNat_le.mp hwidth)))
  rw [← hmodEq.eq]
  exact (Int.emod_eq_of_lt (Int.natCast_nonneg _) (by exact_mod_cast hlt)).symm

/-- A product and a difference of two bytes each, with a register that is read between two
    pops. The product has no room in the width. -/
theorem eval_exact_product :
    let m := ((start .vsp 0x1000).push 8 3).push 8 0xffffffff
    let e : Expression := .binary .sub 2 (.binary .mul 2 (.pop 8) (.reg 8 .vsp)) (.pop 8)
    (2 : UInt64) ≤ 8 ∧ e.isPolynomial 2 = true ∧ e.width ≤ 2 ∧
    leafValues e m = [0xffffffff, 0xff8, 3] ∧
    ((eval e m).1.toNat : Int) = (0xffffffff * 0xff8 - 3) % 2 ^ 16 := by
  intro m e
  have hw : (2 : UInt64) ≤ 8 := by decide
  have he : e.isPolynomial 2 = true := by decide
  have hwidth : e.width ≤ 2 := by decide
  have hvalues : leafValues e m = [0xffffffff, 0xff8, 3] := by cbv
  have hexact := ((eval_exact m hw).2 e he).2.2 hwidth
  rw [hvalues] at hexact
  exact ⟨hw, he, hwidth, hvalues, hexact⟩

end Machine

end StackLift
