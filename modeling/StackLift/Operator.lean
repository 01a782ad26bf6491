/-!
# Binary Operators

The two-operand operators of the virtual machines.

## Main definitions

* `Operator`: The seven operators.
* `Operator.isOrderSensitive`: Swapping the operands can change the result.
* `Operator.apply`: The operator on 64-bit words.
* `Operator.name`, `Operator.ofName?`: The spelling in definition files.
* `Operator.symbol`: The spelling between two operands.
-/

namespace StackLift

/-- The arithmetic and bitwise operators of the virtual machines. -/
inductive Operator where
  | add
  | mul
  | or
  | and
  /-- Difference, left minus right. -/
  | sub
  /-- The left operand shifted left by the right one. -/
  | shl
  /-- The left operand shifted right by the right one, zeros moving in. -/
  | lsr
deriving DecidableEq, Repr

namespace Operator

/-- All operators, in the order of their declaration. -/
def all : List Operator := [add, mul, or, and, sub, shl, lsr]

/-- Whether swapping the operands can change the result. -/
def isOrderSensitive : Operator → Bool
  | add | mul | or | and => false
  | sub | shl | lsr => true

/-- The operator on 64-bit words. Sums, products and differences wrap, and a
    shift by 64 or more leaves nothing. -/
def apply : Operator → UInt64 → UInt64 → UInt64
  | add, a, b => a + b
  | mul, a, b => a * b
  | or, a, b => a ||| b
  | and, a, b => a &&& b
  | sub, a, b => a - b
  | shl, a, b => if 64 ≤ b then 0 else a <<< b
  | lsr, a, b => if 64 ≤ b then 0 else a >>> b

/-- The name of the operator in definition files. -/
def name : Operator → String
  | add => "add"
  | mul => "mul"
  | or => "or"
  | and => "and"
  | sub => "sub"
  | shl => "shl"
  | lsr => "lsr"

/-- The name of the operator with a capital letter. -/
def title : Operator → String
  | add => "Add"
  | mul => "Mul"
  | or => "Or"
  | and => "And"
  | sub => "Sub"
  | shl => "Shl"
  | lsr => "Lsr"

/-- The operator of that name. -/
def ofName? (text : String) : Option Operator := all.find? (·.name == text)

/-- The sign of the operator between two operands. -/
def symbol : Operator → String
  | add => "+"
  | mul => "*"
  | or => "|"
  | and => "&"
  | sub => "-"
  | shl => "<<"
  | lsr => "u>>"

end Operator

end StackLift
