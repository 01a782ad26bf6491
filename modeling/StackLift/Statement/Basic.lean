import StackLift.Operator
import StackLift.Register

/-!
# Statements

The code that instructions are lifted to: statements over a register set, a
byte-addressed memory and a stack, with nested expressions for values. Widths
are in bytes.

Taking a value off the stack is an expression. Its effect on the stack happens
when the statement around it is executed, from left to right.

## Main definitions

* `Expression`: A value to compute.
* `Expression.pops`: How many values an expression takes off the stack.
* `Statement`: A step to execute.
* `Statement.stackEffect`: The change in stack depth, in slots.
-/

namespace StackLift

/-- A value to compute. -/
inductive Expression where
  | const (width value : UInt64)
  /-- What a register holds. -/
  | reg (width : UInt64) (r : Register)
  /-- The value on top of the stack, which is taken off. -/
  | pop (width : UInt64)
  /-- What is stored at an address. -/
  | load (width : UInt64) (address : Expression)
  /-- An operator on two values, the left one computed first. -/
  | binary (op : Operator) (width : UInt64) (left right : Expression)
deriving DecidableEq, Repr

namespace Expression

/-- How many values computing the expression takes off the stack. -/
def pops : Expression → Nat
  | const _ _ | reg _ _ => 0
  | pop _ => 1
  | load _ address => address.pops
  | binary _ _ left right => left.pops + right.pops

end Expression

/-- A step to execute. -/
inductive Statement where
  | nop
  /-- Put a value onto the stack. -/
  | push (width : UInt64) (value : Expression)
  /-- Put a value into a register. -/
  | setReg (width : UInt64) (r : Register) (value : Expression)
  /-- Put a value into memory; the address is computed first. -/
  | store (width : UInt64) (address value : Expression)
  /-- Continue at an address. -/
  | jump (target : Expression)
  | ret
deriving DecidableEq, Repr

namespace Statement

/-- The change in stack depth, in slots. -/
def stackEffect : Statement → Int
  | nop | ret => 0
  | push _ value => 1 - value.pops
  | setReg _ _ value => -value.pops
  | store _ address value => -(address.pops + value.pops)
  | jump target => -target.pops

end Statement

end StackLift
