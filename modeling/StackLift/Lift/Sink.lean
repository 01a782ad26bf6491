import StackLift.Statement.Basic

/-!
# Sinks

Where lifted code goes. A sink offers one operation for each form of expression
and statement. The operations for expressions answer with a handle of the sink's
own choosing, the operations for statements take such handles and take effect in
the order in which they are called.

What a handle is, and when the value behind it is computed, is up to the sink: a
recorder answers with the expression itself, a sink that writes down the calls
with a number.

## Main definitions

* `Sink`: The operations that lifted code is made of.
-/

namespace StackLift

/-- The operations that lifted code is made of, with handles of type `ε`. Widths
    are in bytes. -/
class Sink (m : Type → Type) (ε : outParam Type) where
  constant (width value : UInt64) : m ε
  /-- What a register holds. -/
  reg (width : UInt64) (r : Register) : m ε
  /-- The value on top of the stack, which is taken off. -/
  pop (width : UInt64) : m ε
  /-- What is stored at an address. -/
  load (width : UInt64) (address : ε) : m ε
  /-- An operator on two values. -/
  binary (op : Operator) (width : UInt64) (left right : ε) : m ε
  nop : m Unit
  /-- Put a value onto the stack. -/
  push (width : UInt64) (value : ε) : m Unit
  /-- Put a value into a register. -/
  setReg (width : UInt64) (r : Register) (value : ε) : m Unit
  /-- Put a value into memory. -/
  store (width : UInt64) (address value : ε) : m Unit
  /-- Continue at an address. -/
  jump (target : ε) : m Unit
  ret : m Unit

end StackLift
