import StackLift.Lift.Basic

/-!
# Traces

The operations that lifting asks of a sink, written down in order. Handles are
numbers, counted from zero in the order in which they are handed out.

## Main definitions

* `SinkCall`: One operation, with the handles it takes and the handle it gives.
* `Tracer`: Computations that write down their operations.
* `Tracer.calls`: What a computation asks of a sink.
-/

namespace StackLift

/-- One operation of a sink. The operations for expressions come with the number
    of the handle that they gave. -/
inductive SinkCall where
  | constant (handle : Nat) (width value : UInt64)
  | reg (handle : Nat) (width : UInt64) (r : Register)
  | pop (handle : Nat) (width : UInt64)
  | load (handle : Nat) (width : UInt64) (address : Nat)
  | binary (handle : Nat) (op : Operator) (width : UInt64) (left right : Nat)
  | nop
  | push (width : UInt64) (value : Nat)
  | setReg (width : UInt64) (r : Register) (value : Nat)
  | store (width : UInt64) (address value : Nat)
  | jump (target : Nat)
  | ret
deriving DecidableEq, Repr

namespace SinkCall

/-- The call as a line of text. -/
def text : SinkCall → String
  | constant h width value => s!"e{h} = constant {width} {value}"
  | reg h width r => s!"e{h} = reg {width} {r.name}"
  | pop h width => s!"e{h} = pop {width}"
  | load h width address => s!"e{h} = load {width} e{address}"
  | binary h op width left right => s!"e{h} = binary {op.symbol} {width} e{left} e{right}"
  | nop => "nop"
  | push width value => s!"push {width} e{value}"
  | setReg width r value => s!"set_reg {width} {r.name} e{value}"
  | store width address value => s!"store {width} e{address} e{value}"
  | jump target => s!"jump e{target}"
  | ret => "ret"

end SinkCall

/-- The operations so far, and the number of the next handle. -/
structure Trace where
  nextHandle : Nat := 0
  calls : Array SinkCall := #[]

/-- Computations that write down their operations. -/
abbrev Tracer := StateM Trace

namespace Tracer

/-- Writes down an operation. -/
def emit (call : SinkCall) : Tracer Unit :=
  modify fun t => { t with calls := t.calls.push call }

/-- Writes down an operation that gives a handle. -/
def give (call : Nat → SinkCall) : Tracer Nat := do
  let handle := (← get).nextHandle
  modify fun t => { t with nextHandle := handle + 1 }
  emit (call handle)
  return handle

instance : Sink Tracer Nat where
  constant width value := give (.constant · width value)
  reg width r := give (.reg · width r)
  pop width := give (.pop · width)
  load width address := give (.load · width address)
  binary op width left right := give (.binary · op width left right)
  nop := emit .nop
  push width value := emit (.push width value)
  setReg width r value := emit (.setReg width r value)
  store width address value := emit (.store width address value)
  jump target := emit (.jump target)
  ret := emit .ret

/-- What a computation asks of a sink, in order. -/
def calls {α : Type} (x : Tracer α) : List SinkCall := (x.run {}).2.calls.toList

end Tracer

end StackLift
