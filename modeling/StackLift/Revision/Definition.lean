import Std.Data.ExtTreeMap
import StackLift.Opcode.Basic
import StackLift.Register

/-!
# Revision Definitions

A revision of the instruction set as it is written down: its registers, its way
of addressing branch targets, the order in which operands are popped, and a list
of opcodes with the bytes that stand for them.

A definition is data and may contradict itself; `Revision.ofDefinition` decides
whether it describes a revision.

## Main definitions

* `BranchMode`: How a branch's immediate becomes a target address.
* `PopOrder`: Which operand an order-sensitive operator pops first.
* `OpcodeEntry`: An opcode with the bytes that stand for it.
* `observedPopOrders`: The pop orders where a definition says nothing.
* `Definition`: A revision as it is written down.
-/

namespace StackLift

/-- How a branch's immediate becomes a target address. -/
inductive BranchMode where
  /-- The target is the immediate plus one. -/
  | absolute
  /-- The target is the address behind the branch plus the immediate. -/
  | relativeToNextInstruction
deriving DecidableEq, Repr

namespace BranchMode

/-- The name of the mode in definition files. -/
def name : BranchMode → String
  | absolute => "absolute"
  | relativeToNextInstruction => "relative_to_next_instruction"

/-- The name of the mode in listings. -/
def shortName : BranchMode → String
  | absolute => "absolute"
  | relativeToNextInstruction => "relative"

end BranchMode

/-- Which operand an order-sensitive operator pops first. -/
inductive PopOrder where
  /-- The first value popped is the left operand. -/
  | leftFirst
  /-- The first value popped is the right operand. -/
  | rightFirst
deriving DecidableEq, Repr

namespace PopOrder

/-- The name of the order in definition files. -/
def name : PopOrder → String
  | leftFirst => "left_first"
  | rightFirst => "right_first"

end PopOrder

/-- An opcode with the bytes that stand for it. -/
structure OpcodeEntry where
  /-- The bytes that stand for the opcode. -/
  bytes : List UInt8
  opcode : Opcode
deriving DecidableEq, Repr

/-- Pop orders by the name of the operator. -/
abbrev PopOrders := Std.ExtTreeMap String PopOrder

/-- The pop orders seen in the wild: differences and left shifts pop the left
    operand first, right shifts the right one. -/
def observedPopOrders : PopOrders :=
  .ofList [("sub", PopOrder.leftFirst), ("shl", PopOrder.leftFirst), ("lsr", PopOrder.rightFirst)]

/-- A revision of the instruction set as it is written down. -/
structure Definition where
  /-- The name of the revision. -/
  name : String
  /-- How branches are addressed. -/
  branchMode : BranchMode
  /-- The registers the revision declares. -/
  registers : List Register := []
  /-- The registers that carry integer arguments into virtualized code. -/
  callingConvention : List Register := []
  /-- The pop orders, by the name of the operator. -/
  popOrders : PopOrders := observedPopOrders
  /-- The opcodes with their bytes. -/
  opcodes : List OpcodeEntry := []

end StackLift
