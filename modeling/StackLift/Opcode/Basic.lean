import StackLift.Operator

/-!
# Opcodes

What an opcode stands for: its mnemonic, the immediate that follows it in the
code, and the category that decides how it flows and what it lifts to.

## Main definitions

* `OperandWidth`: The size of the immediate.
* `AddressBase`: What a register-relative address is computed from.
* `Category`: What an opcode does.
* `Category.stackEffect`: The change in stack depth, in slots.
* `Category.takesOperand`: The category needs an immediate.
* `Opcode`: A mnemonic with a width and a category.
-/

namespace StackLift

/-- The size of the immediate behind an opcode byte. -/
inductive OperandWidth where
  /-- No immediate. -/
  | absent
  | dword
  | qword
deriving DecidableEq, Repr

namespace OperandWidth

/-- The number of bytes in the immediate. -/
def bytes : OperandWidth → Nat
  | absent => 0
  | dword => 4
  | qword => 8

/-- The width with that number of bytes. -/
def ofBytes? (n : Nat) : Option OperandWidth := [absent, dword, qword].find? (·.bytes == n)

end OperandWidth

/-- What a register-relative address is computed from. -/
inductive AddressBase where
  | argument
  /-- The register file of the virtualized code. -/
  | registerFile
deriving DecidableEq, Repr

namespace AddressBase

/-- The name of the base in definition files. -/
def name : AddressBase → String
  | argument => "argument"
  | registerFile => "register_file"

/-- The name of the base with capital letters. -/
def title : AddressBase → String
  | argument => "Argument"
  | registerFile => "RegisterFile"

end AddressBase

/-- What an opcode does, as far as decoding and lifting are concerned. -/
inductive Category where
  | nop
  /-- Push the immediate. -/
  | stackPush
  /-- Pop two values and push the operator's result on them. -/
  | stackBinaryOp (op : Operator)
  /-- Pop an address and push the value stored there. -/
  | memoryRead
  /-- Pop an address and a value, and store the value there. -/
  | memoryWrite
  /-- Push the sum of a base register and the immediate. -/
  | registerRelativeAddress (base : AddressBase)
  /-- Continue elsewhere. -/
  | unconditionalBranch
  | ret
deriving DecidableEq, Repr

namespace Category

/-- The change in stack depth, in slots. -/
def stackEffect : Category → Int
  | stackPush | registerRelativeAddress _ => 1
  | stackBinaryOp _ => -1
  | memoryWrite => -2
  | nop | memoryRead | unconditionalBranch | ret => 0

/-- Whether instructions of this category carry an immediate. -/
def takesOperand : Category → Bool
  | stackPush | registerRelativeAddress _ | unconditionalBranch => true
  | nop | stackBinaryOp _ | memoryRead | memoryWrite | ret => false

/-- The name of the category in opcode listings. -/
def title : Category → String
  | nop => "Nop"
  | stackPush => "StackPush"
  | stackBinaryOp op => "StackBinaryOp(" ++ op.title ++ ")"
  | memoryRead => "MemoryRead"
  | memoryWrite => "MemoryWrite"
  | registerRelativeAddress base => "RegisterRelativeAddress(" ++ base.title ++ ")"
  | unconditionalBranch => "UnconditionalBranch"
  | ret => "Return"

end Category

/-- An instruction descriptor, shared by all bytes that stand for it. -/
structure Opcode where
  /-- The name of the instruction in listings. -/
  mnemonic : String
  /-- The size of the immediate. -/
  width : OperandWidth
  /-- What the instruction does. -/
  category : Category
deriving DecidableEq, Repr

namespace Opcode

/-- The number of bytes in the code: the opcode byte and its immediate. -/
def length (o : Opcode) : Nat := 1 + o.width.bytes

theorem length_pos (o : Opcode) : 0 < o.length := by simp only [length]; omega

theorem length_le (o : Opcode) : o.length ≤ 9 := by
  cases h : o.width <;> simp [length, OperandWidth.bytes, h]

end Opcode

end StackLift
