import StackLift.Revision.Basic

/-!
# Coherent Definitions

When a definition makes sense, said of the definition alone.

`Revision.ofDefinition` is a row of checks that stops at the first which fails; some of
them look at derived properties of the register file, and whether a byte is assigned
twice comes out only while the table is filled. `Definition.Coherent` says without any
order what a definition has to be like, and `Inconsistency.Holds` what each reason for
turning one down says about it. Neither mentions a check. That they exclude each other
is all that is shown here; what the checks have to do with them comes after.

## Main definitions

* `OpcodeEntry.Coherent`: An opcode that fits its category and the registers.
* `Definition.Coherent`: A definition that does not contradict itself.
* `Inconsistency.Holds`: What a reason for turning a definition down says about it.

## Theorems

* `Definition.Coherent.not_holds`: Nothing is wrong with a coherent definition.
-/

namespace StackLift

namespace OpcodeEntry

variable (registers : List Register) (e : OpcodeEntry)

/-- There is no immediate just if the category is not one of those that need one. -/
def FitsWidth : Prop :=
  e.opcode.width = .absent ↔ e.opcode.category ≠ .stackPush ∧
    (∀ base, e.opcode.category ≠ .registerRelativeAddress base) ∧
    e.opcode.category ≠ .unconditionalBranch

/-- Stores and the operators that depend on the order of their operands have the operand
    holders. -/
def HasHolders : Prop :=
  e.opcode.category ∈ [.memoryWrite, .stackBinaryOp .sub, .stackBinaryOp .shl,
    .stackBinaryOp .lsr] → .vlhs ∈ registers ∧ .vrhs ∈ registers

/-- An address relative to the arguments has an argument register. -/
def HasArgument : Prop :=
  e.opcode.category = .registerRelativeAddress .argument →
    .varg ∈ registers ∨ .varg1 ∈ registers ∨ .varg2 ∈ registers

/-- An address relative to the register file has the base of the register file. -/
def HasRegisterFile : Prop :=
  e.opcode.category = .registerRelativeAddress .registerFile → .vreg ∈ registers

/-- An opcode that some byte stands for, that fits its category, and whose registers are
    declared. -/
structure Coherent : Prop where
  bytes_ne_nil : e.bytes ≠ []
  fitsWidth : e.FitsWidth
  hasHolders : e.HasHolders registers
  hasArgument : e.HasArgument registers
  hasRegisterFile : e.HasRegisterFile registers

end OpcodeEntry

namespace Definition

/-- The argument registers are none, or one alone, or the split pair. -/
def HasArgumentScheme (d : Definition) : Prop :=
  (.varg ∉ d.registers ∧ .varg1 ∉ d.registers ∧ .varg2 ∉ d.registers) ∨
    (.varg ∈ d.registers ∧ .varg1 ∉ d.registers ∧ .varg2 ∉ d.registers) ∨
    (.varg ∉ d.registers ∧ .varg1 ∈ d.registers ∧ .varg2 ∈ d.registers)

/-- A definition that does not contradict itself. A byte may be listed repeatedly in one
    entry, but in no other entry as well. -/
structure Coherent (d : Definition) : Prop where
  stackPointer : .vsp ∈ d.registers
  nodup_registers : d.registers.Nodup
  argumentScheme : d.HasArgumentScheme
  convention : ∀ x ∈ d.callingConvention, x ∈ d.registers
  popOrders : ∀ name ∈ d.popOrders, name = "sub" ∨ name = "shl" ∨ name = "lsr"
  opcodes_ne_nil : d.opcodes ≠ []
  entries : ∀ e ∈ d.opcodes, e.Coherent d.registers
  bytes_once : ∀ b, d.opcodes.countP (b ∈ ·.bytes) ≤ 1

end Definition

/-- What a reason for turning a definition down says about the definition. -/
def Inconsistency.Holds (d : Definition) : Inconsistency → Prop
  | missingStackPointer => .vsp ∉ d.registers
  | duplicateRegister r => 2 ≤ d.registers.count r
  | ambiguousArgumentRegisters => ¬d.HasArgumentScheme
  | duplicateOpcode b => 2 ≤ d.opcodes.countP (b ∈ ·.bytes)
  | unassignedOpcode mnemonic => ∃ e ∈ d.opcodes, e.opcode.mnemonic = mnemonic ∧ e.bytes = []
  | operandWidthMismatch mnemonic width =>
    ∃ e ∈ d.opcodes, e.opcode.mnemonic = mnemonic ∧ e.opcode.width = width ∧ ¬e.FitsWidth
  | missingScratchRegisters mnemonic =>
    ∃ e ∈ d.opcodes, e.opcode.mnemonic = mnemonic ∧ ¬e.HasHolders d.registers
  | missingArgumentRegister mnemonic =>
    ∃ e ∈ d.opcodes, e.opcode.mnemonic = mnemonic ∧ ¬e.HasArgument d.registers
  | missingRegisterFileBase mnemonic =>
    ∃ e ∈ d.opcodes, e.opcode.mnemonic = mnemonic ∧ ¬e.HasRegisterFile d.registers
  | unknownConventionRegister r => r ∈ d.callingConvention ∧ r ∉ d.registers
  | unknownOperator name => name ∈ d.popOrders ∧ ∀ op : Operator, name ≠ op.name
  | unorderedOperator op => op.name ∈ d.popOrders ∧ op.isOrderSensitive = false
  | emptyTable => d.opcodes = []

namespace Definition

/-- Nothing that can be reported is wrong with a coherent definition. -/
theorem Coherent.not_holds {d : Definition} (h : d.Coherent) (x : Inconsistency) : ¬x.Holds d := by
  intro hx
  cases x with
  | missingStackPointer => exact hx h.stackPointer
  | duplicateRegister y =>
      have hle := List.nodup_iff_count.mp h.nodup_registers y
      exact absurd (Nat.le_trans hx hle) (by decide)
  | ambiguousArgumentRegisters => exact hx h.argumentScheme
  | duplicateOpcode b => exact absurd (Nat.le_trans hx (h.bytes_once b)) (by decide)
  | unassignedOpcode mnemonic =>
      rcases hx with ⟨e, he, _, hbytes⟩
      exact (h.entries e he).bytes_ne_nil hbytes
  | operandWidthMismatch mnemonic width =>
      rcases hx with ⟨e, he, _, _, hwidth⟩
      exact hwidth (h.entries e he).fitsWidth
  | missingScratchRegisters mnemonic =>
      rcases hx with ⟨e, he, _, hholders⟩
      exact hholders (h.entries e he).hasHolders
  | missingArgumentRegister mnemonic =>
      rcases hx with ⟨e, he, _, hargument⟩
      exact hargument (h.entries e he).hasArgument
  | missingRegisterFileBase mnemonic =>
      rcases hx with ⟨e, he, _, hfile⟩
      exact hfile (h.entries e he).hasRegisterFile
  | unknownConventionRegister y => exact hx.2 (h.convention y hx.1)
  | unknownOperator name =>
      rcases h.popOrders name hx.1 with hname | hname | hname
      · exact hx.2 .sub hname
      · exact hx.2 .shl hname
      · exact hx.2 .lsr hname
  | unorderedOperator op =>
      have hname := h.popOrders op.name hx.1
      have hop := hx.2
      cases op <;> contradiction
  | emptyTable => exact h.opcodes_ne_nil hx

end Definition

end StackLift
