import StackLift.Opcode.Table
import StackLift.Revision.Definition
import StackLift.Text.Numeral

/-!
# Revisions

One revision of the instruction set in working order. Decoder, renderer and
lifter are the same for all revisions and ask the revision for everything that
differs between them.

The only way to a revision is `Revision.ofDefinition`, which turns down every
definition that contradicts itself. It looks at the registers, the calling
convention, the pop orders and then the opcodes one after the other, and reports
the first thing that is wrong.

## Main definitions

* `Inconsistency`: The ways a definition can contradict itself.
* `Revision`: A revision of the instruction set.
* `RegisterFile.check`, `OpcodeEntry.check`: The rules for registers and for a
  single opcode.
* `Revision.ofDefinition`: The revision a definition describes, if it does.
* `Revision.popOrder`: Which operand an operator pops first.
* `Revision.maxLength`: The length of the longest instruction.
-/

namespace StackLift

/-- The ways a definition can contradict itself. -/
inductive Inconsistency where
  /-- The stack pointer is not declared. -/
  | missingStackPointer
  /-- The register is declared more than once. -/
  | duplicateRegister (r : Register)
  /-- The argument registers are neither one alone nor the split pair. -/
  | ambiguousArgumentRegisters
  /-- The byte already stands for another opcode. -/
  | duplicateOpcode (b : UInt8)
  /-- No byte stands for the opcode. -/
  | unassignedOpcode (mnemonic : String)
  /-- The category and the size of the immediate do not go together. -/
  | operandWidthMismatch (mnemonic : String) (width : OperandWidth)
  /-- The opcode needs the operand holders. -/
  | missingScratchRegisters (mnemonic : String)
  /-- The opcode needs an argument register. -/
  | missingArgumentRegister (mnemonic : String)
  /-- The opcode needs the base of the register file. -/
  | missingRegisterFileBase (mnemonic : String)
  /-- The calling convention names a register that is not declared. -/
  | unknownConventionRegister (r : Register)
  /-- A pop order is given for something that is no operator. -/
  | unknownOperator (name : String)
  /-- A pop order is given for an operator that does not depend on one. -/
  | unorderedOperator (op : Operator)
  /-- There is no opcode. -/
  | emptyTable
deriving DecidableEq, Repr

namespace Inconsistency

/-- What is wrong, in words. -/
def message : Inconsistency → String
  | missingStackPointer => "register file has no stack pointer"
  | duplicateRegister r => s!"register {r.name} is declared twice"
  | ambiguousArgumentRegisters =>
    "argument registers must be either varg alone or both varg1 and varg2"
  | duplicateOpcode b => s!"opcode byte 0x{Numeral.byte b} is assigned twice"
  | unassignedOpcode mnemonic => s!"opcode {mnemonic} has no bytes assigned"
  | operandWidthMismatch mnemonic width =>
    s!"opcode {mnemonic} cannot take a {width.bytes}-byte operand"
  | missingScratchRegisters mnemonic =>
    s!"opcode {mnemonic} needs the vlhs and vrhs scratch registers"
  | missingArgumentRegister mnemonic => s!"opcode {mnemonic} needs an argument register"
  | missingRegisterFileBase mnemonic => s!"opcode {mnemonic} needs the vreg register"
  | unknownConventionRegister r =>
    s!"calling convention register {r.name} is not in the register file"
  | unknownOperator name => s!"{name} is not a known operator"
  | unorderedOperator op => s!"operator {op.title} does not depend on operand order"
  | emptyTable => "opcode table is empty"

end Inconsistency

/-- The first element that stands in the list a second time. -/
def firstRepeated? {α : Type} [DecidableEq α] (seen : List α) : List α → Option α
  | [] => none
  | a :: as => if a ∈ seen then some a else firstRepeated? (a :: seen) as

namespace RegisterFile

/-- The rules for registers: the stack pointer is there, none is declared twice,
    and the arguments are reached in one way at most. -/
def check (file : RegisterFile) : Except Inconsistency Unit :=
  if .vsp ∉ file then .error .missingStackPointer
  else match firstRepeated? [] file.toList with
    | some r => .error (.duplicateRegister r)
    | none =>
      if (.varg ∈ file ∧ (.varg1 ∈ file ∨ .varg2 ∈ file)) ∨ ¬(.varg1 ∈ file ↔ .varg2 ∈ file) then
        .error .ambiguousArgumentRegisters
      else .ok ()

end RegisterFile

namespace Category

/-- The category is lifted through the operand holders. -/
def needsScratch : Category → Bool
  | stackBinaryOp op => op.isOrderSensitive
  | memoryWrite => true
  | nop | stackPush | memoryRead | registerRelativeAddress _ | unconditionalBranch | ret => false

end Category

namespace OpcodeEntry

/-- The rules for a single opcode: bytes stand for it, the immediate fits the
    category, and the registers it is lifted through are declared. -/
def check (file : RegisterFile) (e : OpcodeEntry) : Except Inconsistency Unit :=
  let o := e.opcode
  if e.bytes = [] then .error (.unassignedOpcode o.mnemonic)
  else if o.category.takesOperand ↔ o.width = .absent then
    .error (.operandWidthMismatch o.mnemonic o.width)
  else if o.category.needsScratch ∧ ¬file.hasScratch then
    .error (.missingScratchRegisters o.mnemonic)
  else if o.category = .registerRelativeAddress .argument ∧ file.argumentBase = .absent then
    .error (.missingArgumentRegister o.mnemonic)
  else if o.category = .registerRelativeAddress .registerFile ∧ .vreg ∉ file then
    .error (.missingRegisterFileBase o.mnemonic)
  else .ok ()

end OpcodeEntry

/-- A revision of the instruction set. -/
structure Revision where
  /-- The name of the revision. -/
  name : String
  /-- The meaning of the opcode bytes. -/
  opcodes : OpcodeTable
  /-- The registers the revision declares. -/
  registers : RegisterFile
  /-- How branches are addressed. -/
  branchMode : BranchMode
  /-- The pop orders the definition gives. -/
  popOrders : List (Operator × PopOrder)
  /-- The registers that carry integer arguments into virtualized code. -/
  callingConvention : List Register

namespace Definition

/-- The registers as a file. -/
def registerFile (d : Definition) : RegisterFile := ⟨d.registers⟩

/-- The calling convention names declared registers only. -/
def checkConvention (d : Definition) : Except Inconsistency Unit :=
  match d.callingConvention.find? (· ∉ d.registerFile) with
  | some r => .error (.unknownConventionRegister r)
  | none => .ok ()

/-- A pop order with the operator that its name stands for. -/
def operatorOrder (entry : String × PopOrder) : Except Inconsistency (Operator × PopOrder) :=
  match Operator.ofName? entry.1 with
  | none => .error (.unknownOperator entry.1)
  | some op => if op.isOrderSensitive then .ok (op, entry.2) else .error (.unorderedOperator op)

/-- The pop orders with the operators that their names stand for. -/
def operatorOrders (d : Definition) : Except Inconsistency (List (Operator × PopOrder)) :=
  d.popOrders.toList.mapM operatorOrder

/-- The table with the opcode entered, if the entry follows the rules and its
    bytes are free. -/
def enter (file : RegisterFile) (t : OpcodeTable) (e : OpcodeEntry) :
    Except Inconsistency OpcodeTable := do
  e.check file
  match t.insert e.bytes e.opcode with
  | .ok t => .ok t
  | .error b => .error (.duplicateOpcode b)

/-- The opcodes as a table. -/
def table (d : Definition) : Except Inconsistency OpcodeTable := do
  let t ← d.opcodes.foldlM (enter d.registerFile) ∅
  if t.isEmpty then .error .emptyTable else .ok t

end Definition

namespace Revision

/-- The revision a definition describes, or the first thing that is wrong with
    the definition. -/
def ofDefinition (d : Definition) : Except Inconsistency Revision := do
  d.registerFile.check
  d.checkConvention
  let popOrders ← d.operatorOrders
  let opcodes ← d.table
  return {
    name := d.name
    opcodes
    registers := d.registerFile
    branchMode := d.branchMode
    popOrders
    callingConvention := d.callingConvention }

/-- Which operand an operator pops first: as the definition says, or else as
    observed, or else the left one. -/
def popOrder (r : Revision) (op : Operator) : PopOrder :=
  match r.popOrders.find? (·.1 = op) with
  | some (_, order) => order
  | none => observedPopOrders.getD op.name .leftFirst

/-- The length of the longest instruction. -/
def maxLength (r : Revision) : Nat :=
  (r.opcodes.descriptors.map Opcode.length).max?.getD 1

end Revision

end StackLift
