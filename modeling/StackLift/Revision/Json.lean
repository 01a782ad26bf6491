import StackLift.Revision.Builtin
import StackLift.Statement.Json

/-!
# Definitions in JSON

How revisions of the instruction set are written in definition files.

## Main definitions

* `Category.toJson`, `Opcode.toJson`, `OpcodeEntry.toJson`, `Definition.toJson`:
  Definitions and their parts as written.
* `Category.decoder`, `Opcode.decoder`, `OpcodeEntry.decoder`,
  `Definition.decoder`: Definitions and their parts as read.
-/

namespace StackLift

open Json (Decoder RecordPart Shape required)

namespace OperandWidth

/-- The width as written. -/
def toJson (w : OperandWidth) : Json := .number w.bytes

/-- The width as read. -/
def decoder : Decoder OperandWidth := fun levels n => do
  let b ← Decoder.byte levels n
  match ofBytes? b.toNat with
  | some w => return w
  | none =>
    .error (.mismatch (.rejected s!"operand width must be 0, 4 or 8 bytes, not {b.toNat}"))

end OperandWidth

namespace AddressBase

/-- The base as written. -/
def toJson (b : AddressBase) : Json := .string b.name

/-- The base as read. -/
def decoder : Decoder AddressBase :=
  Json.variant ([argument, registerFile].map fun b => (b.name, .unit b))

end AddressBase

namespace Category

/-- The category as written. -/
def toJson : Category → Json
  | nop => .string "nop"
  | stackPush => .string "stack_push"
  | stackBinaryOp op => .tagged "stack_binary_op" op.toJson
  | memoryRead => .string "memory_read"
  | memoryWrite => .string "memory_write"
  | registerRelativeAddress base => .tagged "register_relative_address" base.toJson
  | unconditionalBranch => .string "unconditional_branch"
  | ret => .string "return"

/-- The category as read. -/
def decoder : Decoder Category := Json.variant
  [("nop", .unit nop),
    ("stack_push", .unit stackPush),
    ("stack_binary_op", .newtype fun levels n =>
      (Operator.decoder levels n).map stackBinaryOp),
    ("memory_read", .unit memoryRead),
    ("memory_write", .unit memoryWrite),
    ("register_relative_address", .newtype fun levels n =>
      (AddressBase.decoder levels n).map registerRelativeAddress),
    ("unconditional_branch", .unit unconditionalBranch),
    ("return", .unit ret)]

end Category

namespace BranchMode

/-- The mode as written. -/
def toJson (m : BranchMode) : Json := .string m.name

/-- The mode as read. -/
def decoder : Decoder BranchMode :=
  Json.variant ([absolute, relativeToNextInstruction].map fun m => (m.name, .unit m))

end BranchMode

namespace PopOrder

/-- The order as written. -/
def toJson (o : PopOrder) : Json := .string o.name

/-- The order as read. -/
def decoder : Decoder PopOrder :=
  Json.variant ([leftFirst, rightFirst].map fun o => (o.name, .unit o))

end PopOrder

namespace BuiltinRevision

/-- The name as written. -/
def toJson (b : BuiltinRevision) : Json := .string b.name

/-- The name as read, in letters of any case. -/
def decoder : Decoder BuiltinRevision := .parsed "valid revision name" ofName?

end BuiltinRevision

/-- The parts of an opcode entry, as far as they are known. -/
structure OpcodeDraft where
  bytes : Option (List UInt8) := none
  mnemonic : Option String := none
  width : Option OperandWidth := none
  category : Option Category := none

namespace OpcodeDraft

/-- The parts of an opcode. -/
def opcodeParts : List (RecordPart OpcodeDraft) :=
  [.of "mnemonic" .text (·.mnemonic) fun a d => { d with mnemonic := some a },
    .of "width" OperandWidth.decoder (·.width) fun a d => { d with width := some a },
    .of "category" Category.decoder (·.category) fun a d => { d with category := some a }]

/-- The bytes that stand for an opcode. -/
def bytesPart : RecordPart OpcodeDraft :=
  .of "bytes" (.list .byte) (·.bytes) fun a d => { d with bytes := some a }

/-- The opcode of a draft. -/
def opcode (d : OpcodeDraft) : Except Json.Refusal Opcode := do
  return ⟨← required "mnemonic" d.mnemonic, ← required "width" d.width,
    ← required "category" d.category⟩

/-- The entry of a draft. -/
def entry (d : OpcodeDraft) : Except Json.Refusal OpcodeEntry := do
  return ⟨← required "bytes" d.bytes, ← d.opcode⟩

end OpcodeDraft

namespace Opcode

/-- The members of an opcode as written. -/
def members (o : Opcode) : List (String × Json) :=
  [("mnemonic", .string o.mnemonic), ("width", o.width.toJson), ("category", o.category.toJson)]

/-- The opcode as written. -/
def toJson (o : Opcode) : Json := .object o.members

/-- The opcode as read. -/
def decoder : Decoder Opcode :=
  Shape.decode ⟨"struct Opcode", OpcodeDraft.opcodeParts, {}, OpcodeDraft.opcode⟩

end Opcode

namespace OpcodeEntry

/-- The entry as written. -/
def toJson (e : OpcodeEntry) : Json := .object (("bytes", .list .byte e.bytes) :: e.opcode.members)

/-- The entry as read. -/
def decoder : Decoder OpcodeEntry :=
  Shape.decode ⟨"struct OpcodeDef", OpcodeDraft.bytesPart :: OpcodeDraft.opcodeParts, {},
    OpcodeDraft.entry⟩

end OpcodeEntry

/-- The parts of a definition, as far as they are known. -/
structure DefinitionDraft where
  name : Option String := none
  branchMode : Option BranchMode := none
  registers : Option (List Register) := none
  callingConvention : Option (List Register) := none
  popOrders : Option PopOrders := none
  opcodes : Option (List OpcodeEntry) := none

namespace DefinitionDraft

/-- Pop orders as read. Of two under one name the latter counts. -/
def popOrdersDecoder : Decoder PopOrders := fun levels n =>
  (Decoder.map PopOrder.decoder levels n).map (Std.ExtTreeMap.ofList ·)

/-- The parts of a definition. -/
def parts : List (RecordPart DefinitionDraft) :=
  [.of "name" .text (·.name) fun a d => { d with name := some a },
    .of "branch_mode" BranchMode.decoder (·.branchMode) fun a d => { d with branchMode := some a },
    .of "registers" (.list Register.decoder) (·.registers)
      fun a d => { d with registers := some a },
    .of "calling_convention" (.list Register.decoder) (·.callingConvention)
      (fun a d => { d with callingConvention := some a }) true,
    .of "pop_orders" popOrdersDecoder (·.popOrders)
      (fun a d => { d with popOrders := some a }) true,
    .of "opcodes" (.list OpcodeEntry.decoder) (·.opcodes)
      fun a d => { d with opcodes := some a }]

/-- The definition of a draft. No registers carry arguments and the pop orders are
    those observed where the draft says nothing. -/
def definition (d : DefinitionDraft) : Except Json.Refusal Definition := do
  return {
    name := ← required "name" d.name
    branchMode := ← required "branch_mode" d.branchMode
    registers := ← required "registers" d.registers
    callingConvention := d.callingConvention.getD []
    popOrders := d.popOrders.getD observedPopOrders
    opcodes := ← required "opcodes" d.opcodes }

end DefinitionDraft

namespace Definition

/-- The definition as written. -/
def toJson (d : Definition) : Json := .object
  [("name", .string d.name),
    ("branch_mode", d.branchMode.toJson),
    ("registers", .list Register.toJson d.registers),
    ("calling_convention", .list Register.toJson d.callingConvention),
    ("pop_orders", .object (d.popOrders.toList.map fun (name, order) => (name, order.toJson))),
    ("opcodes", .list OpcodeEntry.toJson d.opcodes)]

/-- The definition as read. -/
def decoder : Decoder Definition :=
  Shape.decode ⟨"struct RevisionDef", DefinitionDraft.parts, {}, DefinitionDraft.definition⟩

end Definition

end StackLift
