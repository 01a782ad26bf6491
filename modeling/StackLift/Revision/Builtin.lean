import StackLift.Revision.Basic

/-!
# Built-in Revisions

The revisions that are known without a definition file. They share most of their
opcode bytes and differ in the way branches are addressed, in the registers that
give access to the arguments, and in which bytes are aliases.

## Main definitions

* `BuiltinRevision`: The names of the built-in revisions.
* `BuiltinRevision.definition`: What each of them looks like.
* `BuiltinRevision.revision`: The revision that the definition describes.
-/

namespace StackLift

/-- The names of the built-in revisions. -/
inductive BuiltinRevision where
  /-- Absolute branches, one argument register, no return. -/
  | tigress1
  /-- As the first, without a register file and with a return. -/
  | tigress2
  /-- Relative branches and split arguments. -/
  | tigress3
  /-- Relative branches, one argument register and a four-byte push. -/
  | tigress4
deriving DecidableEq, Repr

namespace BuiltinRevision

/-- All built-in revisions, in the order of their declaration. -/
def all : List BuiltinRevision := [tigress1, tigress2, tigress3, tigress4]

/-- The name of the revision. -/
def name : BuiltinRevision → String
  | tigress1 => "tigress1"
  | tigress2 => "tigress2"
  | tigress3 => "tigress3"
  | tigress4 => "tigress4"

/-- The revision of that name. The letters A to Z count as their lower-case
    partners; other letters do not. -/
def ofName? (text : String) : Option BuiltinRevision :=
  let lower := text.map Char.toLower
  all.find? (·.name == lower)

/-- An entry without an immediate. -/
def plain (bytes : List UInt8) (mnemonic : String) (category : Category) : OpcodeEntry :=
  ⟨bytes, mnemonic, .absent, category⟩

/-- An entry with a four-byte immediate. -/
def short (bytes : List UInt8) (mnemonic : String) (category : Category) : OpcodeEntry :=
  ⟨bytes, mnemonic, .dword, category⟩

/-- An entry with an eight-byte immediate. -/
def long (bytes : List UInt8) (mnemonic : String) (category : Category) : OpcodeEntry :=
  ⟨bytes, mnemonic, .qword, category⟩

/-- The opcodes whose bytes are the same in every built-in revision. -/
def bitwise : List OpcodeEntry :=
  [plain [0xdf] "wmem" .memoryWrite,
    plain [0x56] "orq" (.stackBinaryOp .or),
    plain [0x4a] "andq" (.stackBinaryOp .and),
    plain [0x42] "subq" (.stackBinaryOp .sub),
    plain [0x5d] "shlq" (.stackBinaryOp .shl),
    plain [0x2b] "shrq" (.stackBinaryOp .lsr)]

/-- The opcodes of each revision. -/
def opcodes : BuiltinRevision → List OpcodeEntry
  | tigress1 =>
    [long [0x60, 0xe1] "loadq" .stackPush,
      plain [0x4e] "nop" .nop,
      plain [0xc7] "mulq" (.stackBinaryOp .mul),
      short [0x8e] "ldarg" (.registerRelativeAddress .argument),
      plain [0x61, 0x6e] "rmem" .memoryRead,
      plain [0x0e, 0x5f, 0x3c, 0x27] "addq" (.stackBinaryOp .add),
      short [0x90] "lead" (.registerRelativeAddress .registerFile)]
    ++ bitwise ++
    [long [0xf4] "jmp" .unconditionalBranch]
  | tigress2 =>
    [long [0x60] "loadq" .stackPush,
      plain [0x4e] "nop" .nop,
      plain [0xc7] "mulq" (.stackBinaryOp .mul),
      short [0x8e] "ldarg" (.registerRelativeAddress .argument),
      plain [0x61] "rmem" .memoryRead,
      plain [0x0e, 0x5f] "addq" (.stackBinaryOp .add)]
    ++ bitwise ++
    [long [0xf4] "jmp" .unconditionalBranch,
      plain [0xb3] "ret" .ret]
  | tigress3 =>
    [long [0x60, 0xe1] "loadq" .stackPush,
      plain [0x4e] "nop" .nop,
      plain [0xc7] "mulq" (.stackBinaryOp .mul),
      short [0x8e] "ldarg" (.registerRelativeAddress .argument),
      plain [0x61] "rmem" .memoryRead,
      plain [0x0e, 0x5f, 0x3c, 0x27] "addq" (.stackBinaryOp .add),
      short [0x90] "lead" (.registerRelativeAddress .registerFile)]
    ++ bitwise ++
    [short [0xf4] "jmp" .unconditionalBranch,
      plain [0xb3] "ret" .ret]
  | tigress4 =>
    [long [0x60, 0xe1] "loadq" .stackPush,
      short [0x71] "loadl" .stackPush,
      plain [0x4e] "nop" .nop,
      plain [0xc7] "mulq" (.stackBinaryOp .mul),
      short [0x8e] "ldarg" (.registerRelativeAddress .argument),
      plain [0x61, 0x6e] "rmem" .memoryRead,
      plain [0x0e, 0x3c] "addq" (.stackBinaryOp .add),
      short [0x90] "lead" (.registerRelativeAddress .registerFile)]
    ++ bitwise ++
    [short [0xf4] "jmp" .unconditionalBranch,
      plain [0xc3] "ret" .ret]

/-- How each revision addresses branches. -/
def branchMode : BuiltinRevision → BranchMode
  | tigress1 | tigress2 => .absolute
  | tigress3 | tigress4 => .relativeToNextInstruction

/-- The registers of each revision. -/
def registers : BuiltinRevision → List Register
  | tigress1 | tigress4 => [.vsp, .varg, .vreg, .vlhs, .vrhs]
  | tigress2 => [.vsp, .varg, .vlhs, .vrhs]
  | tigress3 => [.vsp, .varg1, .varg2, .vreg, .vlhs, .vrhs]

/-- The calling convention of each revision. Where the arguments are split, their
    index stands in the code and no register carries one. -/
def callingConvention : BuiltinRevision → List Register
  | tigress1 | tigress2 | tigress4 => [.varg]
  | tigress3 => []

/-- The revision as it is written down. -/
def definition (b : BuiltinRevision) : Definition where
  name := b.name
  branchMode := b.branchMode
  registers := b.registers
  callingConvention := b.callingConvention
  opcodes := b.opcodes

/-- The revision that the definition describes. -/
def revision (b : BuiltinRevision) : Except Inconsistency Revision :=
  Revision.ofDefinition b.definition

end BuiltinRevision

end StackLift
