import StackLift.Json.Basic
import StackLift.Json.Record
import StackLift.Json.Variant
import StackLift.Statement.Basic

/-!
# Statements in JSON

Expressions and statements are written as the name of their form with a record
of their parts.

## Main definitions

* `Expression.toJson`, `Statement.toJson`: Expressions and statements as
  written.
* `Expression.decoder`, `Statement.decoder`: Expressions and statements as read.
-/

namespace StackLift

namespace Operator

/-- The operator as written. -/
def toJson (op : Operator) : Json := .string op.name

/-- The operator as read. -/
def decoder : Json.Decoder Operator := Json.variant (all.map fun op => (op.name, .unit op))

end Operator

namespace Register

/-- The register as written. -/
def toJson (r : Register) : Json := .string r.name

/-- The register as read, its name in letters of any case. -/
def decoder : Json.Decoder Register := .parsed "valid virtual register name" ofName?

end Register

/-- The parts of an expression or statement, as far as they are known. -/
structure StatementDraft where
  width : Option UInt64 := none
  constant : Option UInt64 := none
  register : Option Register := none
  operator : Option Operator := none
  address : Option Expression := none
  left : Option Expression := none
  right : Option Expression := none
  value : Option Expression := none
  target : Option Expression := none

namespace StatementDraft

open Json (Decoder RecordPart required)

/-- The width in bytes. -/
def widthPart : RecordPart StatementDraft :=
  .of "width" .size (·.width) fun a d => { d with width := some a }

/-- The value of a constant. -/
def constantPart : RecordPart StatementDraft :=
  .of "value" .word (·.constant) fun a d => { d with constant := some a }

/-- The register. -/
def registerPart : RecordPart StatementDraft :=
  .of "reg" Register.decoder (·.register) fun a d => { d with register := some a }

/-- The operator. -/
def operatorPart : RecordPart StatementDraft :=
  .of "op" Operator.decoder (·.operator) fun a d => { d with operator := some a }

/-- The address of a memory access. -/
def addressPart (inner : Decoder Expression) : RecordPart StatementDraft :=
  .of "addr" inner (·.address) fun a d => { d with address := some a }

/-- The left operand. -/
def leftPart (inner : Decoder Expression) : RecordPart StatementDraft :=
  .of "lhs" inner (·.left) fun a d => { d with left := some a }

/-- The right operand. -/
def rightPart (inner : Decoder Expression) : RecordPart StatementDraft :=
  .of "rhs" inner (·.right) fun a d => { d with right := some a }

/-- The value of a statement. -/
def valuePart (inner : Decoder Expression) : RecordPart StatementDraft :=
  .of "value" inner (·.value) fun a d => { d with value := some a }

/-- The target of a jump. -/
def targetPart (inner : Decoder Expression) : RecordPart StatementDraft :=
  .of "target" inner (·.target) fun a d => { d with target := some a }

end StatementDraft

namespace Expression

open Json (Decoder Form Shape required)
open StatementDraft

/-- The expression as written. -/
def toJson : Expression → Json
  | const width value =>
    .tagged "const" (.object [("width", .word width), ("value", .word value)])
  | reg width r => .tagged "reg" (.object [("width", .word width), ("reg", r.toJson)])
  | pop width => .tagged "pop" (.object [("width", .word width)])
  | load width address =>
    .tagged "load" (.object [("width", .word width), ("addr", address.toJson)])
  | binary op width left right =>
    .tagged "binary" (.object
      [("op", op.toJson), ("width", .word width), ("lhs", left.toJson), ("rhs", right.toJson)])

/-- A form of expression with the given parts. -/
def form (name : String) (parts : List (Json.RecordPart StatementDraft))
    (finish : StatementDraft → Except Json.Refusal Expression) : Form Expression :=
  .record (Shape.decode ⟨"struct variant Expr::" ++ name, parts, {}, finish⟩)

/-- The forms of expressions, with a way to read the expressions within. -/
def forms (inner : Decoder Expression) : List (String × Form Expression) :=
  [("const", form "Const" [widthPart, constantPart] fun d => do
      return const (← required "width" d.width) (← required "value" d.constant)),
    ("reg", form "Reg" [widthPart, registerPart] fun d => do
      return reg (← required "width" d.width) (← required "reg" d.register)),
    ("pop", form "Pop" [widthPart] fun d => do
      return pop (← required "width" d.width)),
    ("load", form "Load" [widthPart, addressPart inner] fun d => do
      return load (← required "width" d.width) (← required "addr" d.address)),
    ("binary", form "Binary" [operatorPart, widthPart, leftPart inner, rightPart inner]
      fun d => do
        return binary (← required "op" d.operator) (← required "width" d.width)
          (← required "lhs" d.left) (← required "rhs" d.right))]

/-- The expression as read, with so many others within one another at most. -/
def decoderWithin : Nat → Decoder Expression
  | 0 => Json.variant (forms fun _ _ => .error .malformed)
  | depth + 1 => Json.variant (forms (decoderWithin depth))

/-- The expression as read. The levels of the document bound the number of
    expressions within one another. -/
def decoder : Decoder Expression := fun levels n => decoderWithin levels levels n

end Expression

namespace Statement

open Json (Decoder Form Shape required)
open StatementDraft

/-- The statement as written. -/
def toJson : Statement → Json
  | nop => .string "nop"
  | push width value =>
    .tagged "push" (.object [("width", .word width), ("value", value.toJson)])
  | setReg width r value =>
    .tagged "set_reg" (.object
      [("width", .word width), ("reg", r.toJson), ("value", value.toJson)])
  | store width address value =>
    .tagged "store" (.object
      [("width", .word width), ("addr", address.toJson), ("value", value.toJson)])
  | jump target => .tagged "jump" (.object [("target", target.toJson)])
  | ret => .string "ret"

/-- A form of statement with the given parts. -/
def form (name : String) (parts : List (Json.RecordPart StatementDraft))
    (finish : StatementDraft → Except Json.Refusal Statement) : Form Statement :=
  .record (Shape.decode ⟨"struct variant Stmt::" ++ name, parts, {}, finish⟩)

/-- The forms of statements. -/
def forms : List (String × Form Statement) :=
  [("nop", .unit nop),
    ("push", form "Push" [widthPart, valuePart Expression.decoder] fun d => do
      return push (← required "width" d.width) (← required "value" d.value)),
    ("set_reg", form "SetReg" [widthPart, registerPart, valuePart Expression.decoder]
      fun d => do
        return setReg (← required "width" d.width) (← required "reg" d.register)
          (← required "value" d.value)),
    ("store", form "Store"
      [widthPart, addressPart Expression.decoder, valuePart Expression.decoder] fun d => do
        return store (← required "width" d.width) (← required "addr" d.address)
          (← required "value" d.value)),
    ("jump", form "Jump" [targetPart Expression.decoder] fun d => do
      return jump (← required "target" d.target)),
    ("ret", .unit ret)]

/-- The statement as read. -/
def decoder : Decoder Statement := Json.variant forms

end Statement

end StackLift
