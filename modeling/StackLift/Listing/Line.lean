import StackLift.Instruction.Basic
import StackLift.Text.Column

/-!
# Listing Lines

An instruction as a line of a listing: its address, its bytes and its text in
columns, below a label and before a comment where there are any.

The column of bytes is wide enough for the longest instruction, one opcode byte
and eight bytes of immediate.

## Main definitions

* `Token`: A piece of an instruction's text.
* `Instruction.tokens`: The text of an instruction.
* `Revision.textAt`: The text of the instruction at the start of a byte window.
* `Line`: A line of a listing.
* `Line.text`: The line as it is printed.
* `locationLabel`: The name of a location that has no other name.
-/

namespace StackLift

/-- A piece of an instruction's text. -/
inductive Token where
  /-- The mnemonic. -/
  | instruction (text : String)
  /-- What stands between the mnemonic and its operands. -/
  | separator (text : String)
  /-- An operand, which may be an address. -/
  | possibleAddress (text : String) (value : UInt64)
deriving DecidableEq, Repr

namespace Token

/-- The text of the piece. -/
def text : Token → String
  | instruction text | separator text | possibleAddress text _ => text

/-- The number that the piece stands for. -/
def value? : Token → Option UInt64
  | instruction _ | separator _ => none
  | possibleAddress _ value => some value

/-- The name of the kind of piece. -/
def kind : Token → String
  | instruction _ => "instruction"
  | separator _ => "operand_separator"
  | possibleAddress _ _ => "possible_address"

end Token

namespace Instruction

/-- The text of an instruction: the mnemonic, and the immediate as it is encoded,
    also where the address it leads to is another one. -/
def tokens (i : Instruction) : List Token :=
  match i.operand? with
  | none => [.instruction i.opcode.mnemonic]
  | some operand =>
    [.instruction i.opcode.mnemonic, .separator " ",
      .possibleAddress (Numeral.hex operand) operand]

end Instruction

/-- The text of the instruction at the start of a window that lies at `address`, and
    the number of bytes that the instruction occupies. -/
def Revision.textAt (r : Revision) (address : UInt64) (window : List UInt8) :
    Except DecodeError (List Token × Nat) :=
  (r.decode address window).map fun i => (i.tokens, i.length)

/-- The name of a location that has no other name. -/
def locationLabel (a : UInt64) : String := "loc_" ++ Numeral.bare a

/-- A line of a listing. -/
structure Line where
  /-- The name of the location. -/
  label : Option String := none
  /-- The text of the instruction. -/
  tokens : List Token
  /-- A remark behind the instruction. -/
  comment : Option String := none
  /-- The address of the instruction. -/
  address : UInt64
  /-- The bytes of the instruction. -/
  encoding : List UInt8
deriving DecidableEq, Repr

namespace Line

/-- The line of an instruction. -/
def ofInstruction (label : Option String) (i : Instruction) : Line :=
  { label, tokens := i.tokens, address := i.address, encoding := i.encoding }

/-- The text of the instruction alone. -/
def instructionText (l : Line) : String := String.join (l.tokens.map Token.text)

/-- The bytes of the instruction, two digits each, with blanks between them. -/
def encodingText (l : Line) : String := " ".intercalate (l.encoding.map Numeral.byte)

/-- The line as it is printed. The label has a line of its own. -/
def text (l : Line) : String :=
  let label := match l.label with
    | some label => label ++ ":\n"
    | none => ""
  let comment := match l.comment with
    | some comment => " ; " ++ comment
    | none => ""
  label ++ Numeral.padded 16 l.address.toNat ++ "  " ++ Column.left 26 l.encodingText ++ "  " ++
    l.instructionText ++ comment

end Line

end StackLift
