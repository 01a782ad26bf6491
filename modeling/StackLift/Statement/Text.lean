import StackLift.Statement.Basic
import StackLift.Text.Numeral

/-!
# Statements as Text

How lifted code is shown. The width of a stack or memory access stands behind
it as a letter; other widths do not show.

## Main definitions

* `widthSuffix`: The letter of a width.
* `Expression.text`, `Statement.text`: Expressions and statements as shown.
-/

namespace StackLift

/-- The letter of a width, behind a full stop. Widths that are no power of two up
    to eight have none. -/
def widthSuffix (width : UInt64) : String :=
  if width = 1 then ".b"
  else if width = 2 then ".w"
  else if width = 4 then ".d"
  else if width = 8 then ".q"
  else ""

namespace Expression

/-- The expression as it is shown. -/
def text : Expression → String
  | const _ value => Numeral.hex value
  | reg _ r => r.name
  | pop width => "pop" ++ widthSuffix width
  | load width address => "[" ++ address.text ++ "]" ++ widthSuffix width
  | binary op _ left right => "(" ++ left.text ++ " " ++ op.symbol ++ " " ++ right.text ++ ")"

end Expression

namespace Statement

/-- The statement as it is shown. -/
def text : Statement → String
  | nop => "nop"
  | push width value => "push" ++ widthSuffix width ++ "(" ++ value.text ++ ")"
  | setReg _ r value => r.name ++ " = " ++ value.text
  | store width address value =>
    "[" ++ address.text ++ "]" ++ widthSuffix width ++ " = " ++ value.text
  | jump target => "jump(" ++ target.text ++ ")"
  | ret => "return"

end Statement

end StackLift
