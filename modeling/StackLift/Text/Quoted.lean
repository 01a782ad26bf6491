import StackLift.Text.Numeral
import StackLift.Text.Unmarked

/-!
# Quoted Text

Text between double quotes, as messages show what they found. The quote, the
backslash and four controls have short escapes; every other character that
leaves no mark of its own is spelled by number.

## Main definitions

* `Quoted.escape`: One character as it stands between quotes.
* `Quoted.quote`: A whole text between quotes.
-/

namespace StackLift

namespace Quoted

/-- One character as it stands between double quotes. -/
def escape (c : Char) : List Char :=
  match c with
  | '\x00' => ['\\', '0']
  | '\t' => ['\\', 't']
  | '\r' => ['\\', 'r']
  | '\n' => ['\\', 'n']
  | '\\' => ['\\', '\\']
  | '"' => ['\\', '"']
  | c =>
    if Unmarked.isUnmarked c then
      ['\\', 'u', '\x7b'] ++ Numeral.digits c.toNat ++ ['\x7d']
    else [c]

/-- The text between double quotes. -/
def quote (text : String) : String :=
  String.ofList ('"' :: text.toList.flatMap escape ++ ['"'])

end Quoted

end StackLift
