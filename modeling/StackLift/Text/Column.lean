/-!
# Columns

Text set to a minimum width. Widths count characters, and text that is already
wide enough is left as it is.

## Main definitions

* `Column.left`, `Column.right`, `Column.centre`: Blanks behind, before and on
  both sides of the text.
* `Column.cut`: The text shortened to a maximum width.
-/

namespace StackLift

namespace Column

/-- The text with blanks behind it, `width` characters at least. -/
def left (width : Nat) (text : String) : String :=
  String.ofList (text.toList.rightpad width ' ')

/-- The text with blanks before it, `width` characters at least. -/
def right (width : Nat) (text : String) : String :=
  String.ofList (text.toList.leftpad width ' ')

/-- The text between blanks, `width` characters at least. An odd blank goes
    behind the text. -/
def centre (width : Nat) (text : String) : String :=
  let before := (width - text.length) / 2
  left width (right (before + text.length) text)

/-- The first `width` characters of the text. -/
def cut (width : Nat) (text : String) : String :=
  String.ofList (text.toList.take width)

end Column

end StackLift
