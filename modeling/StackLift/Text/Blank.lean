/-!
# Blank Characters

The characters with the property `White_Space`, and text without the blanks
around it. The invisible characters that join or separate words without taking
room, such as U+200B and U+FEFF, do not have the property and stay.

## Main definitions

* `Blank.isBlank`: The character has the property `White_Space`.
* `Blank.trim`: A character sequence without the blanks at its two ends.
-/

namespace StackLift

namespace Blank

/-- The ranges of code points with the property `White_Space`. -/
def ranges : List (Nat × Nat) :=
  [(0x9, 0xd), (0x20, 0x20), (0x85, 0x85), (0xa0, 0xa0), (0x1680, 0x1680), (0x2000, 0x200a),
    (0x2028, 0x2029), (0x202f, 0x202f), (0x205f, 0x205f), (0x3000, 0x3000)]

/-- The character has the property `White_Space`. -/
def isBlank (c : Char) : Bool :=
  ranges.any fun (first, last) => first ≤ c.toNat && c.toNat ≤ last

/-- The characters from the first that is not blank to the last that is not. -/
def trim (cs : List Char) : List Char :=
  ((cs.dropWhile isBlank).reverse.dropWhile isBlank).reverse

end Blank

end StackLift
