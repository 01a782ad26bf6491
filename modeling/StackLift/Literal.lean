import StackLift.Text.Blank

/-!
# Integer Literals

Integers the way people type them: hexadecimal behind `0x`, `0X` or `$`, decimal
otherwise, with blanks around them, one sign before the digits and as many
leading zeros as they like.

An integer is read in three steps that do not look at one another's work: the
blanks go, then one mark of the base, and what is left is a sign and digits. So
a sign stands behind the mark, not before it, and a second mark is no digit.

## Main definitions

* `Literal.natural?`: Digits behind an optional plus sign, below a bound.
* `Literal.integer?`: Digits behind an optional sign, within a width of bits.
* `Literal.unmarked`: A literal without its mark of hexadecimal.
* `Literal.hex?`, `Literal.signedHex?`: A hexadecimal literal, marked or not.
* `Literal.address?`: A marked hexadecimal or an unmarked decimal word.
* `Literal.count?`: A decimal word, with nothing around it.
-/

namespace StackLift

namespace Literal

/-- The value of a digit, letters of either case counting from ten. -/
def digit? (c : Char) : Option Nat :=
  if '0' ≤ c ∧ c ≤ '9' then some (c.toNat - '0'.toNat)
  else if 'a' ≤ c ∧ c ≤ 'f' then some (c.toNat - 'a'.toNat + 10)
  else if 'A' ≤ c ∧ c ≤ 'F' then some (c.toNat - 'A'.toNat + 10)
  else none

/-- The value of a digit in base `base`. -/
def digitIn? (base : Nat) (c : Char) : Option Nat :=
  (digit? c).filter (· < base)

/-- The number whose digits in base `base` follow those of `high`. -/
def digitsAfter? (base high : Nat) : List Char → Option Nat
  | [] => some high
  | c :: cs => match digitIn? base c with
    | some d => digitsAfter? base (high * base + d) cs
    | none => none

/-- The number with the given digits in base `base`; there has to be one. -/
def digits? (base : Nat) : List Char → Option Nat
  | [] => none
  | c :: cs => digitsAfter? base 0 (c :: cs)

/-- A number below `bound`, behind at most one plus sign. -/
def natural? (base bound : Nat) (cs : List Char) : Option Nat :=
  let magnitude := match cs with
    | '+' :: ds => digits? base ds
    | ds => digits? base ds
  magnitude.filter (· < bound)

/-- A number behind at most one sign, in the range of `bits`-bit two's
    complement. -/
def integer? (base bits : Nat) (cs : List Char) : Option Int :=
  match cs with
  | '-' :: ds => (digits? base ds).filter (· ≤ Nat.pow 2 (bits - 1)) |>.map fun n => -(n : Int)
  | _ => (natural? base (Nat.pow 2 (bits - 1)) cs).map Int.ofNat

/-- What stands behind the mark of a hexadecimal literal, if it has one. -/
def behindMark? : List Char → Option (List Char)
  | '0' :: 'x' :: cs => some cs
  | '0' :: 'X' :: cs => some cs
  | '$' :: cs => some cs
  | _ => none

/-- A literal without its mark of hexadecimal, at most one of them. -/
def unmarked (cs : List Char) : List Char := (behindMark? cs).getD cs

/-- A hexadecimal number below `bound`, with or without a mark. -/
def hex? (bound : Nat) (text : String) : Option Nat :=
  natural? 16 bound (unmarked (Blank.trim text.toList))

/-- A hexadecimal `bits`-bit integer, with or without a mark. -/
def signedHex? (bits : Nat) (text : String) : Option Int :=
  integer? 16 bits (unmarked (Blank.trim text.toList))

/-- An address: hexadecimal if it is marked, decimal otherwise. -/
def address? (text : String) : Option UInt64 :=
  let cs := Blank.trim text.toList
  let word := match behindMark? cs with
    | some ds => natural? 16 UInt64.size ds
    | none => natural? 10 UInt64.size cs
  word.map UInt64.ofNat

/-- A decimal word without blanks around it. -/
def count? (text : String) : Option Nat := natural? 10 UInt64.size text.toList

end Literal

end StackLift
