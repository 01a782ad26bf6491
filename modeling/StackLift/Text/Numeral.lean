/-!
# Written Numbers

How addresses, bytes and constants are spelled: lower-case hexadecimal, either
as short as the value allows or filled with zeros to a fixed number of digits.

## Main definitions

* `Numeral.digits`: The hexadecimal digits of a number.
* `Numeral.hex`: A word behind `0x`, without leading zeros.
* `Numeral.padded`: A number filled with zeros to a fixed number of digits.
* `Numeral.bytes`: A byte sequence, two digits a byte.
-/

namespace StackLift

namespace Numeral

/-- The hexadecimal digits of `n`, most significant first and without leading
    zeros; zero is the single digit `0`. -/
def digits (n : Nat) : List Char := Nat.toDigits 16 n

/-- A word as its hexadecimal digits alone. -/
def bare (n : UInt64) : String := String.ofList (digits n.toNat)

/-- A word behind `0x`, without leading zeros. -/
def hex (n : UInt64) : String := "0x" ++ bare n

/-- A number filled with zeros on the left until it has `width` digits. -/
def padded (width n : Nat) : String := String.ofList ((digits n).leftpad width '0')

/-- A byte as exactly two digits. -/
def byte (b : UInt8) : String := padded 2 b.toNat

/-- The bytes two digits each, with nothing between them. -/
def bytes (bs : List UInt8) : String := String.join (bs.map byte)

end Numeral

end StackLift
