/-!
# Shortest Decimals

A floating point number with the fewest decimal digits that still tell it from
every other one.

A finite number is `m * 2 ^ q`. The reals that are rounded to it form an
interval that reaches half way to either neighbour, and the ends belong to it if
`m` is even. The digits wanted are those of the point in the interval that lies
on the coarsest decimal grid. If a grid has a point in the interval, then one of
the two points around the number itself is such a point, so only these two are
looked at.

Numbers of a common size are written with all their places, very large and very
small ones with one digit before the point and a power of ten.

## Main definitions

* `BinaryFloat`: A finite floating point number, without its sign.
* `BinaryFloat.ofBits`: The number behind a bit pattern.
* `BinaryFloat.onGrid?`: The nearest point of a decimal grid, if it is in the
  interval.
* `BinaryFloat.shortest`: The shortest digits, with the power of ten they count.
* `Shortest.positional`, `Shortest.scientific`: The two ways to write digits.
* `Shortest.text`: A number as it is written.
-/

namespace StackLift

/-- The magnitude `mantissa * 2 ^ exponent` of a floating point number. -/
structure BinaryFloat where
  /-- The mantissa, below `2 ^ 53`. -/
  mantissa : Nat
  /-- The power of two it counts. -/
  exponent : Int
  /-- The next lower number is only half as far away as the next higher one. -/
  narrowBelow : Bool
deriving DecidableEq, Repr

namespace BinaryFloat

/-- The highest bit of the mantissa, which bit patterns leave out. -/
def hiddenBit : Nat := 0x10000000000000

/-- The magnitude behind the bit pattern of a finite number. -/
def ofBits (bits : UInt64) : BinaryFloat :=
  let fraction : Nat := bits.toNat % hiddenBit
  let scale : Nat := bits.toNat / hiddenBit % 0x800
  if scale = 0 then ⟨fraction, -1074, false⟩
  else ⟨hiddenBit + fraction, Int.ofNat scale - 1075, fraction = 0 ∧ 1 < scale⟩

/-- A number of quarters of the last mantissa bit, measured in steps of
    `10 ^ grid`, as a fraction. -/
def quarters (b : BinaryFloat) (grid : Int) (n : Nat) : Nat × Nat :=
  (n * Nat.pow 2 (b.exponent - 2).toNat * Nat.pow 10 (-grid).toNat,
    Nat.pow 2 (2 - b.exponent).toNat * Nat.pow 10 grid.toNat)

/-- The point `steps * 10 ^ grid` is rounded to the number. -/
def accepts (b : BinaryFloat) (grid : Int) (steps : Nat) : Bool :=
  let (low, scale) := b.quarters grid (4 * b.mantissa - if b.narrowBelow then 1 else 2)
  let high := (b.quarters grid (4 * b.mantissa + 2)).1
  if b.mantissa % 2 = 0 then low ≤ steps * scale ∧ steps * scale ≤ high
  else low < steps * scale ∧ steps * scale < high

/-- The number of steps of `10 ^ grid` that comes nearest to the number, if that
    many are rounded to it. A number half way between two steps goes to the even
    one. -/
def onGrid? (b : BinaryFloat) (grid : Int) : Option Nat :=
  let (value, scale) := b.quarters grid (4 * b.mantissa)
  let below := value / scale
  let beyond := 2 * (value % scale)
  let nearest :=
    if beyond < scale ∨ (beyond = scale ∧ below % 2 = 0) then [below, below + 1]
    else [below + 1, below]
  nearest.find? fun steps => 0 < steps && b.accepts grid steps

/-- The powers of ten from the largest a number reaches to the smallest that is
    needed to tell any two numbers apart. -/
def grids : List Int := (List.range 634).map fun n : Nat => 308 - Int.ofNat n

/-- The shortest digits of the number, with the power of ten that they count. -/
def shortest (b : BinaryFloat) : Nat × Int :=
  if b.mantissa = 0 then (0, 0)
  else (grids.findSome? fun grid => (b.onGrid? grid).map (·, grid)).getD (0, 0)

end BinaryFloat

namespace Shortest

/-- The number `digits * 10 ^ exponent` with all its places and a point. -/
def positional (digits : Nat) (exponent : Int) : String :=
  let places := (-exponent).toNat
  let ds := (Nat.toDigits 10 (digits * Nat.pow 10 exponent.toNat)).leftpad (places + 1) '0'
  let whole := ds.length - places
  let fraction := if places = 0 then ['0'] else ds.drop whole
  String.ofList (ds.take whole ++ '.' :: fraction)

/-- The number `digits * 10 ^ exponent` with its first digit before the point, and
    the power of ten which that digit counts. A point that nothing follows is left
    out; the sign of the power is not. -/
def scientific (digits : Nat) (exponent : Int) : String :=
  let ds := Nat.toDigits 10 digits
  let power := exponent + Int.ofNat (ds.length - 1)
  let fraction := if ds.length ≤ 1 then [] else '.' :: ds.drop 1
  String.ofList (ds.take 1 ++ fraction ++ ['e', if power < 0 then '-' else '+'] ++
    Nat.toDigits 10 power.natAbs)

/-- The least power of ten that the first digit of a number may count if all places
    are written. -/
def leastPower : Int := -5

/-- The greatest power of ten that the first digit of a number may count if all
    places are written. -/
def greatestPower : Int := 15

/-- The number `digits * 10 ^ exponent` as it is written. -/
def decimal (digits : Nat) (exponent : Int) : String :=
  let power := exponent + Int.ofNat ((Nat.toDigits 10 digits).length - 1)
  if leastPower ≤ power ∧ power ≤ greatestPower then positional digits exponent
  else scientific digits exponent

/-- A finite number as it is written: the sign and the shortest digits. -/
def text (x : Float) : String :=
  let bits := x.toBits
  let (digits, exponent) := (BinaryFloat.ofBits bits).shortest
  (if bits < 0x8000000000000000 then "" else "-") ++ decimal digits exponent

end Shortest

end StackLift
