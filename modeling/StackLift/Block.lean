import Std.Data.ExtTreeSet

/-!
# Blocks

A stretch of code that is executed from its start to its end, with the places in
it where instructions are known to start. Addresses wrap around at the end of
the address space.

## Main definitions

* `Block`: A start, a length and the marked offsets.
* `Block.mark`: The block with a further mark.
* `Block.finish`: The address behind the block.
* `Block.contains`: The address lies within the block.
* `Block.addresses`: The marked addresses, in the order of their offsets.
-/

namespace StackLift

/-- A stretch of code that is executed from its start to its end. -/
structure Block where
  /-- The address of the first byte. -/
  start : UInt64
  /-- The number of bytes. -/
  length : UInt64
  /-- The offsets at which instructions are known to start. -/
  offsets : Std.ExtTreeSet UInt64 := ∅

namespace Block

/-- Blocks are ordered by start, then by length, then by their offsets. -/
instance : Ord Block where
  compare b c := (compare b.start c.start).then <| (compare b.length c.length).then <|
    compare b.offsets.toList c.offsets.toList

/-- The address behind the block. -/
def finish (b : Block) : UInt64 := b.start + b.length

/-- The address is not below the start, and its distance from there is less than
    the length. -/
def contains (b : Block) (a : UInt64) : Bool := b.start ≤ a && a - b.start < b.length

/-- The block with an instruction known to start at `offset`. A mark beyond the
    end of the block leaves no trace. -/
def mark (b : Block) (offset : UInt64) : Block :=
  if offset < b.length then { b with offsets := b.offsets.insert offset } else b

/-- The block with an instruction known to start at each of the offsets. -/
def markAll (b : Block) (offsets : List UInt64) : Block := offsets.foldl mark b

/-- The marked addresses, in the order of their offsets. -/
def addresses (b : Block) : List UInt64 := b.offsets.toList.map (b.start + ·)

end Block

end StackLift
