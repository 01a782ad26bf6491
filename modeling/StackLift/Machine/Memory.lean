import Std.Data.ExtHashMap
import StackLift.Word

/-!
# Memory

A memory of bytes over the whole address space. Bytes that were never written
are zero, but a zero that was written is known to have been. Addresses wrap
around, so a word may lie across the end of the address space.

## Main definitions

* `Memory.byte`: The byte at an address.
* `Memory.cell?`: The byte at an address, if one was ever written there.
* `Memory.read`, `Memory.write`: Byte sequences at an address.
* `Memory.load`, `Memory.store`: Words at an address.
* `Memory.wasWritten`: Some byte of a range was ever written.
-/

namespace StackLift

/-- A memory of bytes. -/
structure Memory where
  /-- The bytes that were ever written. -/
  cells : Std.ExtHashMap UInt64 UInt8

namespace Memory

instance : EmptyCollection Memory := ⟨⟨∅⟩⟩

/-- The byte at an address. -/
def byte (m : Memory) (a : UInt64) : UInt8 := m.cells.getD a 0

/-- The byte that was last written to an address. -/
def cell? (m : Memory) (a : UInt64) : Option UInt8 := m.cells[a]?

/-- The memory with one byte changed. -/
def set (m : Memory) (a : UInt64) (b : UInt8) : Memory := ⟨m.cells.insert a b⟩

/-- The `n` bytes from an address on. -/
def read (m : Memory) (a : UInt64) : Nat → List UInt8
  | 0 => []
  | n + 1 => m.byte a :: m.read (a + 1) n

/-- The memory with bytes changed from an address on. -/
def write (m : Memory) (a : UInt64) : List UInt8 → Memory
  | [] => m
  | b :: bs => (m.set a b).write (a + 1) bs

/-- The word of `width` bytes at an address. A word has eight bytes, and what
    stands behind the eighth does not count. -/
def load (m : Memory) (a width : UInt64) : UInt64 := Word.ofBytes (m.read a (min width.toNat 8))

/-- The memory with the low `width` bytes of a word at an address. A word has eight
    bytes, and what is written behind the eighth are its bytes once more. Arithmetic
    that is checked would refuse such a width. -/
def store (m : Memory) (a width value : UInt64) : Memory :=
  m.write a (Word.toBytes width.toNat value)

/-- Some of the `n` bytes from an address on was ever written. -/
def wasWritten (m : Memory) (a : UInt64) : Nat → Bool
  | 0 => false
  | n + 1 => m.cells.contains a || m.wasWritten (a + 1) n

end Memory

end StackLift
