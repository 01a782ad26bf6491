/-!
# Words and Bytes

Words of 64 bits as byte sequences, the least significant byte first.

## Main definitions

* `Word.ofBytes`: The word with the given bytes.
* `Word.toBytes`: The low bytes of a word.
* `Word.mask`: The word whose low bytes are all ones.

## Theorems

* `length_toBytes`: A word gives as many bytes as it is asked for.
-/

namespace StackLift

namespace Word

/-- The word with the given bytes, the least significant first. A word has eight
    bytes, and what stands behind the eighth does not count. -/
def ofBytes : List UInt8 → UInt64
  | [] => 0
  | b :: bs => ofBytes bs <<< 8 ||| b.toUInt64

/-- The low `n` bytes of a word, the least significant first. A word has eight bytes,
    and behind the eighth they come once more from the lowest on, since a word is
    shifted by the count modulo 64. -/
def toBytes (n : Nat) (w : UInt64) : List UInt8 :=
  (List.range n).map fun k => (w >>> UInt64.ofNat (8 * k)).toUInt8

@[simp] theorem length_toBytes (n : Nat) (w : UInt64) : (toBytes n w).length = n := by
  rw [toBytes, List.length_map, List.length_range]

/-- The word whose low `width` bytes are all ones, the others being zero. -/
def mask (width : UInt64) : UInt64 :=
  if 8 ≤ width then 0xffffffffffffffff else (1 <<< (width * 8)) - 1

end Word

end StackLift
