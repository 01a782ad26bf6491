import StackLift.Opcode.Basic

/-!
# Opcode Tables

The meaning of each opcode byte. Several bytes may stand for the same
descriptor. A descriptor is kept once, in the order in which descriptors came,
and every byte holds the position of its descriptor.

The positions, not the descriptors, decide which bytes are aliases: two equal
descriptors that were entered separately stay apart.

## Main definitions

* `OpcodeTable`: Descriptors and the position assigned to each byte.
* `OpcodeTable.insert`: A further descriptor with its bytes, or the byte that is
  already taken.
* `OpcodeTable.lookup?`: The descriptor of a byte.
* `OpcodeTable.entries`: The assigned bytes with their descriptors.
* `OpcodeTable.aliases`: The bytes that share a byte's descriptor.

## Theorems

* `mem_allBytes`: Every byte is among all bytes.
* `insert_eq_error_iff`: What keeps a descriptor out is the first of its bytes
  that is taken.
* `slot_of_insert_eq_ok`: The bytes of a new descriptor hold its position, all
  others what they held before.
* `descriptors_of_insert_eq_ok`: A new descriptor goes behind the others.
-/

namespace StackLift

/-- All byte values in increasing order. -/
def allBytes : List UInt8 := (List.range 256).map UInt8.ofNat

theorem mem_allBytes (b : UInt8) : b ∈ allBytes :=
  List.mem_map.mpr ⟨b.toNat, List.mem_range.mpr b.toNat_lt, UInt8.ofNat_toNat⟩

/-- The meaning of the opcode bytes. -/
structure OpcodeTable where
  /-- The descriptors in the order in which they came. -/
  descriptors : List Opcode
  /-- The position of each byte's descriptor, for the bytes that have one. -/
  slot : UInt8 → Option Nat

namespace OpcodeTable

instance : EmptyCollection OpcodeTable := ⟨⟨[], fun _ => none⟩⟩

/-- The table has no descriptor. -/
def isEmpty (t : OpcodeTable) : Bool := t.descriptors.isEmpty

/-- The byte stands for a descriptor. -/
def isTaken (t : OpcodeTable) (b : UInt8) : Bool := (t.slot b).isSome

/-- The table with a further descriptor behind the others, reached from every
    byte in `bytes`; or the first of these bytes that is already taken. -/
def insert (t : OpcodeTable) (bytes : List UInt8) (o : Opcode) : Except UInt8 OpcodeTable :=
  match bytes.find? t.isTaken with
  | some b => .error b
  | none => .ok
      { descriptors := t.descriptors ++ [o]
        slot := fun b => if b ∈ bytes then some t.descriptors.length else t.slot b }

/-- The descriptor of a byte. -/
def lookup? (t : OpcodeTable) (b : UInt8) : Option Opcode :=
  (t.slot b).bind (t.descriptors[·]?)

/-- The assigned bytes in increasing order, each with its descriptor. -/
def entries (t : OpcodeTable) : List (UInt8 × Opcode) :=
  allBytes.filterMap fun b => (t.lookup? b).map (b, ·)

/-- The bytes that share the descriptor of `b`, in increasing order. -/
def aliases (t : OpcodeTable) (b : UInt8) : List UInt8 :=
  match t.slot b with
  | some n => allBytes.filter fun c => t.slot c == some n
  | none => []

theorem insert_eq_error_iff {t : OpcodeTable} {bytes : List UInt8} {o : Opcode} {b : UInt8} :
    t.insert bytes o = .error b ↔ bytes.find? t.isTaken = some b := by
  cases h : bytes.find? t.isTaken <;> simp [insert, h]

theorem slot_of_insert_eq_ok {t u : OpcodeTable} {bytes : List UInt8} {o : Opcode}
    (h : t.insert bytes o = .ok u) (b : UInt8) :
    u.slot b = if b ∈ bytes then some t.descriptors.length else t.slot b := by
  simp only [insert] at h
  split at h
  · contradiction
  · cases h
    rfl

theorem descriptors_of_insert_eq_ok {t u : OpcodeTable} {bytes : List UInt8} {o : Opcode}
    (h : t.insert bytes o = .ok u) : u.descriptors = t.descriptors ++ [o] := by
  simp only [insert] at h
  split at h
  · contradiction
  · cases h
    rfl

end OpcodeTable

end StackLift
