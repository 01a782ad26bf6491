/-!
# Images

A dump of bytecode that starts at a base address. Every byte of the dump is part
of the image; there is no container format.

An address belongs to the image if it is not below the base and its distance to
the base is less than the size. The test does not wrap around: the bytes of an
image that reaches past the last address can be seen through a window that
starts below it, but they have no address of their own.

## Main definitions

* `Image`: The bytes and the base address.
* `Image.contains`: The address belongs to the image.
* `Image.window`: The bytes at an address, as many as there are up to a limit.
* `Image.retrieve?`: Exactly so many bytes at an address.
* `Image.remaining`: The number of bytes from an address to the end.

## Theorems

* `window_of_offset?`: What a window at an offset shows.
* `length_window_le`: A window is never longer than its limit, nor than what is
  left of the image.
* `remaining_add_lt`: Going forward by bytes that a window shows leaves less.
-/

namespace StackLift

/-- A dump of bytecode that starts at a base address. -/
structure Image where
  /-- The address of the first byte. -/
  base : UInt64
  /-- The bytes. -/
  bytes : Array UInt8
  /-- No file reaches this size. -/
  size_lt : bytes.size < 0x8000000000000000

namespace Image

/-- The bytes as an image at `base`, unless they are more than an image can
    hold. -/
def ofBytes? (base : UInt64) (bytes : Array UInt8) : Option Image :=
  if h : bytes.size < 0x8000000000000000 then some ⟨base, bytes, h⟩ else none

/-- The number of bytes. -/
def size (m : Image) : Nat := m.bytes.size

/-- The address behind the last byte. -/
def finish (m : Image) : UInt64 := m.base + UInt64.ofNat m.size

/-- The position of an address within the image. -/
def offset? (m : Image) (a : UInt64) : Option Nat :=
  if m.base ≤ a ∧ (a - m.base).toNat < m.size then some (a - m.base).toNat else none

/-- The address belongs to the image. -/
def contains (m : Image) (a : UInt64) : Bool := (m.offset? a).isSome

/-- The bytes from an address on, at most `limit` of them. Fewer are shown near
    the end of the image, and none outside of it. -/
def window (m : Image) (a : UInt64) (limit : Nat) : List UInt8 :=
  match m.offset? a with
  | some o => (m.bytes.extract o (o + limit)).toList
  | none => []

/-- Exactly `count` bytes from an address on, if the address belongs to the image
    and there are so many. -/
def retrieve? (m : Image) (a : UInt64) (count : Nat) : Option (List UInt8) :=
  match m.offset? a with
  | some o =>
    if o + count ≤ m.size then some (m.bytes.extract o (o + count)).toList else none
  | none => none

/-- The number of bytes from an address to the end of the image. -/
def remaining (m : Image) (a : UInt64) : Nat :=
  match m.offset? a with
  | some o => m.size - o
  | none => 0

variable {m : Image} {a : UInt64} {o limit n : Nat}

theorem window_of_offset? (h : m.offset? a = some o) :
    m.window a limit = (m.bytes.toList.drop o).take limit := by
  simp [window, h, Array.toList_extract, List.extract_eq_take_drop]

theorem offset?_lt (h : m.offset? a = some o) : o < m.size := by
  simp only [offset?] at h
  split at h
  · next hc => cases h; exact hc.2
  · contradiction

theorem remaining_le : m.remaining a ≤ m.size := by
  simp only [remaining]
  split <;> omega

/-- A window is no longer than its limit, nor than what is left of the image. -/
theorem length_window_le : (m.window a limit).length ≤ min limit (m.remaining a) := by
  cases h : m.offset? a with
  | none => simp [window, h]
  | some o =>
    rw [window_of_offset? h]
    simp only [List.length_take, List.length_drop, remaining, h, size, Array.length_toList]
    omega

/-- Going forward by bytes that are left in the image leaves fewer of them. The
    address may run past its last value on the way, but then it is below the
    base, the image being smaller than the address space. -/
theorem remaining_add_lt (hn : 0 < n) (hr : n ≤ m.remaining a) :
    m.remaining (a + UInt64.ofNat n) < m.remaining a := by
  have hsize : m.size < 0x8000000000000000 := m.size_lt
  have ha := a.toNat_lt
  have hb := m.base.toNat_lt
  have hn64 : n % 2 ^ 64 = n := by
    have : m.remaining a ≤ m.size := remaining_le
    omega
  -- Both addresses are measured from the base; the second may have wrapped.
  simp only [remaining, offset?, UInt64.le_iff_toNat_le, UInt64.toNat_sub, UInt64.toNat_add,
    UInt64.toNat_ofNat', hn64] at hr ⊢
  split at hr
  · next o ho =>
    split at ho
    · cases ho
      split
      · next o' ho' =>
        split at ho'
        · cases ho'
          omega
        · contradiction
      · omega
    · contradiction
  · omega

end Image

end StackLift
