import Mathlib.Algebra.Group.Nat.Defs
import StackLift.Lift.Recording
import StackLift.Listing.Scan

/-!
# Moving Code

Code at another place in the address space.

To move something by a distance is to add the distance to each address in it, and to
nothing else. Lengths, offsets, bytes and texts stay as they are, and so do the operands
in a text, which are shown as they are encoded. Addresses wrap around, so the distance may
well be the one back.

An image is moved by its base. Its test for addresses does not wrap around, and moving it
can push its end over the end of the address space; then some of its bytes have no address
any more. As long as the image fits, before and after, an address belongs to it just if
the moved address belongs to the moved image, and both show the same bytes.

## Main definitions

* `Instruction.shift`, `Reference.shift`, `Line.shift`, `Block.shift`, `Listing.shift`: A
  listing and its parts, moved.
* `DecodeError.shift`: An error, moved.
* `Statement.shift`: A statement that jumps to a moved target.
* `Recording.shiftedEntries`: The statements of a recording, moved.
* `Image.shift`, `Image.Fits`: An image, moved, and one that does not wrap around.

## Theorems

* `shift_markAll`: A block is moved with its marks.
* `contains_shift`, `window_shift`: A moved image has its bytes at moved addresses.
-/

namespace StackLift

/-- The error, moved by `δ`. -/
def DecodeError.shift (δ : UInt64) : DecodeError → DecodeError
  | .unrecognized byte address => .unrecognized byte (address + δ)
  | .truncated address needed available => .truncated (address + δ) needed available

/-- The instruction, moved by `δ`. -/
def Instruction.shift (δ : UInt64) (i : Instruction) : Instruction :=
  { i with address := i.address + δ }

/-- The edge, moved by `δ` at both of its ends. -/
def Reference.shift (δ : UInt64) (e : Reference) : Reference :=
  { e with source := e.source + δ, target? := e.target?.map (· + δ) }

/-- The block, moved by `δ`. Its marks are offsets and stay. -/
def Block.shift (δ : UInt64) (b : Block) : Block := { b with start := b.start + δ }

/-- The line, moved by `δ`. A label is made from the address once more. -/
def Line.shift (δ : UInt64) (x : Line) : Line :=
  { x with label := x.label.map fun _ => locationLabel (x.address + δ), address := x.address + δ }

/-- The run, moved by `δ`. -/
def Run.shift (δ : UInt64) (run : Run) : Run :=
  ⟨run.instructions.map (Instruction.shift δ), run.error.map (DecodeError.shift δ)⟩

/-- The listing, moved by `δ`. -/
def Listing.shift (δ : UInt64) (l : Listing) : Listing where
  block := l.block.shift δ
  lines := l.lines.map (Line.shift δ)
  references := l.references.map (Reference.shift δ)
  exit := l.exit
  error := l.error.map (DecodeError.shift δ)

/-- The statement with its target moved by `δ`, if it jumps to a constant. -/
def Statement.shift (δ : UInt64) : Statement → Statement
  | .jump (.const width target) => .jump (.const width (target + δ))
  | s => s

/-- The statements of the recording with their addresses, moved by `δ`. -/
def Recording.shiftedEntries (δ : UInt64) (c : Recording) : List (UInt64 × Statement) :=
  c.entries.toList.map fun entry => (entry.1 + δ, entry.2.shift δ)

/-- The image, moved by `δ`. -/
def Image.shift (δ : UInt64) (m : Image) : Image := { m with base := m.base + δ }

/-- The image does not go on behind the end of the address space. -/
def Image.Fits (m : Image) : Prop := m.base.toNat + m.size ≤ 2 ^ 64

instance (m : Image) : Decidable m.Fits := inferInstanceAs (Decidable (_ ≤ _))

variable {δ a : UInt64} {m : Image}

theorem Instruction.next_shift (δ : UInt64) (i : Instruction) :
    (i.shift δ).next = i.next + δ := by
  simp only [next, length, shift]
  ac_rfl

/-- Moved addresses are as far apart as before. -/
theorem shift_sub_shift (a b δ : UInt64) : a + δ - (b + δ) = a - b := by grind

theorem shift_neg_shift (a δ : UInt64) : a + δ + -δ = a := by
  rw [← UInt64.sub_eq_add_neg, UInt64.add_sub_cancel]

namespace Block

variable {b : Block}

/-- A block is moved with its marks, since a mark does not depend on the start. -/
theorem shift_markAll (δ : UInt64) (os : List UInt64) :
    (b.markAll os).shift δ = (b.shift δ).markAll os := by
  induction os generalizing b with
  | nil => rfl
  | cons o os ih =>
      have hmark : (b.mark o).shift δ = (b.shift δ).mark o := by
        unfold mark
        by_cases ho : o < b.length
        · rw [if_pos ho, if_pos (show o < (b.shift δ).length from ho)]
          rfl
        · rw [if_neg ho, if_neg (show ¬o < (b.shift δ).length from ho)]
      rw [markAll, List.foldl_cons, ← markAll, ih, hmark]
      rfl

theorem addresses_shift (δ : UInt64) (b : Block) :
    (b.shift δ).addresses = b.addresses.map (· + δ) := by
  rw [addresses, addresses, List.map_map]
  refine List.map_congr_left fun o _ => ?_
  simp only [Function.comp_apply, shift]
  ac_rfl

end Block

namespace Image

theorem shift_shift_neg (δ : UInt64) (m : Image) : (m.shift δ).shift (-δ) = m := by
  rw [shift, shift, shift_neg_shift]

/-- In an image that fits, how far an address is from the base says all about it. -/
theorem offset?_of_fits (h : m.Fits) : m.offset? a =
    if (a - m.base).toNat < m.size then some (a - m.base).toNat else none := by
  have ha := a.toNat_lt
  have hb := m.base.toNat_lt
  have hfits : m.base.toNat + m.size ≤ 2 ^ 64 := h
  unfold offset?
  by_cases hlt : (a - m.base).toNat < m.size
  · -- An address below the base would be too far away, all around the address space.
    have hle : m.base ≤ a := by
      rw [UInt64.toNat_sub] at hlt
      rw [UInt64.le_iff_toNat_le]
      omega
    rw [if_pos ⟨hle, hlt⟩, if_pos hlt]
  · rw [if_neg fun hc => hlt hc.2, if_neg hlt]

theorem offset?_shift (h : m.Fits) (h' : (m.shift δ).Fits) :
    (m.shift δ).offset? (a + δ) = m.offset? a := by
  rw [offset?_of_fits h, offset?_of_fits h']
  simp only [shift, shift_sub_shift]
  rfl

theorem contains_shift (h : m.Fits) (h' : (m.shift δ).Fits) :
    (m.shift δ).contains (a + δ) = m.contains a := by
  rw [contains, contains, offset?_shift h h']

theorem window_shift (h : m.Fits) (h' : (m.shift δ).Fits) (limit : Nat) :
    (m.shift δ).window (a + δ) limit = m.window a limit := by
  rw [window, window, offset?_shift h h']
  rfl

end Image

end StackLift
