import StackLift.Block
import StackLift.Image
import StackLift.Instruction.Flow
import StackLift.Listing.Line

/-!
# Listings

The code at an address, up to the first instruction that passes control on or
the first place where there is no instruction.

`Revision.straightLine` is the walk itself and gives the instructions;
`Listing.ofRun` is what a reader sees of them. An address where nothing can be
decoded does not make the walk fail, it ends it.

## Main definitions

* `Run`: Instructions one behind the other, and why they end.
* `Revision.straightLine`: The run at an address of an image.
* `Listing`: A run as a block with lines, edges and the way it ends.
* `Revision.listing`: The listing at an address of an image.
* `Listing.successors`: Where the code of a listing may continue.

## Theorems

* `remaining_next_lt`: Behind a decoded instruction there is less left of the
  image.
-/

namespace StackLift

/-- Instructions one behind the other. -/
structure Run where
  instructions : List Instruction
  /-- Why no further instruction was decoded, unless the last one ends the run. -/
  error : Option DecodeError

namespace Revision

variable {r : Revision} {m : Image} {a : UInt64} {i : Instruction}

/-- The instruction at an address of an image. -/
def decodeAt (r : Revision) (m : Image) (a : UInt64) : Except DecodeError Instruction :=
  r.decode a (m.window a r.maxLength)

/-- Behind a decoded instruction there is less left of the image. -/
theorem remaining_next_lt (h : r.decodeAt m a = .ok i) : m.remaining i.next < m.remaining a := by
  have hlen := length_le_of_decode h
  have hwin : (m.window a r.maxLength).length ≤ min r.maxLength (m.remaining a) :=
    Image.length_window_le
  rw [Instruction.next, address_of_decode h]
  exact Image.remaining_add_lt i.opcode.length_pos (by simp only [Instruction.length] at *; omega)

/-- The instructions from an address on, up to the first that ends its block. -/
def straightLine (r : Revision) (m : Image) (a : UInt64) : Run :=
  match _h : r.decodeAt m a with
  | .error e => ⟨[], some e⟩
  | .ok i =>
    if i.flow.staysInBlock then
      let rest := r.straightLine m i.next
      ⟨i :: rest.instructions, rest.error⟩
    else ⟨[i], none⟩
termination_by m.remaining a
decreasing_by exact remaining_next_lt _h

end Revision

/-- A run as a reader sees it. -/
structure Listing where
  /-- The bytes that the instructions occupy, with a mark at each instruction. -/
  block : Block
  lines : List Line
  /-- The edges that leave the instructions. -/
  references : List Reference
  /-- How the last instruction passes control on. -/
  exit : Option Flow
  /-- Why no further instruction was decoded. -/
  error : Option DecodeError

namespace Listing

/-- The listing of a run of instructions that starts at `start`. The line at the
    start is labelled. -/
def ofRun (r : Revision) (start : UInt64) (run : Run) : Listing :=
  let is := run.instructions
  let finish := (is.getLast?.map Instruction.next).getD start
  { block := { start, length := finish - start : Block }.markAll (is.map (·.address - start))
    lines := is.map fun i =>
      .ofInstruction (if i.address = start then some (locationLabel start) else none) i
    references := is.flatMap r.references
    exit := is.getLast?.map Instruction.flow
    error := run.error }

/-- Where the code of a listing may continue, as far as the code says: the
    targets of its edges, and the code behind it if the last instruction leaves
    the choice. -/
def successors (l : Listing) : List UInt64 :=
  l.references.filterMap (·.target?) ++
    if l.exit = some (.branching true) then [l.block.finish] else []

/-- The listing as it is printed: the lines, then the edges and the reason for
    its end as remarks. -/
def textLines (l : Listing) : List String :=
  l.lines.map Line.text ++ l.references.map (fun e => "; " ++ e.text) ++
    (l.error.map fun e => "; " ++ e.message).toList

end Listing

namespace Revision

/-- The listing at an address of an image. -/
def listing (r : Revision) (m : Image) (a : UInt64) : Listing :=
  .ofRun r a (r.straightLine m a)

end Revision

end StackLift
