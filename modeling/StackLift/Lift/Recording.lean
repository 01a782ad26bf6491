import StackLift.Lift.Basic
import StackLift.Listing.Basic

/-!
# Recordings

Lifted code as a list of statements, each with the address of the instruction
that it comes from. The handle of an expression is the expression itself.

## Main definitions

* `Recording`: Statements with their addresses.
* `Recording.moveTo`: The recording with the address of what comes next.
* `Recorder`: Computations that add to a recording.
* `Recording.stackEffect`: The change in stack depth over all statements.
* `Revision.liftBlock`: The recording of a block's instructions.
-/

namespace StackLift

/-- Statements, each with the address of the instruction that it comes from. -/
structure Recording where
  /-- The address of the statements that are added next. -/
  address : UInt64 := 0
  /-- The statements with their addresses. -/
  entries : Array (UInt64 × Statement) := #[]
deriving DecidableEq, Repr

namespace Recording

/-- The statements without their addresses. -/
def statements (c : Recording) : List Statement := c.entries.toList.map (·.2)

/-- The change in stack depth over all statements, in slots. -/
def stackEffect (c : Recording) : Int :=
  c.statements.foldr (fun s total => s.stackEffect + total) 0

/-- The recording, with what is added next belonging to `address`. -/
def moveTo (c : Recording) (address : UInt64) : Recording := { c with address }

/-- The recording with a further statement. -/
def add (c : Recording) (s : Statement) : Recording :=
  { c with entries := c.entries.push (c.address, s) }

end Recording

/-- Computations that add to a recording. -/
abbrev Recorder := StateM Recording

namespace Recorder

/-- Adds a statement to the recording. -/
def add (s : Statement) : Recorder Unit := modify (·.add s)

instance : Sink Recorder Expression where
  constant width value := pure (.const width value)
  reg width r := pure (.reg width r)
  pop width := pure (.pop width)
  load width address := pure (.load width address)
  binary op width left right := pure (.binary op width left right)
  nop := add .nop
  push width value := add (.push width value)
  setReg width r value := add (.setReg width r value)
  store width address value := add (.store width address value)
  jump target := add (.jump target)
  ret := add .ret

end Recorder

namespace Revision

/-- The recording continued by the instruction at an address of an image. -/
def record (r : Revision) (m : Image) (c : Recording) (a : UInt64) :
    Except DecodeError Recording :=
  let (outcome, c) := (r.liftAt a (m.window a r.maxLength) : Recorder _).run (c.moveTo a)
  outcome.map fun _ => c

/-- The recording of a block's marked instructions, or the error at the first of
    them that is none. -/
def liftBlock (r : Revision) (m : Image) (b : Block) : Except DecodeError Recording :=
  b.addresses.foldlM (r.record m) {}

end Revision

end StackLift
