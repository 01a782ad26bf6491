import StackLift.Lift.Recording
import StackLift.Listing.Scan
import StackLift.Machine.Basic

/-!
# Execution

Lifted code that is executed block by block. A block runs to its end; from there
control goes to the target of its last statement, or to the address behind the
block if the last statement names none. Only addresses at which a block starts
have code.

The number of blocks is bounded from outside, since code may well go round in
circles.

## Main definitions

* `LiftedBlock`: A block with its code.
* `Revision.liftListings`: The blocks of a scan with their code.
* `Execution.State`: A machine and the address where it goes on.
* `Execution.Outcome`: Why an execution ended.
* `Execution.advance`: The execution of one block.
* `Execution.run`: The execution of so many blocks at most.
-/

namespace StackLift

/-- A block with its code. -/
structure LiftedBlock where
  block : Block
  /-- The statements of the block's instructions. -/
  code : Recording

namespace Revision

/-- The blocks of a scan in the order of their addresses, each with its code or
    the error at the first of its instructions that is none. -/
def liftListings (r : Revision) (m : Image) (ls : Listings) :
    List (Block × Except DecodeError Recording) :=
  ls.values.map fun l => (l.block, r.liftBlock m l.block)

end Revision

namespace Execution

/-- A machine and the address where it goes on. -/
structure State where
  /-- The address of the next block. -/
  position : UInt64
  machine : Machine

/-- Why an execution ended. -/
inductive Outcome where
  /-- No block starts at the address. -/
  | noCode (a : UInt64)
  /-- The block at the address has left the procedure. -/
  | returned (a : UInt64)
  /-- No further block may be executed; the next one would be at the address. -/
  | stopped (a : UInt64)
deriving DecidableEq, Repr

namespace Outcome

/-- The outcome of an execution of `limit` blocks at most, in words. -/
def text (limit : Nat) : Outcome → String
  | noCode a => s!"no lifted code at {Numeral.hex a}"
  | returned a => s!"returned from block {Numeral.hex a}"
  | stopped a => s!"stopped after {limit} blocks at {Numeral.hex a}"

end Outcome

/-- The blocks with code, by the address at which they start. -/
def codeMap (blocks : List (Block × Except DecodeError Recording)) :
    Std.ExtTreeMap UInt64 LiftedBlock :=
  .ofList <| blocks.filterMap fun (block, lifted) =>
    lifted.toOption.map fun code => (block.start, { block, code : LiftedBlock })

/-- Executes one block. The second component says why there is no next one. -/
def advance (code : UInt64 → Option LiftedBlock) (s : State) : State × Option Outcome :=
  match code s.position with
  | none => (s, some (.noCode s.position))
  | some b => match Machine.run b.code.statements s.machine with
    | (.proceed, machine) => (⟨b.block.finish, machine⟩, none)
    | (.jump target, machine) => (⟨target, machine⟩, none)
    | (.ret, machine) => (⟨s.position, machine⟩, some (.returned s.position))

/-- Executes blocks until there is no next one, but so many at most. -/
def run (code : UInt64 → Option LiftedBlock) : Nat → State → State × Outcome
  | 0, s => (s, .stopped s.position)
  | limit + 1, s => match advance code s with
    | (s, some outcome) => (s, outcome)
    | (s, none) => run code limit s

end Execution

end StackLift
