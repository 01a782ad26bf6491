import StackLift.Instruction.Basic

/-!
# Control Flow

How an instruction passes control on, and the edges by which control leaves it.

## Main definitions

* `Flow`: What may be executed after an instruction.
* `Reference`: An edge by which control leaves an instruction.
* `Instruction.flow`: The flow of an instruction.
* `Revision.references`: The edges that leave an instruction.
* `Revision.flowAt`: Length, flow and edges of the instruction at the start of a
  byte window.
-/

namespace StackLift

/-- What may be executed after an instruction. -/
inductive Flow where
  /-- The instruction behind it. -/
  | normal
  /-- Code elsewhere, and the instruction behind it if `fallsThrough`. -/
  | branching (fallsThrough : Bool)
  /-- Nothing in this procedure. -/
  | returning
deriving DecidableEq, Repr

namespace Flow

/-- The instruction behind may be executed next. -/
def fallsThrough : Flow → Bool
  | normal => true
  | branching through => through
  | returning => false

/-- The instruction does not end its block. -/
def staysInBlock : Flow → Bool
  | normal => true
  | branching _ => false
  | returning => false

end Flow

/-- The two ways for control to leave the instructions in sequence. -/
inductive ReferenceKind where
  /-- A branch to other code. -/
  | branch
  /-- The end of the procedure. -/
  | ret
deriving DecidableEq, Repr, Ord

namespace ReferenceKind

/-- The tag of the kind in listings. -/
def tag : ReferenceKind → String
  | branch => "LOC"
  | ret => "RET"

end ReferenceKind

/-- An edge by which control leaves an instruction. -/
structure Reference where
  /-- The address of the instruction. -/
  source : UInt64
  /-- Where control goes, if the code says so. -/
  target? : Option UInt64
  /-- How control leaves. -/
  kind : ReferenceKind
deriving DecidableEq, Repr, Ord

namespace Reference

/-- The edge in words. -/
def text (e : Reference) : String :=
  match e.target? with
  | some target => s!"{e.kind.tag} {Numeral.hex e.source} -> {Numeral.hex target}"
  | none => s!"{e.kind.tag} {Numeral.hex e.source}"

end Reference

/-- What leads from an instruction to those behind it. -/
structure FlowInfo where
  /-- The number of bytes that the instruction occupies. -/
  length : Nat
  flow : Flow
  /-- The edges that leave the instruction. -/
  references : List Reference
deriving DecidableEq, Repr

namespace Instruction

/-- How an instruction passes control on. -/
def flow (i : Instruction) : Flow :=
  match i.category with
  | .unconditionalBranch => .branching false
  | .ret => .returning
  | .nop | .stackPush | .stackBinaryOp _ | .memoryRead | .memoryWrite
  | .registerRelativeAddress _ => .normal

end Instruction

namespace Revision

/-- The edges that leave an instruction. -/
def references (r : Revision) (i : Instruction) : List Reference :=
  match i.category with
  | .unconditionalBranch => [⟨i.address, r.branchTarget? i, .branch⟩]
  | .ret => [⟨i.address, none, .ret⟩]
  | .nop | .stackPush | .stackBinaryOp _ | .memoryRead | .memoryWrite
  | .registerRelativeAddress _ => []

/-- The flow of the instruction at the start of a window that lies at `address`. -/
def flowAt (r : Revision) (address : UInt64) (window : List UInt8) :
    Except DecodeError FlowInfo :=
  (r.decode address window).map fun i => ⟨i.length, i.flow, r.references i⟩

end Revision

end StackLift
