/-!
# Virtual Registers

The registers a virtual machine may declare, and the set that one revision of
the instruction set does declare.

No register holds a value while code is being decoded. They are names that
lifted code refers to, every one of them a 64-bit word wide.

## Main definitions

* `Register`: The seven registers.
* `Register.ofName?`: A register from its name in letters of any case.
* `RegisterFile`: The registers one revision declares.
* `RegisterFile.argumentBase`: How the file gives access to the arguments.
* `RegisterFile.hasScratch`: Both operand holders are declared.

## Theorems

* `ofName?_name`: A register is found under its own name.
-/

namespace StackLift

/-- The registers a revision may declare. -/
inductive Register where
  /-- The stack pointer, which every revision has. -/
  | vsp
  /-- Base address of the incoming arguments. -/
  | varg
  /-- Base address of the first argument, where the arguments are split. -/
  | varg1
  /-- Base address of the other arguments, where the arguments are split. -/
  | varg2
  /-- Base address of the register file that the virtualized code sees. -/
  | vreg
  /-- Holder of the left operand of an order-sensitive operation. -/
  | vlhs
  /-- Holder of the right operand of an order-sensitive operation. -/
  | vrhs
deriving DecidableEq, Repr, Ord

namespace Register

/-- All registers, in the order of their declaration. -/
def all : List Register := [vsp, varg, varg1, varg2, vreg, vlhs, vrhs]

/-- The name of the register. -/
def name : Register → String
  | vsp => "vsp"
  | varg => "varg"
  | varg1 => "varg1"
  | varg2 => "varg2"
  | vreg => "vreg"
  | vlhs => "vlhs"
  | vrhs => "vrhs"

/-- The register of that name. The letters A to Z count as their lower-case
    partners; other letters do not. -/
def ofName? (text : String) : Option Register :=
  let lower := text.map Char.toLower
  all.find? (·.name == lower)

/-- A register is found under its own name, which is in small letters already. -/
theorem ofName?_name (r : Register) : ofName? r.name = some r := by
  have hlower : r.name.map Char.toLower = r.name := by
    rw [← String.toList_inj, String.toList_map]
    cases r <;> decide
  rw [ofName?, hlower]
  cases r <;> rfl

/-- The number of bytes in a register. -/
def width : UInt64 := 8

end Register

/-- How a register file gives access to the arguments. -/
inductive ArgumentBase where
  /-- One register for all arguments. -/
  | single
  /-- One register for the first argument and one for the others. -/
  | split
  /-- No register at all. -/
  | absent
deriving DecidableEq, Repr

/-- The registers one revision declares, in the order of their declaration. -/
structure RegisterFile where
  /-- The declared registers. -/
  toList : List Register
deriving DecidableEq, Repr

namespace RegisterFile

instance : Membership Register RegisterFile where
  mem file r := r ∈ file.toList

instance (r : Register) (file : RegisterFile) : Decidable (r ∈ file) :=
  inferInstanceAs (Decidable (r ∈ file.toList))

/-- The register that addresses the stack. -/
def stackPointer (_ : RegisterFile) : Register := .vsp

/-- How the file gives access to the arguments. -/
def argumentBase (file : RegisterFile) : ArgumentBase :=
  if .varg ∈ file then .single
  else if .varg1 ∈ file ∧ .varg2 ∈ file then .split
  else .absent

/-- Both operand holders are declared. -/
def hasScratch (file : RegisterFile) : Bool := .vlhs ∈ file ∧ .vrhs ∈ file

end RegisterFile

end StackLift
