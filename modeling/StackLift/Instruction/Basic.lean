import StackLift.Revision.Basic
import StackLift.Word

/-!
# Instructions

Decoding of single instructions. An instruction is its opcode byte and the
immediate behind it, found at an address; decoding looks at the bytes that the
instruction occupies and at no others.

## Main definitions

* `DecodeError`: Why there is no instruction at an address.
* `Instruction`: A decoded instruction.
* `Revision.decode`: The instruction at the start of a byte window.
* `Instruction.next`: The address behind an instruction.
* `Revision.branchTarget?`: Where a branch continues.

## Theorems

* `length_encoding`: A decoded instruction occupies as many bytes as its opcode
  says.
-/

namespace StackLift

/-- Why there is no instruction at an address. -/
inductive DecodeError where
  /-- The byte does not stand for an opcode. -/
  | unrecognized (byte : UInt8) (address : UInt64)
  /-- The bytes end before the instruction does. -/
  | truncated (address : UInt64) (needed available : Nat)
deriving DecidableEq, Repr

namespace DecodeError

/-- What went wrong, in words. -/
def message : DecodeError → String
  | unrecognized byte address =>
    s!"unrecognized opcode 0x{Numeral.byte byte} at {Numeral.hex address}"
  | truncated address needed available =>
    s!"truncated instruction at {Numeral.hex address}: needs {needed} bytes, {available} available"

end DecodeError

/-- A decoded instruction. -/
structure Instruction where
  /-- Where the instruction stands. -/
  address : UInt64
  /-- What the opcode byte stands for. -/
  opcode : Opcode
  /-- The opcode byte itself, one of the aliases of the opcode. -/
  byte : UInt8
  /-- The bytes of the immediate. -/
  immediate : List UInt8
deriving DecidableEq, Repr

namespace Instruction

/-- The bytes that the instruction occupies. -/
def encoding (i : Instruction) : List UInt8 := i.byte :: i.immediate

/-- The immediate as a word, for instructions that have one. -/
def operand? (i : Instruction) : Option UInt64 :=
  if i.immediate = [] then none else some (Word.ofBytes i.immediate)

/-- What the instruction does. -/
def category (i : Instruction) : Category := i.opcode.category

/-- The number of bytes that the instruction occupies. -/
def length (i : Instruction) : Nat := i.opcode.length

/-- The address behind the instruction. -/
def next (i : Instruction) : UInt64 := i.address + UInt64.ofNat i.length

end Instruction

namespace Revision

/-- The instruction at the start of a byte window that lies at `address`. -/
def decode (r : Revision) (address : UInt64) : List UInt8 → Except DecodeError Instruction
  | [] => .error (.truncated address 1 0)
  | byte :: rest =>
    match r.opcodes.lookup? byte with
    | none => .error (.unrecognized byte address)
    | some opcode =>
      if rest.length < opcode.width.bytes then
        .error (.truncated address opcode.length (1 + rest.length))
      else .ok { address, opcode, byte, immediate := rest.take opcode.width.bytes }

/-- Where a branch continues. -/
def branchTarget? (r : Revision) (i : Instruction) : Option UInt64 :=
  if i.category = .unconditionalBranch then
    i.operand?.map fun operand => match r.branchMode with
      | .absolute => operand + 1
      | .relativeToNextInstruction => i.next + operand
  else none

variable {r : Revision} {address : UInt64} {window : List UInt8} {i : Instruction}

theorem address_of_decode (h : r.decode address window = .ok i) : i.address = address := by
  unfold decode at h
  split at h
  · contradiction
  · split at h
    · contradiction
    · split at h
      · contradiction
      · cases h
        rfl

/-- A decoded instruction occupies as many bytes as its opcode says. -/
theorem length_encoding (h : r.decode address window = .ok i) : i.encoding.length = i.length := by
  unfold decode at h
  split at h
  · contradiction
  · split at h
    · contradiction
    · split at h
      · contradiction
      · cases h
        simp only [Instruction.encoding, Instruction.length, Opcode.length, List.length_cons,
          List.length_take]
        omega

theorem length_le_of_decode (h : r.decode address window = .ok i) : i.length ≤ window.length := by
  unfold decode at h
  split at h
  · contradiction
  · split at h
    · contradiction
    · split at h
      · contradiction
      · cases h
        simp only [Instruction.length, Opcode.length, List.length_cons]
        omega

end Revision

end StackLift
