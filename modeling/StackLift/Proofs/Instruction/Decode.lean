import Mathlib.Tactic.Tauto
import StackLift.Instruction.Flow
import StackLift.Proofs.Revision.Accepted
import StackLift.Proofs.Word

/-!
# Decoded Instructions

What is known about an instruction once it has been decoded.

Decoding succeeds in one way only: the first byte means an opcode, and as many
bytes follow as its immediate has. Whatever else is known comes from the rules
that the opcode has passed when the definition was accepted. The most useful of
them is that a category which needs an immediate has one, so a branch always has
a target.

## Theorems

* `decode_eq_ok_iff`: When decoding succeeds, and with what.
* `takesOperand_iff`: A decoded instruction has an immediate just if its category
  needs one.
* `toNat_operand`: The immediate is the value of its bytes as digits.
* `branchTarget?_of_decode`: A decoded branch has a target.
-/

namespace StackLift

namespace OpcodeEntry

variable {e : OpcodeEntry} {file : RegisterFile}

/-- The rules that a checked entry follows. -/
theorem check_eq_ok_iff :
    e.check file = .ok () ↔
      e.bytes ≠ [] ∧ (e.opcode.category.takesOperand = true ↔ e.opcode.width ≠ .absent) ∧
      (e.opcode.category.needsScratch = true → file.hasScratch = true) ∧
      (e.opcode.category = .registerRelativeAddress .argument → file.argumentBase ≠ .absent) ∧
      (e.opcode.category = .registerRelativeAddress .registerFile → .vreg ∈ file) := by
  simp only [check, ite_error_eq_ok_iff, and_true]
  tauto

end OpcodeEntry

namespace Instruction

/-- The immediate is the value of its bytes as digits, or zero where there is
    none. -/
theorem toNat_operand (i : Instruction) :
    (i.operand?.getD 0).toNat = Nat.ofDigits 256 (i.immediate.map UInt8.toNat) % 2 ^ 64 := by
  unfold operand?
  by_cases h : i.immediate = []
  · rw [if_pos h, h]
    rfl
  · rw [if_neg h, Option.getD_some, Word.toNat_ofBytes]

theorem toNat_operand_lt (i : Instruction) :
    (i.operand?.getD 0).toNat < 256 ^ i.immediate.length := by
  unfold operand?
  by_cases h : i.immediate = []
  · rw [if_pos h, h]
    decide
  · rw [if_neg h, Option.getD_some]
    exact Word.toNat_ofBytes_lt i.immediate

end Instruction

namespace Revision

variable {d : Definition} {r : Revision} {address : UInt64} {window : List UInt8} {i : Instruction}

/-- Decoding succeeds if the first byte means an opcode and as many bytes follow
    as its immediate has. -/
theorem decode_eq_ok_iff :
    r.decode address window = .ok i ↔
      ∃ byte rest opcode, window = byte :: rest ∧ r.opcodes.lookup? byte = some opcode ∧
        opcode.width.bytes ≤ rest.length ∧
        i = { address, opcode, byte, immediate := rest.take opcode.width.bytes } := by
  -- Each of the three ways to fail leaves no instruction that the right side allows.
  cases window with
  | nil =>
      simp only [decode, reduceCtorEq, false_iff]
      intro hparts
      rcases hparts with ⟨_, _, _, h, _⟩
      contradiction
  | cons b rest =>
      simp only [decode, List.cons.injEq]
      cases ho : r.opcodes.lookup? b with
      | none =>
          simp only [reduceCtorEq, false_iff]
          intro hparts
          rcases hparts with ⟨_, _, _, ⟨rfl, rfl⟩, h, _⟩
          rw [ho] at h
          contradiction
      | some o =>
          by_cases hlen : rest.length < o.width.bytes
          · simp only [hlen, if_true, reduceCtorEq, false_iff]
            intro hparts
            rcases hparts with ⟨_, _, _, ⟨rfl, rfl⟩, h, hle, _⟩
            rw [ho, Option.some.injEq] at h
            rw [← h] at hle
            omega
          · simp only [hlen, if_false, Except.ok.injEq]
            constructor
            · rintro rfl
              exact ⟨b, rest, o, ⟨rfl, rfl⟩, ho, Nat.le_of_not_lt hlen, rfl⟩
            · intro hparts
              rcases hparts with ⟨_, _, _, ⟨rfl, rfl⟩, h, _, rfl⟩
              rw [ho, Option.some.injEq] at h
              rw [h]

theorem length_immediate (hi : r.decode address window = .ok i) :
    i.immediate.length = i.opcode.width.bytes := by
  rcases decode_eq_ok_iff.mp hi with ⟨_, rest, o, _, _, hle, rfl⟩
  exact List.length_take_of_le hle

/-- An immediate fits the width that it is encoded in. -/
theorem toNat_operand_lt_width (hi : r.decode address window = .ok i) :
    (i.operand?.getD 0).toNat < 2 ^ (8 * (UInt64.ofNat i.opcode.width.bytes).toNat) := by
  have hlt := i.toNat_operand_lt
  have hwidth : (UInt64.ofNat i.opcode.width.bytes).toNat = i.opcode.width.bytes := by
    cases i.opcode.width <;> rfl
  rwa [hwidth, ← length_immediate hi, Nat.pow_mul]

/-- An immediate fits a word. -/
theorem length_immediate_le (hi : r.decode address window = .ok i) : i.immediate.length ≤ 8 := by
  have hle := i.opcode.length_le
  rw [Opcode.length] at hle
  rw [length_immediate hi]
  omega

theorem encoding_of_decode (hi : r.decode address window = .ok i) :
    i.encoding = window.take i.length := by
  rcases decode_eq_ok_iff.mp hi with ⟨byte, rest, o, rfl, _, _, rfl⟩
  rw [Instruction.encoding, Instruction.length, Opcode.length, Nat.add_comm, List.take_succ_cons]

section Accepted

variable (hr : ofDefinition d = .ok r) (hi : r.decode address window = .ok i)
include hr hi

/-- The opcode of a decoded instruction is that of an entry that has passed the
    rules. -/
theorem check_of_decode : ∃ e ∈ d.opcodes, e.opcode = i.opcode ∧
    e.check d.registerFile = .ok () := by
  rcases decode_eq_ok_iff.mp hi with ⟨_, _, _, _, ho, _, rfl⟩
  exact check_of_lookup? hr ho

/-- A decoded instruction has an immediate just if its category needs one. -/
theorem takesOperand_iff : i.category.takesOperand = true ↔ i.opcode.width ≠ .absent := by
  rcases check_of_decode hr hi with ⟨e, _, he, hcheck⟩
  rw [Instruction.category, ← he]
  exact (OpcodeEntry.check_eq_ok_iff.mp hcheck).2.1

/-- A decoded instruction whose category needs an immediate has one. -/
theorem operand?_of_takesOperand (h : i.category.takesOperand = true) :
    i.operand? = some (Word.ofBytes i.immediate) := by
  have hwidth : i.opcode.width ≠ .absent := (takesOperand_iff hr hi).mp h
  have hne : i.immediate ≠ [] := by
    -- An immediate without bytes would have no width.
    intro hc
    have hlen := length_immediate hi
    rw [hc] at hlen
    cases hw : i.opcode.width with
    | absent => exact hwidth hw
    | dword => rw [hw] at hlen; contradiction
    | qword => rw [hw] at hlen; contradiction
  exact if_neg hne

/-- A decoded branch has a target: the word behind the immediate, or the address
    behind the branch advanced by the immediate. -/
theorem branchTarget?_of_decode (h : i.category = .unconditionalBranch) :
    r.branchTarget? i = some (match r.branchMode with
      | .absolute => i.operand?.getD 0 + 1
      | .relativeToNextInstruction => i.next + i.operand?.getD 0) := by
  have hop := operand?_of_takesOperand hr hi (by rw [h]; rfl)
  cases hmode : r.branchMode <;>
    simp only [branchTarget?, h, hop, hmode, if_true, Option.map_some, Option.getD_some]

end Accepted

end Revision

end StackLift
