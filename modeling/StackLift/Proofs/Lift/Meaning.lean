import StackLift.Proofs.Instruction.Decode
import StackLift.Proofs.Lift.Holders

/-!
# The Meaning of Lifted Code

Lifted code does what the definition says.

A definition describes a stack machine without a word about statements: its
entries say what each opcode byte does, its registers where addresses are
computed from, its pop orders which of two values is the left operand, and its
branch mode where a branch leads. `Definition.meaning` reads that off, on a
machine seen from outside. The statements an instruction is lifted to come about
in another way, through the checks that make a revision, through the decoder and
through a sink, and they nest values that change the stack while they are
computed. `meaning_eq_run_lift` says that running them comes to the same, on
every machine whose stack is addressed by the stack pointer: the same control,
the same registers and the same memory.

Only the order-sensitive operators and the store leave a trace besides their
result. They go through the operand holders, which keep the two values.

## Main definitions

* `Definition.baseRegister`, `Definition.target`: Where an address is computed
  from, and where a branch leads.
* `Definition.combine`: What an operator does to the stack.
* `Definition.effect`: What an opcode with an immediate does.
* `Definition.meaning`: What the bytes at an address do.

## Theorems

* `baseRegister_eq_definition`: A revision computes addresses from the registers
  that its definition names.
* `operand_and_mask`: An immediate fits the width it is added under.
* `run_code_binary`: What the code of an operator does.
* `run_code_eq_effect`: What the code of an instruction does.
* `meaning_eq_run_lift`: Lifted code does what the definition says.
-/

namespace StackLift

namespace Definition

/-- The register that an address is computed from. Where the arguments are
    split, the first one has a register of its own. -/
def baseRegister (d : Definition) (base : AddressBase) (operand : UInt64) : Register :=
  match base with
  | .registerFile => .vreg
  | .argument =>
    if .varg ∈ d.registers then .varg else if operand = 0 then .varg1 else .varg2

/-- Where a branch of `length` bytes at `address` leads. -/
def target (d : Definition) (address : UInt64) (length : Nat) (operand : UInt64) : UInt64 :=
  match d.branchMode with
  | .absolute => operand + 1
  | .relativeToNextInstruction => address + UInt64.ofNat length + operand

/-- What an operator does to the two values on top of the stack. If it depends on
    their order, the operand holders keep them. -/
def combine (d : Definition) (op : Operator) (s : StackMachine) : StackMachine :=
  let result (left right : UInt64) := UInt64.ofNat (op.onNumbers left.toNat right.toNat)
  match op with
  | .add | .mul | .or | .and => (s.dropped 2).pushed (result s.top s.second)
  | .sub | .shl | .lsr =>
    let (left, right) := match d.popOrder op with
      | .leftFirst => (s.top, s.second)
      | .rightFirst => (s.second, s.top)
    (((s.dropped 2).setRegister .vlhs left).setRegister .vrhs right).pushed (result left right)

/-- What an opcode with an immediate does at an address. -/
def effect (d : Definition) (address : UInt64) (o : Opcode) (operand : UInt64)
    (s : StackMachine) : Control × StackMachine :=
  match o.category with
  | .nop => (.proceed, s)
  | .stackPush => (.proceed, s.pushed operand)
  | .registerRelativeAddress base =>
    (.proceed, s.pushed (s.register (d.baseRegister base operand) + operand))
  | .stackBinaryOp op => (.proceed, d.combine op s)
  | .memoryRead => (.proceed, (s.dropped 1).pushed (s.wordAt s.top))
  | .memoryWrite =>
    (.proceed, (((s.dropped 2).setRegister .vlhs s.top).setRegister .vrhs s.second).setWord
      s.top s.second)
  | .unconditionalBranch => (.jump (d.target address o.length operand), s)
  | .ret => (.ret, s)

/-- What the bytes at an address do, as far as the first of them stands in the
    byte list of an entry. The immediate is the value of the bytes behind it as
    digits to the base 256, the least significant first. -/
def meaning (d : Definition) (address : UInt64) (window : List UInt8) (s : StackMachine) :
    Option (Control × StackMachine) :=
  match window with
  | [] => none
  | byte :: rest => (d.entryOf? byte).map fun e =>
    let digits := (rest.take e.opcode.width.bytes).map UInt8.toNat
    d.effect address e.opcode (UInt64.ofNat (Nat.ofDigits 256 digits)) s

variable {d : Definition} {op : Operator}

theorem combine_of_not_isOrderSensitive (h : op.isOrderSensitive = false) (s : StackMachine) :
    d.combine op s = (s.dropped 2).pushed (op.apply s.top s.second) := by
  rw [Operator.apply_eq_ofNat]
  cases op <;> first | rfl | contradiction

theorem combine_of_isOrderSensitive (h : op.isOrderSensitive = true) (s : StackMachine) :
    d.combine op s = match d.popOrder op with
      | .leftFirst => (((s.dropped 2).setRegister .vlhs s.top).setRegister .vrhs s.second).pushed
          (op.apply s.top s.second)
      | .rightFirst => (((s.dropped 2).setRegister .vlhs s.second).setRegister .vrhs s.top).pushed
          (op.apply s.second s.top) := by
  simp only [Operator.apply_eq_ofNat]
  cases op <;> first
    | contradiction
    | (cases horder : d.popOrder _ <;> simp only [combine, horder])

end Definition

namespace Revision

variable {d : Definition} {r : Revision} {address : UInt64} {window : List UInt8} {i : Instruction}

/-- A revision computes addresses from the registers that its definition names. -/
theorem baseRegister_eq_definition (hr : ofDefinition d = .ok r)
    (hi : r.decode address window = .ok i) {base : AddressBase}
    (h : i.category = .registerRelativeAddress base) (operand : UInt64) :
    r.baseRegister base operand = d.baseRegister base operand := by
  cases base with
  | registerFile => rfl
  | argument =>
      rcases check_of_decode hr hi with ⟨e, _, he, hcheck⟩
      have hbase : d.registerFile.argumentBase ≠ .absent :=
        (OpcodeEntry.check_eq_ok_iff.mp hcheck).2.2.2.1 (by rw [he]; exact h)
      simp only [baseRegister, Definition.baseRegister, registers_eq_definition hr]
      -- Without an argument register the opcode would not have been accepted.
      unfold RegisterFile.argumentBase at hbase ⊢
      by_cases hsingle : Register.varg ∈ d.registerFile
      · rw [if_pos hsingle, if_pos (show Register.varg ∈ d.registers from hsingle)]
      · rw [if_neg hsingle] at hbase ⊢
        rw [if_neg (show Register.varg ∉ d.registers from hsingle)]
        by_cases hsplit : Register.varg1 ∈ d.registerFile ∧ Register.varg2 ∈ d.registerFile
        · rw [if_pos hsplit]
        · rw [if_neg hsplit] at hbase
          exact absurd rfl hbase

/-- The immediate of a decoded instruction fits the width under which a
    register-relative address adds it. -/
theorem operand_and_mask (hi : r.decode address window = .ok i) :
    i.operand?.getD 0 &&& Word.mask (UInt64.ofNat i.opcode.width.bytes) = i.operand?.getD 0 :=
  Word.and_mask_of_lt (toNat_operand_lt_width hi)

/-- The code of an operator combines the two values on top of the stack. -/
theorem run_code_binary (hr : ofDefinition d = .ok r) {op : Operator}
    (h : i.category = .stackBinaryOp op) (m : Machine) (hm : m.stackPointer = .vsp) :
    ∃ n : Machine, Machine.run (r.code i) m = (.proceed, n) ∧ n.stackPointer = .vsp ∧
      n.view = d.combine op m.view := by
  rw [r.code_binary h]
  cases hop : op.isOrderSensitive with
  | false =>
      refine ⟨_, Machine.run_direct hm op, hm, ?_⟩
      rw [Machine.view_push (m := m.set _ _) hm, Definition.combine_of_not_isOrderSensitive hop,
        Machine.view_set]
      rfl
  | true =>
      refine ⟨_, Machine.run_throughHolders hm op _, hm, ?_⟩
      rw [Machine.view_push (m := m.popInto _ _) hm, Machine.view_popInto,
        popOrder_eq_definition hr hop, Definition.combine_of_isOrderSensitive hop]
      cases d.popOrder op with
      | leftFirst => rfl
      | rightFirst =>
          rw [PopOrder.holders, StackMachine.setRegister_comm _ _ _ (by decide)]
          rfl

/-- The code of an instruction has the effect that the definition gives to its
    opcode and its immediate. -/
theorem run_code_eq_effect (hr : ofDefinition d = .ok r) (hi : r.decode address window = .ok i)
    (m : Machine) (hm : m.stackPointer = .vsp) :
    ∃ n : Machine, Machine.run (r.code i) m =
        ((d.effect address i.opcode (i.operand?.getD 0) m.view).1, n) ∧
      n.stackPointer = .vsp ∧
      n.view = (d.effect address i.opcode (i.operand?.getD 0) m.view).2 := by
  have hcat : i.opcode.category = i.category := rfl
  -- One case for each category, with the machine that its code leads to.
  unfold Definition.effect
  cases h : i.category with
  | nop =>
      simp only [hcat, h, code]
      exact ⟨m, rfl, hm, rfl⟩
  | stackPush =>
      simp only [hcat, h, code]
      refine ⟨m.push 8 (i.operand?.getD 0), ?_, hm, Machine.view_push hm _⟩
      simp only [Machine.run, Machine.execute, Machine.eval, Word.and_mask]
  | stackBinaryOp op =>
      simp only [hcat, h]
      exact run_code_binary hr h m hm
  | memoryRead =>
      simp only [hcat, h, code]
      refine ⟨(m.set .vsp (m.get .vsp + 8)).push 8 (m.view.wordAt m.view.top), ?_, hm, ?_⟩
      · simp only [Machine.run, Machine.execute, Machine.eval, Machine.pop_eq hm,
          Machine.load_eq_wordAt, Machine.view_set, StackMachine.wordAt_setRegister]
      · rw [Machine.view_push (m := m.set _ _) hm, Machine.view_set]
        rfl
  | memoryWrite =>
      simp only [hcat, h, code]
      refine ⟨(m.popInto .vlhs .vrhs).store m.view.top 8 m.view.second, ?_, hm, ?_⟩
      · rw [Machine.run_popInto hm (by decide), Machine.run_store_holders,
          Machine.get_popInto_first m (by decide), Machine.get_popInto_second]
      · rw [Machine.view_store, Machine.view_popInto]
  | registerRelativeAddress base =>
      simp only [hcat, h, code]
      refine ⟨m.push 8 (m.get (d.baseRegister base (i.operand?.getD 0)) + i.operand?.getD 0),
        ?_, hm, Machine.view_push hm _⟩
      simp only [Machine.run, Machine.execute, Machine.eval, Word.and_mask, operand_and_mask hi,
        baseRegister_eq_definition hr hi h, Operator.apply]
  | unconditionalBranch =>
      simp only [hcat, h, code, branchTarget?_of_decode hr hi h]
      refine ⟨m, ?_, hm, rfl⟩
      simp only [Machine.run, Machine.execute, Machine.eval, Word.and_mask, Definition.target,
        branchMode_eq_definition hr, Instruction.next, address_of_decode hi]
      rfl
  | ret =>
      simp only [hcat, h, code]
      exact ⟨m, rfl, hm, rfl⟩

/-- Lifted code does what the definition says. For every definition that is
    accepted and every instruction that can be decoded, the recorded statements,
    run on a machine whose stack is addressed by the stack pointer, lead to the
    control, the registers and the memory that the definition's stack machine
    has after the bytes at that address. -/
theorem meaning_eq_run_lift (hr : ofDefinition d = .ok r)
    (hi : r.decode address window = .ok i) (m : Machine) (hm : m.stackPointer = .vsp) :
    let out := Machine.run ((r.lift i : Recorder Unit).run {}).2.statements m
    d.meaning address window m.view = some (out.1, out.2.view) ∧ out.2.stackPointer = .vsp := by
  intro out
  rcases decode_eq_ok_iff.mp hi with ⟨byte, rest, o, rfl, ho, hlen, hio⟩
  rcases run_code_eq_effect hr hi m hm with ⟨n, hrun, hsp, hview⟩
  have hout : out = Machine.run (r.code i) m := by
    have hcode : ((r.lift i : Recorder Unit).run {}).2.statements = r.code i := by
      rw [run_lift, Recording.statements_addAll]
      rfl
    exact congrArg (Machine.run · m) hcode
  -- The entry of the byte is the one the opcode comes from.
  rw [lookup?_eq_entryOf? hr, Option.map_eq_some_iff] at ho
  rcases ho with ⟨e, he, rfl⟩
  have hopcode : i.opcode = e.opcode := by rw [hio]
  have hoperand : i.operand?.getD 0 = UInt64.ofNat (Nat.ofDigits 256
      ((rest.take e.opcode.width.bytes).map UInt8.toNat)) := by
    refine UInt64.toNat_inj.mp ?_
    rw [Instruction.toNat_operand, UInt64.toNat_ofNat', hio]
  rw [hout, hrun]
  refine ⟨?_, hsp⟩
  simp only [Definition.meaning, he, Option.map_some, hview, ← hoperand, hopcode]

/-- A difference on a stack that lies across the end of the address space. -/
theorem meaning_eq_run_lift_difference : ∃ r i,
    ofDefinition BuiltinRevision.tigress3.definition = .ok r ∧ r.decode 0 [0x42] = .ok i ∧
    (Machine.start .vsp 0xfffffffffffffffc).stackPointer = .vsp ∧
    let out := Machine.run ((r.lift i : Recorder Unit).run {}).2.statements
      (Machine.start .vsp 0xfffffffffffffffc)
    BuiltinRevision.tigress3.definition.meaning 0 [0x42]
        (Machine.start .vsp 0xfffffffffffffffc).view = some (out.1, out.2.view) ∧
      out.2.stackPointer = .vsp := by
  rcases BuiltinRevision.exists_revision .tigress3 with ⟨r, hr⟩
  have hlookup : r.opcodes.lookup? 0x42 = some ⟨"subq", .absent, .stackBinaryOp .sub⟩ := by
    rw [lookup?_eq_entryOf? hr]
    decide
  have hi : r.decode 0 [0x42] =
      .ok ⟨0, ⟨"subq", .absent, .stackBinaryOp .sub⟩, 0x42, []⟩ :=
    decode_eq_ok_iff.mpr ⟨0x42, [], _, rfl, hlookup, Nat.le_refl 0, rfl⟩
  exact ⟨r, _, hr, hi, rfl, meaning_eq_run_lift hr hi _ rfl⟩

end Revision

end StackLift
