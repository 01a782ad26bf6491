import StackLift.Lift.Recording

/-!
# The Code of an Instruction

The statements that an instruction is lifted to, written out.

`Revision.lift` is a computation over any sink, and a recording is one of them.
`Revision.code` says what such a recording comes to for each category, and
`run_lift` that lifting does nothing to a recording but add these statements
under the current address. With that, a block's code is the code of its
instructions one after the other, and nothing later has to look at a sink.

## Main definitions

* `Recording.addAll`: A recording with further statements.
* `Revision.code`: The statements that an instruction is lifted to.

## Theorems

* `run_lift`: Lifting adds the instruction's code to a recording.
* `statements_lift`: What lifting an instruction by itself records.
* `exists_mem_code_of_liftAt`: What lifting at a place records.
* `record_eq`: A recording continued by the instruction at an address.
-/

namespace StackLift

namespace Recording

/-- The recording with further statements, all of them at the current address. -/
def addAll (c : Recording) (ss : List Statement) : Recording := ss.foldl add c

theorem toList_entries_addAll (c : Recording) (ss : List Statement) :
    (c.addAll ss).entries.toList = c.entries.toList ++ ss.map (c.address, ·) := by
  induction ss generalizing c with
  | nil => rw [addAll, List.foldl_nil, List.map_nil, List.append_nil]
  | cons s ss ih =>
      rw [addAll, List.foldl_cons, ← addAll, ih, add, Array.toList_push, List.map_cons,
        List.append_assoc, List.singleton_append]

theorem statements_addAll (c : Recording) (ss : List Statement) :
    (c.addAll ss).statements = c.statements ++ ss := by
  rw [statements, toList_entries_addAll, List.map_append, List.map_map, ← statements]
  exact congrArg (c.statements ++ ·) (List.map_id ss)

end Recording

namespace Revision

/-- The statements that an instruction is lifted to. -/
def code (r : Revision) (i : Instruction) : List Statement :=
  match i.category with
  | .nop => [.nop]
  | .stackPush => [.push 8 (.const 8 (i.operand?.getD 0))]
  | .registerRelativeAddress base =>
    [.push 8 (.binary .add 8 (.reg 8 (r.baseRegister base (i.operand?.getD 0)))
      (.const (UInt64.ofNat i.opcode.width.bytes) (i.operand?.getD 0)))]
  | .stackBinaryOp op =>
    if op.isOrderSensitive then
      [.setReg 8 (r.holders op).1 (.pop 8), .setReg 8 (r.holders op).2 (.pop 8),
        .push 8 (.binary op 8 (.reg 8 .vlhs) (.reg 8 .vrhs))]
    else [.push 8 (.binary op 8 (.pop 8) (.pop 8))]
  | .memoryRead => [.push 8 (.load 8 (.pop 8))]
  | .memoryWrite =>
    [.setReg 8 .vlhs (.pop 8), .setReg 8 .vrhs (.pop 8),
      .store 8 (.reg 8 .vlhs) (.reg 8 .vrhs)]
  | .unconditionalBranch => match r.branchTarget? i with
    | some target => [.jump (.const 8 target)]
    | none => [.nop]
  | .ret => [.ret]

/-- Lifting an instruction adds its code to a recording and does nothing else. -/
theorem run_lift (r : Revision) (i : Instruction) (c : Recording) :
    (r.lift i : Recorder Unit).run c = ((), c.addAll (r.code i)) := by
  -- A sink that records answers each request on the spot, so the cases compute.
  unfold lift code
  cases i.category with
  | nop => rfl
  | stackPush => rfl
  | stackBinaryOp op =>
      by_cases hop : op.isOrderSensitive = true
      · simp only [hop, if_true]
        rfl
      · simp only [hop, Bool.false_eq_true, if_false]
        rfl
  | memoryRead => rfl
  | memoryWrite => rfl
  | registerRelativeAddress base => rfl
  | unconditionalBranch =>
      cases r.branchTarget? i with
      | none => rfl
      | some target => rfl
  | ret => rfl

/-- Lifting an instruction by itself records its code. -/
theorem statements_lift (r : Revision) (i : Instruction) :
    ((r.lift i : Recorder Unit).run {}).2.statements = r.code i := by
  rw [run_lift, Recording.statements_addAll]
  rfl

/-- What lifting at a place records is the code of the instruction there. -/
theorem exists_mem_code_of_liftAt {r : Revision} {address : UInt64} {window : List UInt8}
    {s : Statement}
    (hs : s ∈ ((r.liftAt address window : Recorder _).run {}).2.statements) :
    ∃ i, r.decode address window = .ok i ∧ s ∈ r.code i := by
  unfold liftAt at hs
  cases hi : r.decode address window with
  | error e =>
      rw [hi] at hs
      contradiction
  | ok i =>
      rw [hi] at hs
      refine ⟨i, rfl, ?_⟩
      rw [← statements_lift]
      exact hs

/-- A recording is continued by the code of the instruction, under its address. -/
theorem record_eq (r : Revision) (m : Image) (c : Recording) (a : UInt64) :
    r.record m c a = (r.decodeAt m a).map fun i => (c.moveTo a).addAll (r.code i) := by
  unfold record liftAt decodeAt
  cases r.decode a (m.window a r.maxLength) with
  | error e => rfl
  | ok i =>
      have hrun := run_lift r i (c.moveTo a)
      simp only [StateT.run_bind, Except.map]
      rw [hrun]
      rfl

end Revision

end StackLift
