import StackLift.Proofs.Lift.Code
import StackLift.Proofs.Machine.Agree
import StackLift.Proofs.Machine.View

/-!
# Operand Holders

Operators straight off the stack and operators through the operand holders.

There are two ways to give an operator the two values on top of the stack. They can be popped
while the operator is computed, and then the upper one is the left operand. Or they are first
popped into the two operand holders, in one order or the other, and the operator is computed
on what the holders hold. The second way takes three statements instead of one and leaves the
values behind in the holders, and in return it says which of them is the left operand.

Besides that the two ways do the same: both take sixteen bytes off the stack and put eight
bytes there. So all depends on the value that is pushed, which is the same either way just if
the operator does not mind which operand is which. `memory_throughHolders_eq_iff` says so of
a single machine, and `direct_agrees` of all of them: where the lifter leaves the holders out
nothing but the holders can tell, and where it does not there is a machine whose memory shows
in which order they were filled.

## Main definitions

* `Operator.direct`: An operator straight off the stack.
* `Operator.throughHolders`: An operator through the operand holders.
* `PopOrder.apply`: The result on values in the order in which they are popped.
* `Machine.popInto`: A machine with two values taken off the stack into registers.

## Theorems

* `code_binary`: The code of an operator is one of the two.
* `run_popInto`: Two pops into registers, in front of other statements.
* `run_direct`, `run_throughHolders`: What the two do.
* `agreeBut_run_direct`: They differ in the operand holders at most.
* `memory_throughHolders_eq_iff`: When the pop order makes no difference to memory.
* `direct_agrees`: The operand holders are left out just where they are not needed.
-/

namespace StackLift

namespace PopOrder

/-- The operand holders in the order in which they are filled. -/
def holders : PopOrder → Register × Register
  | leftFirst => (.vlhs, .vrhs)
  | rightFirst => (.vrhs, .vlhs)

/-- The result of an operator on two values in the order in which they are popped. -/
def apply (order : PopOrder) (op : Operator) (first second : UInt64) : UInt64 :=
  match order with
  | leftFirst => op.apply first second
  | rightFirst => op.apply second first

end PopOrder

namespace Operator

/-- The operator on the two values on top of the stack, which are popped on the way. -/
def direct (op : Operator) : List Statement := [.push 8 (.binary op 8 (.pop 8) (.pop 8))]

/-- The operator on the two values on top of the stack, which are popped into the operand
    holders before. -/
def throughHolders (op : Operator) (order : PopOrder) : List Statement :=
  [.setReg 8 order.holders.1 (.pop 8), .setReg 8 order.holders.2 (.pop 8),
    .push 8 (.binary op 8 (.reg 8 .vlhs) (.reg 8 .vrhs))]

variable {op : Operator}

theorem apply_comm (h : op.isOrderSensitive = false) (a b : UInt64) :
    op.apply a b = op.apply b a := by
  cases op with
  | add => exact UInt64.add_comm a b
  | mul => exact UInt64.mul_comm a b
  | or => exact UInt64.or_comm a b
  | and => exact UInt64.and_comm a b
  | _ => contradiction

theorem apply_one_zero_ne (h : op.isOrderSensitive = true) : op.apply 1 0 ≠ op.apply 0 1 := by
  cases op with
  | sub => decide
  | shl => decide
  | lsr => decide
  | _ => contradiction

end Operator

theorem PopOrder.apply_of_not_isOrderSensitive {op : Operator} (h : op.isOrderSensitive = false)
    (order : PopOrder) (a b : UInt64) : order.apply op a b = op.apply a b := by
  cases order with
  | leftFirst => rfl
  | rightFirst => exact op.apply_comm h b a

/-- The code of an operator goes through the operand holders if the order matters. -/
theorem Revision.code_binary (r : Revision) {i : Instruction} {op : Operator}
    (h : i.category = .stackBinaryOp op) :
    r.code i = if op.isOrderSensitive then op.throughHolders (r.popOrder op) else op.direct := by
  simp only [code, h, Operator.throughHolders, Operator.direct, holders]
  cases r.popOrder op <;> rfl

namespace Machine

variable {m : Machine}

theorem run_cons_of_proceed {s : Statement} {n : Machine} (h : execute s m = (.proceed, n))
    (ss : List Statement) : run (s :: ss) m = run ss n := by
  rw [run, h]

theorem execute_setReg_pop (h : m.stackPointer = .vsp) (r : Register) :
    execute (.setReg 8 r (.pop 8)) m =
      (.proceed, (m.set .vsp (m.get .vsp + 8)).set r m.view.top) := by
  simp only [execute, eval, pop_eq h, Word.and_mask]

/-- The machine with two values taken off the stack into registers. -/
def popInto (m : Machine) (first second : Register) : Machine :=
  ((m.set .vsp (m.get .vsp + 16)).set first m.view.top).set second m.view.second

@[simp] theorem view_popInto (m : Machine) (first second : Register) :
    (m.popInto first second).view =
      ((m.view.dropped 2).setRegister first m.view.top).setRegister second m.view.second := by
  simp only [popInto, view_set, StackMachine.dropped, register_view]
  rfl

theorem get_popInto_first (m : Machine) {first second : Register} (h : first ≠ second) :
    (m.popInto first second).get first = m.view.top := by
  rw [popInto, get_set_of_ne _ _ h.symm, get_set_self]

theorem get_popInto_second (m : Machine) (first second : Register) :
    (m.popInto first second).get second = m.view.second := get_set_self _ _ _

/-- Two pops into registers, the first of which does not address the stack. -/
theorem run_popInto (h : m.stackPointer = .vsp) {first second : Register} (hfirst : first ≠ .vsp)
    (ss : List Statement) :
    run (.setReg 8 first (.pop 8) :: .setReg 8 second (.pop 8) :: ss) m =
      run ss (m.popInto first second) := by
  -- The second value is read where the first pop has left the stack pointer.
  have hget : ((m.set .vsp (m.get .vsp + 8)).set first m.view.top).get .vsp = m.get .vsp + 8 := by
    rw [get_set_of_ne _ _ hfirst, get_set_self]
  have htop : ((m.set .vsp (m.get .vsp + 8)).set first m.view.top).view.top = m.view.second := by
    rw [StackMachine.top, register_view, hget, view_set, view_set]
    rfl
  have hsp : ((m.set .vsp (m.get .vsp + 8)).set first m.view.top).stackPointer = .vsp := h
  rw [run_cons_of_proceed (execute_setReg_pop h first),
    run_cons_of_proceed (execute_setReg_pop hsp second), hget, htop]
  -- Two steps of eight bytes make one of sixteen, and the first holder is not touched.
  rw [set_comm _ _ _ hfirst, set_set, UInt64.add_assoc]
  rfl

/-- An operator straight off the stack. -/
theorem run_direct (h : m.stackPointer = .vsp) (op : Operator) :
    run op.direct m =
      (.proceed, (m.set .vsp (m.get .vsp + 16)).push 8 (op.apply m.view.top m.view.second)) := by
  -- The right operand is popped second, from the stack that the left one has left.
  have hsp : (m.set .vsp (m.get .vsp + 8)).stackPointer = .vsp := h
  have hget : (m.set .vsp (m.get .vsp + 8)).get .vsp = m.get .vsp + 8 := get_set_self _ _ _
  have htop : (m.set .vsp (m.get .vsp + 8)).view.top = m.view.second := by
    rw [StackMachine.top, register_view, hget, view_set]
    rfl
  have hset : (m.set .vsp (m.get .vsp + 8)).set .vsp (m.get .vsp + 8 + 8) =
      m.set .vsp (m.get .vsp + 16) := by
    rw [set_set, UInt64.add_assoc]
    rfl
  simp only [Operator.direct, run, execute, eval, pop_eq h, pop_eq hsp, hget, htop, hset,
    Word.and_mask]

/-- An operator through the operand holders. -/
theorem run_throughHolders (h : m.stackPointer = .vsp) (op : Operator) (order : PopOrder) :
    run (op.throughHolders order) m =
      (.proceed, (m.popInto order.holders.1 order.holders.2).push 8
        (order.apply op m.view.top m.view.second)) := by
  have hpush (n : Machine) : run [.push 8 (.binary op 8 (.reg 8 .vlhs) (.reg 8 .vrhs))] n =
      (.proceed, n.push 8 (op.apply (n.get .vlhs) (n.get .vrhs))) := by
    simp only [run, execute, eval, Word.and_mask]
  -- The holders are filled in pop order and read in the order of the operands.
  cases order with
  | leftFirst =>
      rw [Operator.throughHolders, PopOrder.holders, run_popInto h (by decide), hpush,
        get_popInto_first m (by decide), get_popInto_second]
      rfl
  | rightFirst =>
      rw [Operator.throughHolders, PopOrder.holders, run_popInto h (by decide), hpush,
        get_popInto_first m (by decide), get_popInto_second]
      rfl

theorem run_store_holders (m : Machine) :
    run [.store 8 (.reg 8 .vlhs) (.reg 8 .vrhs)] m =
      (.proceed, m.store (m.get .vlhs) 8 (m.get .vrhs)) := by
  simp only [run, execute, eval, Word.and_mask]

/-- Popping into the operand holders leaves the values behind there and nowhere else. -/
theorem agreeBut_popInto (m : Machine) (order : PopOrder) :
    AgreeBut [.vlhs, .vrhs] (m.set .vsp (m.get .vsp + 16))
      (m.popInto order.holders.1 order.holders.2) := by
  have hholders : order.holders.1 ∈ [Register.vlhs, .vrhs] ∧
      order.holders.2 ∈ [Register.vlhs, .vrhs] := by
    cases order <;> decide
  exact agreeBut_set_right (agreeBut_set_right (.refl _ _) hholders.1 _) hholders.2 _

/-- Where the order of the operands does not matter, both ways do the same but for the
    operand holders. -/
theorem agreeBut_run_direct (h : m.stackPointer = .vsp) {op : Operator}
    (hop : op.isOrderSensitive = false) (order : PopOrder) :
    (run op.direct m).1 = (run (op.throughHolders order) m).1 ∧
      AgreeBut [.vlhs, .vrhs] (run op.direct m).2 (run (op.throughHolders order) m).2 := by
  have hsp : (m.set .vsp (m.get .vsp + 16)).stackPointer ∉ [Register.vlhs, .vrhs] := by
    rw [show (m.set .vsp (m.get .vsp + 16)).stackPointer = .vsp from h]
    decide
  rw [run_direct h, run_throughHolders h, order.apply_of_not_isOrderSensitive hop]
  exact ⟨rfl, agreeBut_push (agreeBut_popInto m order) hsp 8 _⟩

/-- The result replaces the lower of the two values. -/
theorem memory_run_throughHolders (h : m.stackPointer = .vsp) (op : Operator) (order : PopOrder) :
    (run (op.throughHolders order) m).2.memory =
      m.memory.store (m.get .vsp + 8) 8 (order.apply op m.view.top m.view.second) := by
  have hget : (m.popInto order.holders.1 order.holders.2).get .vsp = m.get .vsp + 16 := by
    have hagree := (agreeBut_popInto m order).get .vsp (by decide)
    rw [← hagree, get_set_self]
  have hsp : (m.popInto order.holders.1 order.holders.2).stackPointer = .vsp := h
  have haddress : m.get .vsp + 16 - 8 = m.get .vsp + 8 := by
    rw [UInt64.sub_eq_add_neg, UInt64.add_assoc]
    rfl
  rw [run_throughHolders h, push, hsp, hget, haddress]
  rfl

/-- The pop order makes no difference to memory just if the result is the same with the
    operands exchanged. -/
theorem memory_throughHolders_eq_iff (h : m.stackPointer = .vsp) (op : Operator) :
    (run (op.throughHolders .leftFirst) m).2.memory =
        (run (op.throughHolders .rightFirst) m).2.memory ↔
      op.apply m.view.top m.view.second = op.apply m.view.second m.view.top := by
  rw [memory_run_throughHolders h, memory_run_throughHolders h]
  exact Memory.store_eq_store_iff

end Machine

namespace Operator

open Machine

/-- The operand holders are left out just where they are not needed. Without them an operator
    whose operands may be exchanged does what it does with them, filled in either order, but
    for what is left behind in them. With any other operator there is a machine on which the
    two orders lead to different memory. And lifting makes just this distinction. -/
theorem direct_agrees (op : Operator) :
    (op.isOrderSensitive = false → ∀ m : Machine, m.stackPointer = .vsp → ∀ order : PopOrder,
      (run op.direct m).1 = (run (op.throughHolders order) m).1 ∧
      AgreeBut [.vlhs, .vrhs] (run op.direct m).2 (run (op.throughHolders order) m).2) ∧
    (op.isOrderSensitive = true → ∃ m : Machine, m.stackPointer = .vsp ∧
      (run (op.throughHolders .leftFirst) m).2.memory ≠
        (run (op.throughHolders .rightFirst) m).2.memory) ∧
    ∀ (r : Revision) (i : Instruction), i.category = .stackBinaryOp op →
      ((r.lift i : Recorder Unit).run {}).2.statements =
        if op.isOrderSensitive then op.throughHolders (r.popOrder op) else op.direct := by
  refine ⟨fun hop m hm order => agreeBut_run_direct hm hop order, fun hop => ?_,
    fun r i hi => ?_⟩
  · -- A one above a zero is enough to tell the two orders apart.
    refine ⟨((start .vsp 0x1000).push 8 0).push 8 1, rfl, ?_⟩
    rw [ne_eq, memory_throughHolders_eq_iff rfl, top_push rfl, second_push rfl, top_push rfl]
    exact apply_one_zero_ne hop
  · rw [Revision.statements_lift, Revision.code_binary r hi]

/-- A product off a stack that lies across the end of the address space, and the difference,
    for which there are such machines. -/
theorem direct_agrees_product :
    let m := start .vsp 0xfffffffffffffffc
    let i : Instruction := ⟨0, ⟨"mulq", .absent, .stackBinaryOp .mul⟩, 0, []⟩
    mul.isOrderSensitive = false ∧ m.stackPointer = .vsp ∧
    ((run mul.direct m).1 = (run (mul.throughHolders .rightFirst) m).1 ∧
      AgreeBut [.vlhs, .vrhs] (run mul.direct m).2
        (run (mul.throughHolders .rightFirst) m).2) ∧
    sub.isOrderSensitive = true ∧
    (∃ n : Machine, n.stackPointer = .vsp ∧ (run (sub.throughHolders .leftFirst) n).2.memory ≠
      (run (sub.throughHolders .rightFirst) n).2.memory) ∧
    i.category = .stackBinaryOp mul ∧ ∀ r : Revision,
      ((r.lift i : Recorder Unit).run {}).2.statements = mul.direct := by
  intro m i
  exact ⟨rfl, rfl, (direct_agrees mul).1 rfl m rfl .rightFirst, rfl,
    (direct_agrees sub).2.1 rfl, rfl, fun r => (direct_agrees mul).2.2 r i rfl⟩

end Operator

end StackLift
