import StackLift.Machine.Basic

/-!
# What Statements Leave Alone

A register keeps its value unless something is written into it.

There are two ways for that. A statement may name the register as the one it puts a
value into, which can be read off the statement. And the register may be the one that
addresses the stack, which changes with every value pushed or popped and is named by no
statement at all: which register it is, is up to the machine. `Machine.Keeps` is for the
registers that are left. It is a condition on machines that steps one after the other
hand on, because no statement makes another register address the stack.

Memory is left alone as long as values are only computed, even if they are taken off the
stack on the way.

## Main definitions

* `Statement.assigned?`: The register that a statement puts a value into.
* `Expression.registers`, `Statement.registers`: The registers that occur in code.
* `Machine.Keeps`: A register that does not address the stack holds what it held.

## Theorems

* `get_set`, `set_set`, `set_comm`: Setting registers, one or two.
* `get_push`, `get_pop`: How the stack pointer moves.
* `memory_eval`: Computing an expression leaves memory alone.
* `keeps_eval`: It changes the stack pointer at most.
* `keeps_execute`: So does a statement that does not name the register.
* `keeps_run`: So do such statements one after the other.
-/

namespace StackLift

/-- The register that the statement puts a value into. -/
def Statement.assigned? : Statement → Option Register
  | .setReg _ x _ => some x
  | .nop | .push _ _ | .store _ _ _ | .jump _ | .ret => none

/-- The registers that occur in the expression. -/
def Expression.registers : Expression → List Register
  | .const _ _ | .pop _ => []
  | .reg _ x => [x]
  | .load _ address => address.registers
  | .binary _ _ left right => left.registers ++ right.registers

/-- The registers that occur in the statement. -/
def Statement.registers : Statement → List Register
  | .nop | .ret => []
  | .push _ value => value.registers
  | .setReg _ x value => x :: value.registers
  | .store _ address value => address.registers ++ value.registers
  | .jump target => target.registers

theorem Statement.mem_registers_of_assigned? {s : Statement} {x : Register}
    (h : s.assigned? = some x) : x ∈ s.registers := by
  cases s with
  | setReg width y value =>
      cases h
      exact List.mem_cons_self
  | _ => contradiction

namespace Machine

section Set

variable {r t : Register}

theorem get_set (m : Machine) (r t : Register) (v : UInt64) :
    (m.set r v).get t = if r = t then v else m.get t := m.registers.get_set r t v

@[simp] theorem get_set_self (m : Machine) (r : Register) (v : UInt64) : (m.set r v).get r = v := by
  rw [get_set, if_pos rfl]

theorem get_set_of_ne (m : Machine) (v : UInt64) (h : r ≠ t) : (m.set r v).get t = m.get t := by
  rw [get_set, if_neg h]

@[simp] theorem set_set (m : Machine) (r : Register) (v w : UInt64) :
    (m.set r v).set r w = m.set r w := by
  cases r <;> rfl

theorem set_comm (m : Machine) (v w : UInt64) (h : r ≠ t) :
    (m.set r v).set t w = (m.set t w).set r v := by
  cases r <;> cases t <;> first | rfl | contradiction

end Set

/-- The stack is addressed by the same register as before, and unless that is `x`, this
    holds what it held. -/
structure Keeps (x : Register) (m n : Machine) : Prop where
  stackPointer : n.stackPointer = m.stackPointer
  get : x ≠ m.stackPointer → n.get x = m.get x

variable {x : Register} {k m n : Machine}

theorem Keeps.refl (x : Register) (m : Machine) : Keeps x m m := ⟨rfl, fun _ => rfl⟩

theorem Keeps.trans (hmn : Keeps x m n) (hnk : Keeps x n k) : Keeps x m k := by
  refine ⟨hnk.stackPointer.trans hmn.stackPointer, fun hx => ?_⟩
  have hxn : x ≠ n.stackPointer := by rwa [hmn.stackPointer]
  rw [hnk.get hxn, hmn.get hx]

theorem keeps_set {y : Register} (m : Machine) (v : UInt64) (h : y = m.stackPointer ∨ y ≠ x) :
    Keeps x m (m.set y v) := by
  refine ⟨rfl, fun hx => ?_⟩
  have hyx : y ≠ x := by
    rcases h with rfl | h
    · exact hx.symm
    · exact h
  exact get_set_of_ne m v hyx

theorem keeps_store (x : Register) (m : Machine) (a width v : UInt64) :
    Keeps x m (m.store a width v) := ⟨rfl, fun _ => rfl⟩

theorem keeps_push (x : Register) (m : Machine) (width v : UInt64) : Keeps x m (m.push width v) :=
  (keeps_set m _ (Or.inl rfl)).trans (keeps_store x _ _ _ _)

theorem keeps_pop (x : Register) (m : Machine) (width : UInt64) : Keeps x m (m.pop width).2 :=
  keeps_set m _ (Or.inl rfl)

theorem get_push (m : Machine) (width v : UInt64) :
    (m.push width v).get m.stackPointer = m.get m.stackPointer - width := by
  rw [push]
  exact get_set_self _ _ _

theorem get_pop (m : Machine) (width : UInt64) :
    (m.pop width).2.get m.stackPointer = m.get m.stackPointer + width := get_set_self _ _ _

theorem memory_pop (m : Machine) (width : UInt64) : (m.pop width).2.memory = m.memory := rfl

/-- Computing an expression leaves memory alone. -/
theorem memory_eval (e : Expression) (m : Machine) : (eval e m).2.memory = m.memory := by
  induction e generalizing m with
  | const width value => rfl
  | reg width r => rfl
  | pop width => rfl
  | load width address ih => exact ih m
  | binary op width left right ihl ihr => exact (ihr _).trans (ihl m)

/-- Computing an expression changes the stack pointer at most. -/
theorem keeps_eval (x : Register) (e : Expression) (m : Machine) : Keeps x m (eval e m).2 := by
  induction e generalizing m with
  | const width value => exact .refl x m
  | reg width r => exact .refl x m
  | pop width => exact keeps_pop x m width
  | load width address ih => exact ih m
  | binary op width left right ihl ihr => exact (ihl m).trans (ihr _)

/-- A statement changes the stack pointer and the register that it names at most. -/
theorem keeps_execute {s : Statement} (hs : s.assigned? ≠ some x) (m : Machine) :
    Keeps x m (execute s m).2 := by
  cases s with
  | nop => exact .refl x m
  | push width value => exact (keeps_eval x value m).trans (keeps_push x _ width _)
  | setReg width y value =>
      have hyx : y ≠ x := fun h => hs (congrArg some h)
      exact (keeps_eval x value m).trans (keeps_set _ _ (Or.inr hyx))
  | store width address value =>
      exact ((keeps_eval x address m).trans (keeps_eval x value _)).trans (keeps_store x _ _ _ _)
  | jump target => exact keeps_eval x target m
  | ret => exact .refl x m

theorem stackPointer_execute (s : Statement) (m : Machine) :
    (execute s m).2.stackPointer = m.stackPointer := by
  by_cases hs : s.assigned? = some .vsp
  · have hne : s.assigned? ≠ some .varg := by
      rw [hs]
      decide
    exact (keeps_execute hne m).stackPointer
  · exact (keeps_execute hs m).stackPointer

/-- Statements that do not name a register keep it, as far as they are executed. -/
theorem keeps_run {ss : List Statement} (hss : ∀ s ∈ ss, s.assigned? ≠ some x) (m : Machine) :
    Keeps x m (run ss m).2 := by
  induction ss generalizing m with
  | nil => exact .refl x m
  | cons s ss ih =>
      rw [List.forall_mem_cons] at hss
      have hs := keeps_execute hss.1 m
      rw [run]
      rcases hn : execute s m with ⟨c, n⟩
      rw [hn] at hs
      cases c with
      | proceed => exact hs.trans (ih hss.2 n)
      | jump a => exact hs
      | ret => exact hs

end Machine

end StackLift
