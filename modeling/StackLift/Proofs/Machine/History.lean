import StackLift.Proofs.Machine.Frame
import StackLift.Proofs.Memory

/-!
# The Memory of a Machine by its History

What is in the memory of a machine after operations of any kind.

A memory is written in three ways: by a write, by a push, and by a statement that is executed
and does one of the two. Each of them comes down to one access, the low bytes of a value
from an address on. Accesses may have different widths, overlap, and lie across the end of the
address space, and where an access lies can depend on what was in memory before. What they
leave behind is simple nevertheless, if it is asked for at a single address: the last access
that covers the address has left its byte there, and no earlier one matters.

So all that is kept of a sequence of operations is its history, which is the list of its
accesses. `cell?_perform` is about a single operation, `cell?_performAll` about all of them.

## Main definitions

* `Machine.Action`: What may be done with a machine.
* `Machine.history`: The accesses of a sequence of actions.

## Theorems

* `cell?_perform`: What a single action leaves at an address.
* `cell?_performAll`: What a sequence of actions leaves there.
* `memory_performAll`: What is read from a machine after any actions.
-/

namespace StackLift

namespace Machine

/-- What may be done with a machine. -/
inductive Action where
  | write (address width value : UInt64)
  | push (width value : UInt64)
  | pop (width : UInt64)
  | setRegister (r : Register) (value : UInt64)
  | eval (e : Expression)
  | execute (s : Statement)
deriving DecidableEq, Repr

/-- The access of a push, to the bytes below the top of the stack. -/
def accessOfPush (m : Machine) (width value : UInt64) : Access :=
  ⟨m.get m.stackPointer - width, width, value⟩

/-- The access of a statement. Address and value are computed where it is executed, in the
    order in which the statement names them. -/
def accessOfStatement? (m : Machine) : Statement → Option Access
  | .push width value =>
    let (v, m) := Machine.eval value m
    some (m.accessOfPush width v)
  | .store width address value =>
    let (a, m) := Machine.eval address m
    let (v, _) := Machine.eval value m
    some ⟨a, width, v⟩
  | .nop | .setReg _ _ _ | .jump _ | .ret => none

namespace Action

/-- The machine after the action. -/
def perform : Action → Machine → Machine
  | write address width value, m => m.store address width value
  | push width value, m => m.push width value
  | pop width, m => (m.pop width).2
  | setRegister r value, m => m.set r value
  | eval e, m => (Machine.eval e m).2
  | execute s, m => (Machine.execute s m).2

/-- What the action writes to memory. -/
def access? : Action → Machine → Option Access
  | write address width value, _ => some ⟨address, width, value⟩
  | push width value, m => some (m.accessOfPush width value)
  | execute s, m => m.accessOfStatement? s
  | pop _, _ | setRegister _ _, _ | eval _, _ => none

end Action

/-- The machine after actions one after the other. -/
def performAll (xs : List Action) (m : Machine) : Machine := xs.foldl (fun m x => x.perform m) m

/-- What actions one after the other write to memory, the earliest first. -/
def history : List Action → Machine → List Access
  | [], _ => []
  | x :: xs, m => (x.access? m).toList ++ history xs (x.perform m)

theorem performAll_cons (x : Action) (xs : List Action) (m : Machine) :
    performAll (x :: xs) m = performAll xs (x.perform m) := rfl

theorem performAll_append (xs ys : List Action) (m : Machine) :
    performAll (xs ++ ys) m = performAll ys (performAll xs m) := List.foldl_append

theorem cell?_push (m : Machine) (width value a : UInt64) :
    (m.push width value).memory.cell? a =
      ((m.accessOfPush width value).byte? a).or (m.memory.cell? a) :=
  m.memory.cell?_store_access (m.accessOfPush width value) a

theorem cell?_execute (s : Statement) (m : Machine) (a : UInt64) :
    (execute s m).2.memory.cell? a =
      ((m.accessOfStatement? s).bind (·.byte? a)).or (m.memory.cell? a) := by
  -- What is computed for a statement leaves memory alone, so the access is all there is.
  cases s with
  | nop => rfl
  | push width value =>
      rw [← memory_eval value m]
      exact cell?_push (eval value m).2 width _ a
  | setReg width r value =>
      rw [← memory_eval value m]
      rfl
  | store width address value =>
      rw [← memory_eval address m, ← memory_eval value (eval address m).2]
      exact Memory.cell?_store_access _ ⟨_, width, _⟩ a
  | jump target =>
      rw [← memory_eval target m]
      rfl
  | ret => rfl

/-- What an action leaves at an address: the byte that it writes there, or what was there. -/
theorem cell?_perform (x : Action) (m : Machine) (a : UInt64) :
    (x.perform m).memory.cell? a = ((x.access? m).bind (·.byte? a)).or (m.memory.cell? a) := by
  cases x with
  | write address width value => exact m.memory.cell?_store_access ⟨address, width, value⟩ a
  | push width value => exact cell?_push m width value a
  | pop width => rfl
  | setRegister r value => rfl
  | eval e => exact congrArg (·.cell? a) (memory_eval e m)
  | execute s => exact cell?_execute s m a

/-- What actions one after the other leave at an address: the byte that was last written
    there, or what was there before all of them. -/
theorem cell?_performAll (xs : List Action) (m : Machine) (a : UInt64) :
    (performAll xs m).memory.cell? a = (lastByte? (history xs m) a).or (m.memory.cell? a) := by
  induction xs generalizing m with
  | nil => rfl
  | cons x xs ih =>
      have hfirst : lastByte? (x.access? m).toList a = (x.access? m).bind (·.byte? a) := by
        cases x.access? m with
        | none => rfl
        | some y => exact lastByte?_singleton y a
      rw [performAll_cons, ih, cell?_perform, history, lastByte?_append, hfirst, Option.or_assoc]

theorem cell?_start (sp : Register) (top a : UInt64) :
    (start sp top).memory.cell? a = none := Std.ExtHashMap.getElem?_empty

/-- After any actions on a new machine, a word of up to eight bytes is the sum of its bytes
    by their places, each as it was last written to its address and zero if it never was.
    That something was written in a range says that an access covers an address of it. And
    memory is not changed by looking at it, be it that a value is taken off the stack or that
    an expression is computed. -/
theorem memory_performAll (sp : Register) (top : UInt64) (xs : List Action) :
    let m := performAll xs (start sp top)
    let log := history xs (start sp top)
    (∀ a w : UInt64, w ≤ 8 → (m.memory.load a w).toNat =
      ∑ k ∈ Finset.range w.toNat,
        ((lastByte? log (a + UInt64.ofNat k)).getD 0).toNat * 256 ^ k) ∧
    (∀ a n, m.memory.wasWritten a n = true ↔
      ∃ k < n, ∃ x ∈ log, x.Covers (a + UInt64.ofNat k)) ∧
    (∀ width, (m.pop width).2.memory = m.memory) ∧
    ∀ e, (eval e m).2.memory = m.memory := by
  intro m log
  have hcell (a : UInt64) : m.memory.cell? a = lastByte? log a := by
    rw [cell?_performAll, cell?_start, Option.or_none]
  refine ⟨fun a w hw => ?_, fun a n => ?_, memory_pop m, fun e => memory_eval e m⟩
  · rw [Memory.toNat_load m.memory a hw]
    simp only [hcell]
  · rw [Memory.wasWritten_iff]
    simp only [hcell, isSome_lastByte?_iff]

/-- Values of eight, two and one byte, one over the other and across the end of the address
    space. -/
theorem memory_performAll_overlap :
    let xs : List Action := [.write 0xfffffffffffffffd 8 0x1122334455667788, .push 2 0xabcd,
      .eval (.pop 1), .execute (.store 1 (.const 8 0xfffffffffffffffe) (.const 1 0xef))]
    (8 : UInt64) ≤ 8 ∧ ((performAll xs (start .vsp 0)).memory.load 0xfffffffffffffffe 8).toNat =
      0x1122334455abef := by
  intro xs
  have hlog : history xs (start .vsp 0) = [⟨0xfffffffffffffffd, 8, 0x1122334455667788⟩,
      ⟨0xfffffffffffffffe, 2, 0xabcd⟩, ⟨0xfffffffffffffffe, 1, 0xef⟩] := by decide
  refine ⟨by decide, ((memory_performAll .vsp 0 xs).1 _ 8 (by decide)).trans ?_⟩
  rw [hlog]
  decide

end Machine

end StackLift
