import StackLift.Machine.Basic

/-!
# Runs of Statements

How far a run gets.

`Machine.run` stops at the first statement that passes control on, and its result
does not say which one that was. `Machine.executed` lists the statements that were
executed on the way, the last one included. Code that stays in straight line is
executed in full, whatever stands behind it, which is what lets the code of
several instructions be run piece by piece.

Where control goes may depend on the machine, but not whether a statement passes it
on. So how far a run gets can be read off its statements.

## Main definitions

* `Statement.passesOn`: The statement passes control on.
* `Machine.executed`: The statements that a run executes.

## Theorems

* `executed_eq_take`: They are the same on every machine.
* `run_append`: Statements behind statements.
* `executed_append`: What is executed of them.
* `executed_of_proceed`: A run that does not pass control on executes everything.
-/

namespace StackLift

/-- The statement passes control on. -/
def Statement.passesOn : Statement → Bool
  | .jump _ | .ret => true
  | .nop | .push _ _ | .setReg _ _ _ | .store _ _ _ => false

namespace Machine

variable {m n : Machine} {xs : List Statement}

/-- The statements that a run executes: all up to the first that passes control
    on, and that one as well. -/
def executed : List Statement → Machine → List Statement
  | [], _ => []
  | s :: ss, m => match execute s m with
    | (.proceed, n) => s :: executed ss n
    | (.jump _, _) | (.ret, _) => [s]

theorem passesOn_eq (s : Statement) (m : Machine) :
    s.passesOn = decide ((execute s m).1 ≠ .proceed) := by
  cases s <;> rfl

/-- A run executes the statements up to the first that passes control on, and that one,
    whatever the machine. -/
theorem executed_eq_take (xs : List Statement) (m : Machine) :
    executed xs m = xs.take (xs.findIdx Statement.passesOn + 1) := by
  induction xs generalizing m with
  | nil => rfl
  | cons x xs ih =>
      rw [executed, List.findIdx_cons, passesOn_eq x m]
      rcases execute x m with ⟨c, n⟩
      cases c with
      | proceed => exact congrArg (x :: ·) (ih n)
      | jump a => rfl
      | ret => rfl

/-- Statements behind others are executed if these do not pass control on. -/
theorem run_append (xs ys : List Statement) (m : Machine) :
    run (xs ++ ys) m = match run xs m with
      | (.proceed, n) => run ys n
      | out => out := by
  induction xs generalizing m with
  | nil => rfl
  | cons x xs ih =>
      rw [List.cons_append, run, run]
      rcases execute x m with ⟨c, n⟩
      cases c with
      | proceed => exact ih n
      | jump a => rfl
      | ret => rfl

/-- Behind statements that do not pass control on, the others are executed as far
    as they are from there. -/
theorem executed_append (h : run xs m = (.proceed, n)) (ys : List Statement) :
    executed (xs ++ ys) m = xs ++ executed ys n := by
  induction xs generalizing m with
  | nil =>
      cases h
      rfl
  | cons x xs ih =>
      rw [run] at h
      rw [List.cons_append, executed]
      rcases hx : execute x m with ⟨c, k⟩
      rw [hx] at h
      cases c with
      | proceed => exact congrArg (x :: ·) (ih h)
      | jump a => cases congrArg Prod.fst h
      | ret => cases congrArg Prod.fst h

/-- A run that does not pass control on executes all its statements. -/
theorem executed_of_proceed (h : run xs m = (.proceed, n)) : executed xs m = xs := by
  have happ := executed_append h []
  rwa [List.append_nil, executed, List.append_nil] at happ

end Machine

end StackLift
