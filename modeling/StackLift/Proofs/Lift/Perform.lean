import StackLift.Proofs.Lift.Block
import StackLift.Proofs.Lift.Handles

/-!
# Acting at Once

Lifting onto a machine directly comes to the same as recording and running.

A recorder answers a request with the expression and leaves its value to whoever runs
the statements. The opposite is a sink that acts on a machine whenever it is asked: the
handle of an expression is its value, and a value is popped, a register read and memory
loaded at the moment of the request, whatever is still to come.

The two agree because a run computes the expressions of a statement in just the order in
which they are asked for. Only the end needs care. A run stops at a jump or a return,
while a sink acts on whatever it is asked; but the code of an instruction is executed to
its end, so there is nothing behind a jump that one of them would do and the other not.

## Main definitions

* `Performer`: Computations that act on a machine.

## Theorems

* `Performer.run_ask`: Asking for an expression computes its value.
* `Performer.run_ask_statement`: Asking for a statement executes it.
* `Performer.run_forM_ask`: Asking for statements runs them, if a run gets to the end.
* `Revision.perform_eq_run_record`: Lifting onto a machine, against recording and running.
-/

namespace StackLift

/-- Computations that act on a machine, and say how control goes on. -/
abbrev Performer := StateM (Control × Machine)

namespace Performer

/-- Acts on the machine. Control goes on as it did. -/
def act (f : Machine → Machine) : Performer Unit := modify fun (c, m) => (c, f m)

/-- Passes control on. -/
def leave (c : Control) : Performer Unit := modify fun (_, m) => (c, m)

instance : Sink Performer UInt64 where
  constant width value := pure (value &&& Word.mask width)
  reg width r := return (← get).2.get r &&& Word.mask width
  pop width := modifyGet fun (c, m) => ((m.pop width).1, (c, (m.pop width).2))
  load width address := return (← get).2.memory.load address width
  binary op width left right := pure (op.apply left right &&& Word.mask width)
  nop := pure ()
  push width value := act (·.push width value)
  setReg width r value := act (·.set r (value &&& Word.mask width))
  store width address value := act (·.store address width value)
  jump target := leave (.jump target)
  ret := leave .ret

theorem run_bind {α β : Type} {x : Performer α} {s t : Control × Machine} {a : α}
    (h : x.run s = (a, t)) (f : α → Performer β) : (x >>= f).run s = (f a).run t := by
  rw [StateT.run_bind, h]
  rfl

/-- Asking for an expression computes its value. -/
theorem run_ask (e : Expression) (c : Control) (m : Machine) :
    (e.ask : Performer UInt64).run (c, m) = ((Machine.eval e m).1, (c, (Machine.eval e m).2)) := by
  induction e generalizing m with
  | const width value => rfl
  | reg width r => rfl
  | pop width => rfl
  | load width address ih =>
      rw [Expression.ask, run_bind (ih m)]
      rfl
  | binary op width left right ihl ihr =>
      rw [Expression.ask, run_bind (ihl m), run_bind (ihr _)]
      rfl

/-- Asking for a statement executes it. -/
theorem run_ask_statement (s : Statement) (m : Machine) :
    (s.ask : Performer Unit).run (.proceed, m) = ((), Machine.execute s m) := by
  cases s with
  | nop => rfl
  | push width value =>
      rw [Statement.ask, run_bind (run_ask value _ m)]
      rfl
  | setReg width r value =>
      rw [Statement.ask, run_bind (run_ask value _ m)]
      rfl
  | store width address value =>
      rw [Statement.ask, run_bind (run_ask address _ m), run_bind (run_ask value _ _)]
      rfl
  | jump target =>
      rw [Statement.ask, run_bind (run_ask target _ m)]
      rfl
  | ret => rfl

/-- Asking for statements runs them, if a run executes them all. -/
theorem run_forM_ask {ss : List Statement} {m : Machine} (h : Machine.executed ss m = ss) :
    (forM ss Statement.ask : Performer Unit).run (.proceed, m) = ((), Machine.run ss m) := by
  induction ss generalizing m with
  | nil => rfl
  | cons s ss ih =>
      -- Behind a statement that passes control on there is none that is not executed.
      rw [Machine.executed] at h
      rw [List.forM_cons, run_bind (run_ask_statement s m), Machine.run]
      rcases hs : Machine.execute s m with ⟨c, n⟩
      rw [hs] at h
      cases c with
      | proceed => exact ih (List.cons.inj h).2
      | jump a =>
          rw [← (List.cons.inj h).2]
          rfl
      | ret =>
          rw [← (List.cons.inj h).2]
          rfl

end Performer

/-- Lifting onto a machine at once leaves the machine, and passes control on, as running
    what lifting records; and lifting takes each handle that it is given once. -/
theorem Revision.perform_eq_run_record (r : Revision) (address : UInt64) (window : List UInt8)
    (m : Machine) :
    let out := (r.liftAt address window : Recorder _).run {}
    (r.liftAt address window : Performer _).run (.proceed, m) =
        (out.1, Machine.run out.2.statements m) ∧
      SinkCall.TakesEachOnce (Tracer.calls (r.liftAt address window)) := by
  refine ⟨?_, r.takesEachOnce_calls_liftAt address window⟩
  unfold liftAt
  cases r.decode address window with
  | error e => rfl
  | ok i =>
      have hlift := Performer.run_forM_ask (executed_code r i m)
      rw [← lift_eq_forM_ask, ← statements_lift] at hlift
      simp only [StateT.run_bind, hlift]
      rfl

end StackLift
