import StackLift.Execution
import StackLift.Proofs.Lift.Block

/-!
# Instruction by Instruction

The code of an image executed without blocks: decode at the address, lift what is
decoded there and nothing else, run it, go on where it leads.

`Interpreter.step` needs no scan, no listing and no map of lifted code, which
makes it what block-wise execution is measured by. What it has to be compared
with is a block's code run in one go. `PassesOn` says how that can come out, and
ties each of the three cases to the instructions: the code proceeds only if
nothing can be decoded behind the block, it jumps only to the target that the
last instruction names, and it returns only from the last instruction. In each
case the interpreter has been at as many instructions as the block has. The
second case needs an accepted definition. Otherwise a branch might come without
an immediate, and its code would then fall through.

## Main definitions

* `Interpreter.step`: The state after one instruction.
* `Interpreter.steps`: The state after so many instructions.
* `PassesOn`: How the code of a run passes control on.

## Theorems

* `steps_add`: Instructions one after the other.
* `passesOn_run`: Running the code of a walk.
-/

namespace StackLift

namespace Interpreter

open Execution (State)

/-- The state after the instruction at the current address, lifted by itself. There
    is none if nothing can be decoded, or if the instruction leaves the procedure. -/
def step (r : Revision) (m : Image) (s : State) : Option State :=
  match r.decodeAt m s.position with
  | .error _ => none
  | .ok i => match Machine.run ((r.lift i : Recorder Unit).run {}).2.statements s.machine with
    | (.proceed, n) => some ⟨i.next, n⟩
    | (.jump target, n) => some ⟨target, n⟩
    | (.ret, _) => none

/-- The state after so many instructions, unless there are fewer. -/
def steps (r : Revision) (m : Image) : Nat → State → Option State
  | 0, s => some s
  | n + 1, s => match step r m s with
    | some t => steps r m n t
    | none => none

variable {r : Revision} {m : Image} {s t : State} {i : Instruction}

theorem step_of_decodeAt (hi : r.decodeAt m s.position = .ok i) :
    step r m s = match Machine.run (r.code i) s.machine with
      | (.proceed, n) => some ⟨i.next, n⟩
      | (.jump target, n) => some ⟨target, n⟩
      | (.ret, _) => none := by
  rw [step, hi]
  simp only [Revision.statements_lift]

theorem steps_add {n k : Nat} (h : steps r m n s = some t) :
    steps r m (n + k) s = steps r m k t := by
  induction n generalizing s with
  | zero =>
      cases h
      rw [Nat.zero_add]
  | succ n ih =>
      rw [Nat.add_right_comm, steps]
      rw [steps] at h
      cases hstep : step r m s with
      | none =>
          rw [hstep] at h
          contradiction
      | some u =>
          rw [hstep] at h
          exact ih h

theorem steps_one_of_step (h : step r m s = some t) : steps r m 1 s = some t := by
  simp only [steps, h]

/-- How the code of a run of instructions passes control on, and where the
    interpreter is then. -/
inductive PassesOn (r : Revision) (m : Image) (a : UInt64) (run : Run) (s : Machine) :
    Control → Machine → Prop where
  /-- Nothing can be decoded behind the run, and that is where the code goes on. -/
  | runsOut {e : DecodeError} {n : Machine} (he : run.error = some e)
      (hs : steps r m run.instructions.length ⟨a, s⟩ = some ⟨a + UInt64.ofNat run.size, n⟩) :
      PassesOn r m a run s .proceed n
  /-- The last instruction is a branch, and the code goes on at its target. -/
  | branches {i : Instruction} {t : UInt64} {n : Machine}
      (hi : run.instructions.getLast? = some i) (hcat : i.category = .unconditionalBranch)
      (ht : r.branchTarget? i = some t)
      (hs : steps r m run.instructions.length ⟨a, s⟩ = some ⟨t, n⟩) :
      PassesOn r m a run s (.jump t) n
  /-- The last instruction is a return, and the code ends with it. -/
  | returns {i : Instruction} {k : Nat} {n : Machine}
      (hi : run.instructions.getLast? = some i) (hcat : i.category = .ret)
      (hk : run.instructions.length = k + 1)
      (hs : steps r m k ⟨a, s⟩ = some ⟨i.address, n⟩) :
      PassesOn r m a run s .ret n

theorem PassesOn.cons {rest : Run} {u v n : Machine} {c : Control}
    (hi : step r m ⟨i.address, u⟩ = some ⟨i.next, v⟩) (h : PassesOn r m i.next rest v c n) :
    PassesOn r m i.address ⟨i :: rest.instructions, rest.error⟩ u c n := by
  -- Whatever the rest takes, there is one instruction more.
  have hfirst := steps_one_of_step hi
  have hsteps {k : Nat} {t : State} (hs : steps r m k ⟨i.next, v⟩ = some t) :
      steps r m (k + 1) ⟨i.address, u⟩ = some t := by
    rw [Nat.add_comm, steps_add hfirst]
    exact hs
  have hgetLast {j : Instruction} (hj : rest.instructions.getLast? = some j) :
      (i :: rest.instructions).getLast? = some j := by
    rw [List.getLast?_cons, hj, Option.getD_some]
  cases h with
  | runsOut he hs =>
      refine .runsOut he ?_
      rw [List.length_cons, hsteps hs, Run.add_size_cons]
  | branches hlast hcat ht hs => exact .branches (hgetLast hlast) hcat ht (hsteps hs)
  | returns hlast hcat hk hs =>
      exact .returns (hgetLast hlast) hcat (congrArg (· + 1) hk) (hsteps hs)

/-- Running the code of a walk comes out as the last instruction has it, and the
    interpreter gets there as well. -/
theorem passesOn_run {d : Definition} {a : UInt64} {run : Run}
    (hr : Revision.ofDefinition d = .ok r) (h : Revision.Walk r m a run) (s : Machine) :
    PassesOn r m a run s (Machine.run (run.instructions.flatMap r.code) s).1
      (Machine.run (run.instructions.flatMap r.code) s).2 := by
  -- Along the walk, for every machine that may arrive at the rest of it.
  induction h generalizing s with
  | @stop a e hi =>
      have hzero : a + UInt64.ofNat 0 = a := UInt64.add_zero a
      refine .runsOut rfl ?_
      rw [Run.size, List.map_nil, List.sum_nil, hzero]
      rfl
  | @last a i hi hs =>
      have ha := Revision.address_of_decodeAt hi
      rw [List.flatMap_singleton]
      -- Only a branch or a return ends a run.
      unfold Instruction.flow at hs
      cases hcat : i.category with
      | unconditionalBranch =>
          -- The definition was accepted, so the branch has an immediate.
          have ht := Revision.branchTarget?_of_decode hr hi hcat
          have hrun := Revision.run_code_of_branch hcat ht s
          rw [hrun]
          refine .branches rfl hcat ht (steps_one_of_step ?_)
          rw [step_of_decodeAt hi, hrun]
      | ret =>
          rw [Revision.run_code_of_ret hcat s]
          refine .returns (i := i) (k := 0) rfl hcat rfl ?_
          rw [ha]
          rfl
      | _ =>
          rw [hcat] at hs
          contradiction
  | @step a i rest hi hs _ ih =>
      -- The first instruction runs on into the rest, and the interpreter steps there.
      have hflow := Flow.eq_normal_of_staysInBlock hs
      have ha := Revision.address_of_decodeAt hi
      rcases Revision.run_code_of_normal (r := r) hflow s with ⟨v, hv⟩
      have hstep : step r m ⟨i.address, s⟩ = some ⟨i.next, v⟩ := by
        rw [step_of_decodeAt (s := ⟨i.address, s⟩) (ha.symm ▸ hi), hv]
      rw [List.flatMap_cons, Machine.run_append, hv, ← ha]
      exact .cons hstep (ih v)

end Interpreter

end StackLift
