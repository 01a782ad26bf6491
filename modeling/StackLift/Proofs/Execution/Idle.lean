import StackLift.Proofs.Execution.CodeMap
import StackLift.Proofs.Lift.Control

/-!
# Idle Executions

An execution that has nothing to execute and goes on all the same.

Execution is meant to end where there is no code. It asks the map of lifted blocks, and
that has an entry wherever the scan has been. The scan has been at every entry point and
at every static target in the image, whether or not an instruction can be decoded there.
Where none can, the block is empty: its code does nothing and its end is its start. So
such an execution does not end. It takes the empty block again and again until the bound
is reached, and then says that it was stopped after so many blocks. At an address that
the scan has not been at, for one because control got there by falling through, the same
situation ends the execution at once.

There is no way out of an empty block, so an execution is busy first and idle then. As
long as it is busy, each of its steps executes at least one statement.

## Main definitions

* `Execution.performed`: The statements that each step of an execution executes.

## Theorems

* `executed_liftedBlock_eq_nil_iff`: The code of a block is empty just where nothing can
  be decoded.
* `advance_of_undecodable`: An empty block leads back to itself.
* `run_of_not_mem`, `run_of_mem`: An execution that gets to where nothing can be decoded.
* `run_busy_then_idle`: An execution is busy first and idle then.
-/

namespace StackLift

namespace Execution

/-- The statements that each step of an execution executes. A step that finds no block
    is not one. -/
def performed (code : UInt64 → Option LiftedBlock) : Nat → State → List (List Statement)
  | 0, _ => []
  | limit + 1, s => match code s.position with
    | none => []
    | some b => Machine.executed b.code.statements s.machine :: match advance code s with
      | (_, some _) => []
      | (t, none) => performed code limit t

variable {r : Revision} {m : Image} {entries : List UInt64} {s t : State}

/-- A block executes all its code, and that is nothing just where nothing can be
    decoded. -/
theorem executed_liftedBlock_eq_nil_iff (r : Revision) (m : Image) (a : UInt64) (n : Machine) :
    Machine.executed (r.liftedBlock m a).code.statements n = [] ↔ r.Undecodable m a := by
  have hwalk := Revision.walk_straightLine r m a
  rw [Revision.statements_liftedBlock, Revision.executed_code_walk hwalk,
    Revision.undecodable_iff, ← hwalk.instructions_eq_nil_iff, List.flatMap_eq_nil_iff]
  constructor
  · intro h
    -- The code of an instruction is never empty, so there is none.
    rw [List.eq_nil_iff_forall_not_mem]
    intro i hi
    exact Revision.code_ne_nil r i (h i hi)
  · intro h i hi
    rw [h] at hi
    contradiction

theorem advance_of_undecodable (hs : r.Undecodable m s.position)
    (hmem : s.position ∈ r.scan m entries) :
    advance ((codeMap (r.liftListings m (r.scan m entries)))[·]?) s = (s, none) := by
  have hcode := Revision.getElem?_codeMap_of_mem hmem
  have hwalk := Revision.walk_straightLine r m s.position
  have hnil : (r.straightLine m s.position).instructions = [] :=
    hwalk.instructions_eq_nil_iff.mpr (Revision.undecodable_iff.mp hs)
  have hstatements : (r.liftedBlock m s.position).code.statements = [] := by
    rw [Revision.statements_liftedBlock, hnil]
    rfl
  have hfinish : (r.liftedBlock m s.position).block.finish = s.position := by
    have h := Revision.finish_listing r m s.position
    rw [Run.size, hnil] at h
    exact h.trans (UInt64.add_zero _)
  simp only [advance, hcode, hstatements, Machine.run, hfinish]

/-- An execution ends where the scan has not been. -/
theorem run_of_not_mem (hmem : s.position ∉ r.scan m entries) (limit : Nat) :
    let code : UInt64 → Option LiftedBlock := ((codeMap (r.liftListings m (r.scan m entries)))[·]?)
    run code (limit + 1) s = (s, .noCode s.position) ∧ performed code (limit + 1) s = [] := by
  intro code
  have hcode : code s.position = none := Revision.getElem?_codeMap_of_not_mem hmem
  simp only [run, performed, advance, hcode]
  exact ⟨trivial, trivial⟩

/-- An execution takes all the steps it has left where the scan has been and nothing can be
    decoded, and does nothing. -/
theorem run_of_mem (hs : r.Undecodable m s.position) (hmem : s.position ∈ r.scan m entries)
    (limit : Nat) :
    let code : UInt64 → Option LiftedBlock := ((codeMap (r.liftListings m (r.scan m entries)))[·]?)
    run code limit s = (s, .stopped s.position) ∧
      performed code limit s = List.replicate limit [] := by
  intro code
  have hcode : code s.position = some (r.liftedBlock m s.position) :=
    Revision.getElem?_codeMap_of_mem hmem
  have hadvance : advance code s = (s, none) := advance_of_undecodable hs hmem
  have hnothing := (executed_liftedBlock_eq_nil_iff r m s.position s.machine).mpr hs
  -- Each step leads back to where it was, so the next one is no different.
  induction limit with
  | zero => exact ⟨rfl, rfl⟩
  | succ limit ih =>
      rw [run, performed, hadvance, hcode]
      simp only [ih.1, ih.2, hnothing]
      exact ⟨trivial, rfl⟩

/-- A step at an address where there is an instruction. It executes something, and if there
    is no next step, that is because it has returned. -/
theorem run_of_decodable (hs : ¬r.Undecodable m s.position)
    (hmem : s.position ∈ r.scan m entries) (limit : Nat) :
    let code : UInt64 → Option LiftedBlock := ((codeMap (r.liftListings m (r.scan m entries)))[·]?)
    ∃ ss, ss ≠ [] ∧
      ((∃ t, run code (limit + 1) s = run code limit t ∧
          performed code (limit + 1) s = ss :: performed code limit t) ∨
        (∃ t, run code (limit + 1) s = (t, .returned s.position) ∧
          performed code (limit + 1) s = [ss])) := by
  intro code
  have hcode : code s.position = some (r.liftedBlock m s.position) :=
    Revision.getElem?_codeMap_of_mem hmem
  refine ⟨_, mt (executed_liftedBlock_eq_nil_iff r m s.position s.machine).mp hs, ?_⟩
  simp only [run, performed, advance, hcode]
  rcases Machine.run (r.liftedBlock m s.position).code.statements s.machine with ⟨c, n⟩
  cases c with
  | proceed => exact Or.inl ⟨_, rfl, rfl⟩
  | jump a => exact Or.inl ⟨_, rfl, rfl⟩
  | ret => exact Or.inr ⟨_, rfl, rfl⟩

/-- An execution is busy first and idle then. Each step executes something, until the
    execution gets to where the scan has been and nothing can be decoded. From there on no
    step does anything, and the execution takes all the steps there are. Anywhere else
    where nothing can be decoded, it ends. -/
theorem run_busy_then_idle (r : Revision) (m : Image) (entries : List UInt64) (limit : Nat)
    (s : State) :
    let code : UInt64 → Option LiftedBlock := ((codeMap (r.liftListings m (r.scan m entries)))[·]?)
    let out := run code limit s
    (∃ busy idle, performed code limit s = busy ++ List.replicate idle [] ∧
      (∀ ss ∈ busy, ss ≠ []) ∧
      (0 < idle → out.2 = .stopped out.1.position ∧ r.Undecodable m out.1.position ∧
        out.1.position ∈ r.scan m entries) ∧
      ∀ a, out.2 = .stopped a → busy.length + idle = limit) ∧
    ∀ t n, r.Undecodable m t.position → run code (n + 1) t =
      (t, if t.position ∈ r.scan m entries then .stopped t.position else .noCode t.position) := by
  intro code out
  refine ⟨?_, fun t n ht => ?_⟩
  · -- Along the bound, for every state that is arrived at.
    induction limit generalizing s with
    | zero =>
        refine ⟨[], 0, rfl, fun ss h => absurd h List.not_mem_nil, fun h => ?_, fun _ _ => rfl⟩
        exact absurd h (Nat.lt_irrefl 0)
    | succ limit ih =>
        by_cases hmem : s.position ∈ r.scan m entries
        · by_cases hs : r.Undecodable m s.position
          · -- Nothing is done from here on.
            rcases run_of_mem hs hmem (limit + 1) with ⟨hrun, hperformed⟩
            have hout : out = (s, .stopped s.position) := hrun
            refine ⟨[], limit + 1, hperformed, fun ss h => absurd h List.not_mem_nil, ?_, ?_⟩
            · intro _
              rw [hout]
              exact ⟨rfl, hs, hmem⟩
            · intro a _
              exact Nat.zero_add (limit + 1)
          · rcases run_of_decodable hs hmem limit with
              ⟨ss, hss, ⟨t, hrun, hperformed⟩ | ⟨t, hrun, hperformed⟩⟩
            · -- One step that is busy, in front of those that follow.
              rcases ih t with ⟨busy, idle, hsplit, hbusy, hidle, hstopped⟩
              have hout : out = run code limit t := hrun
              refine ⟨ss :: busy, idle, ?_, List.forall_mem_cons.mpr ⟨hss, hbusy⟩, ?_, ?_⟩
              · rw [hperformed, hsplit]
                rfl
              · rw [hout]
                exact hidle
              · intro a ha
                rw [hout] at ha
                have hlength := hstopped a ha
                rw [List.length_cons]
                omega
            · -- One step that is busy and returns.
              have hout : out = (t, .returned s.position) := hrun
              refine ⟨[ss], 0, hperformed, List.forall_mem_singleton.mpr hss, ?_, ?_⟩
              · intro h
                exact absurd h (Nat.lt_irrefl 0)
              · intro a ha
                rw [hout] at ha
                contradiction
        · rcases run_of_not_mem hmem limit with ⟨hrun, hperformed⟩
          have hout : out = (s, .noCode s.position) := hrun
          refine ⟨[], 0, hperformed, fun ss h => absurd h List.not_mem_nil, ?_, ?_⟩
          · intro h
            exact absurd h (Nat.lt_irrefl 0)
          · intro a ha
            rw [hout] at ha
            contradiction
  · by_cases hmem : t.position ∈ r.scan m entries
    · rw [if_pos hmem]
      exact (run_of_mem ht hmem (n + 1)).1
    · rw [if_neg hmem]
      exact (run_of_not_mem hmem n).1

/-- An image without an instruction. Execution starts there with a thousand steps, takes all
    of them, and does nothing. -/
theorem run_idle_from_entry : ∃ r,
    Revision.ofDefinition BuiltinRevision.tigress2.definition = .ok r ∧
    let m : Image := ⟨0, #[0xff], by decide⟩
    let code : UInt64 → Option LiftedBlock := ((codeMap (r.liftListings m (r.scan m [0])))[·]?)
    let start : State := ⟨0, .start r.registers.stackPointer 0x7fff0000⟩
    r.Undecodable m start.position ∧ (run code 1000 start).2 ≠ .noCode 0 ∧
      run code 1000 start = (start, .stopped 0) ∧
      performed code 1000 start = List.replicate 1000 [] := by
  rcases BuiltinRevision.exists_revision .tigress2 with ⟨r, hr⟩
  refine ⟨r, hr, ?_⟩
  intro m code start
  have hlookup : r.opcodes.lookup? 0xff = none := by
    rw [Revision.lookup?_eq_entryOf? hr]
    decide
  have hbyte : m.retrieve? 0 1 = some [0xff] := by decide
  have hs : r.Undecodable m start.position := by
    refine Or.inr ⟨0xff, hbyte, ?_⟩
    rw [hlookup]
    trivial
  have hmem : start.position ∈ r.scan m [0] :=
    (Revision.mem_scan_iff 0).mpr (.entry (List.mem_singleton_self 0))
  rcases run_of_mem hs hmem 1000 with ⟨hrun, hperformed⟩
  refine ⟨hs, ?_, hrun, hperformed⟩
  rw [hrun]
  simp only [ne_eq, reduceCtorEq, not_false_eq_true]

end Execution

end StackLift
