import StackLift.Proofs.Lift.Code
import StackLift.Proofs.Listing.Maximal
import StackLift.Proofs.Machine.Run

/-!
# The Code of a Block

A block is lifted to the code of its instructions, one after the other.

Lifting a block goes over its marks, decodes once more at each of them and may
fail there. For the block of a listing it does not: the marks are the addresses
of the instructions that were decoded when the listing was made. So a listing's
block always has code, and the code is that of the instructions of its walk.

How such code passes control on is settled by the last instruction. The code of
the others has no jump and no return in it, so each runs on into the next.

## Main definitions

* `Revision.recording`: The code of instructions one after the other.

## Theorems

* `liftBlock_eq_mapM`: Lifting a block is decoding its marks and lifting what they are.
* `liftBlock_eq_ok_iff`, `liftBlock_eq_error_iff`: Success and failure, one by one.
* `liftBlock_listing`: The block of a listing has the code of its instructions.
* `run_code_of_normal`, `run_code_of_branch`, `run_code_of_ret`: How the code of
  an instruction passes control on.
* `executed_code`: The code of an instruction is executed to its end.
-/

namespace StackLift

namespace Revision

variable {r : Revision} {m : Image}

/-- The code of instructions one after the other, each under its address. -/
def recording (r : Revision) (is : List Instruction) : Recording :=
  is.foldl (fun c i => (c.moveTo i.address).addAll (r.code i)) {}

theorem toList_entries_recording (r : Revision) (is : List Instruction) :
    (r.recording is).entries.toList = is.flatMap fun i => (r.code i).map (i.address, ·) := by
  -- For every recording that the code is added to.
  have hfold (c : Recording) :
      (is.foldl (fun c i => (c.moveTo i.address).addAll (r.code i)) c).entries.toList =
        c.entries.toList ++ is.flatMap fun i => (r.code i).map (i.address, ·) := by
    induction is generalizing c with
    | nil => rw [List.foldl_nil, List.flatMap_nil, List.append_nil]
    | cons i is ih =>
        rw [List.foldl_cons, ih, Recording.toList_entries_addAll, List.flatMap_cons,
          ← List.append_assoc]
        rfl
  exact hfold {}

theorem statements_recording (r : Revision) (is : List Instruction) :
    (r.recording is).statements = is.flatMap r.code := by
  rw [Recording.statements, toList_entries_recording, List.map_flatMap]
  refine List.flatMap_congr fun i _ => ?_
  rw [List.map_map]
  exact List.map_id (r.code i)

/-- Lifting a block is decoding at each of its marks and lifting the instructions that are
    found there. -/
theorem liftBlock_eq_mapM (r : Revision) (m : Image) (b : Block) :
    r.liftBlock m b = (b.addresses.mapM (r.decodeAt m)).map r.recording := by
  -- For every list of addresses, and every recording that the code is added to.
  have hfold (as : List UInt64) (c : Recording) : as.foldlM (r.record m) c =
      (as.mapM (r.decodeAt m)).map
        (·.foldl (fun c i => (c.moveTo i.address).addAll (r.code i)) c) := by
    induction as generalizing c with
    | nil => rfl
    | cons a as ih =>
        rw [List.foldlM_cons, List.mapM_cons, record_eq]
        cases hi : r.decodeAt m a with
        | error e => rfl
        | ok i =>
            refine (ih _).trans ?_
            rw [← address_of_decodeAt hi]
            cases as.mapM (r.decodeAt m) <;> rfl
  exact hfold b.addresses {}

theorem liftBlock_eq_ok_iff {b : Block} {c : Recording} : r.liftBlock m b = .ok c ↔
    ∃ is, b.addresses.mapM (r.decodeAt m) = .ok is ∧ r.recording is = c := by
  rw [liftBlock_eq_mapM]
  cases b.addresses.mapM (r.decodeAt m) with
  | error e => simp only [Except.map, reduceCtorEq, false_and, exists_false]
  | ok is => simp only [Except.map, Except.ok.injEq, exists_eq_left']

theorem liftBlock_eq_error_iff {b : Block} {e : DecodeError} :
    r.liftBlock m b = .error e ↔ b.addresses.mapM (r.decodeAt m) = .error e := by
  rw [liftBlock_eq_mapM]
  cases b.addresses.mapM (r.decodeAt m) with
  | error e' => simp only [Except.map, Except.error.injEq]
  | ok is => simp only [Except.map, reduceCtorEq]

/-- The block of a listing is lifted to the code of its instructions. -/
theorem liftBlock_listing (r : Revision) (m : Image) (a : UInt64) :
    r.liftBlock m (r.listing m a).block = .ok (r.recording (r.straightLine m a).instructions) := by
  -- The marks are the addresses of the walk, so decoding finds its instructions again.
  rw [liftBlock_eq_mapM, addresses_listing,
    mapM_map_eq_ok fun i hi => (walk_straightLine r m a).decodeAt_of_mem hi]
  rfl

section Instruction

variable {t : UInt64} {i : Instruction}

/-- The code of an instruction that stays in its block does not pass control on. -/
theorem run_code_of_normal (h : i.flow = .normal) (s : Machine) :
    ∃ n, Machine.run (r.code i) s = (.proceed, n) := by
  unfold Instruction.flow at h
  unfold code
  cases hcat : i.category with
  | unconditionalBranch =>
      rw [hcat] at h
      contradiction
  | ret =>
      rw [hcat] at h
      contradiction
  | stackBinaryOp op =>
      by_cases hop : op.isOrderSensitive = true
      · simp only [hop, if_true]
        exact ⟨_, rfl⟩
      · simp only [hop, Bool.false_eq_true, if_false]
        exact ⟨_, rfl⟩
  | _ => exact ⟨_, rfl⟩

/-- The code of an instruction is executed to its end. -/
theorem executed_code (r : Revision) (i : Instruction) (s : Machine) :
    Machine.executed (r.code i) s = r.code i := by
  by_cases h : i.flow = .normal
  · rcases run_code_of_normal (r := r) h s with ⟨n, hn⟩
    exact Machine.executed_of_proceed hn
  · -- What passes control on is lifted to a single statement.
    unfold Instruction.flow at h
    unfold code
    cases hcat : i.category with
    | unconditionalBranch =>
        cases r.branchTarget? i with
        | none => rfl
        | some t => rfl
    | ret => rfl
    | _ => exact absurd (by rw [hcat]) h

/-- The code of a branch jumps to its target and does nothing else. -/
theorem run_code_of_branch (hcat : i.category = .unconditionalBranch)
    (ht : r.branchTarget? i = some t) (s : Machine) :
    Machine.run (r.code i) s = (.jump t, s) := by
  have hmask : t &&& Word.mask 8 = t := Word.and_mask t
  simp only [code, hcat, ht, Machine.run, Machine.execute, Machine.eval, hmask]

/-- The code of a return leaves the procedure and does nothing else. -/
theorem run_code_of_ret (hcat : i.category = .ret) (s : Machine) :
    Machine.run (r.code i) s = (.ret, s) := by
  simp only [code, hcat, Machine.run, Machine.execute]

end Instruction

end Revision

end StackLift
