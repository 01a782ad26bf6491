import StackLift.Proofs.Execution.Interpreter
import StackLift.Proofs.Listing.Scan

/-!
# Control Flow and Code

What a listing says about the flow of control is what its code does.

The bytes of a block are reduced twice. A listing keeps the flow of the last
instruction and the edges that leave the block, and never looks at a statement. The
code is made afterwards, by decoding once more at each marked address, and says
nothing about edges. `Listing.control?` reads off the listing how control is passed
on, and running the code comes to that, on every machine. It takes an accepted
definition: there a branch always has an immediate, so that its edge has a target
and its code is a jump and not the statement that does nothing.

## Main definitions

* `Listing.control?`: How a listing says that control is passed on.
* `Revision.ResolvesBranches`: Every branch has a target, in its edge and in its
  code.

## Theorems

* `eraseDups_flatMap_replicate`: The values of a list of stretches, each once.
* `map_fst_entries_recording`: Each instruction's address, once for every statement.
* `executed_code_walk`: The code of a walk is executed to its end.
* `resolvesBranches`: A definition that is accepted resolves its branches.
* `run_liftBlock_listing`: A listing and its code agree on the flow of control.
-/

namespace StackLift

/-- How a listing says that control is passed on: to the one target that its edges
    name, out of the procedure, or not at all. -/
def Listing.control? (l : Listing) : Option Control :=
  match l.exit, l.targets with
  | some (.branching false), [t] => some (.jump t)
  | some .returning, [] => some .ret
  | some .normal, [] => some .proceed
  | none, [] => some .proceed
  | _, _ => none

/-- A list made of stretches of equal values, none of them empty and no two of the
    same value, has these values in the order of the stretches. -/
theorem eraseDups_flatMap_replicate {α β : Type} [BEq β] [LawfulBEq β] {f : α → β} {n : α → Nat}
    {xs : List α} (hn : ∀ x ∈ xs, n x ≠ 0) (hf : (xs.map f).Nodup) :
    (xs.flatMap fun x => List.replicate (n x) (f x)).eraseDups = xs.map f := by
  induction xs with
  | nil => rfl
  | cons x xs ih =>
      rcases Nat.exists_eq_succ_of_ne_zero (hn x List.mem_cons_self) with ⟨k, hk⟩
      rw [List.map_cons, List.nodup_cons] at hf
      -- Behind the first value its stretch is dropped, and the others do not have it.
      have hfirst : (List.replicate k (f x)).filter (fun y => !y == f x) = [] := by
        rw [List.filter_replicate, if_neg (by simp only [beq_self_eq_true, Bool.not_true,
          Bool.false_eq_true, not_false_eq_true])]
      have hrest : ∀ y ∈ xs.flatMap fun x => List.replicate (n x) (f x), (!y == f x) = true := by
        intro y hy
        rcases List.mem_flatMap.mp hy with ⟨z, hz, hy⟩
        rw [List.eq_of_mem_replicate hy, Bool.not_eq_true', beq_eq_false_iff_ne]
        intro hc
        exact hf.1 (hc ▸ List.mem_map_of_mem hz)
      rw [List.flatMap_cons, hk, List.replicate_succ, List.cons_append, List.eraseDups_cons,
        List.filter_append, hfirst, List.filter_eq_self.mpr hrest, List.nil_append, List.map_cons,
        ih (fun z hz => hn z (List.mem_cons_of_mem x hz)) hf.2]

namespace Revision

/-- Every branch that can be decoded has a target. It is that of the one edge which
    leaves the branch, and the one statement that is recorded for it jumps there. -/
def ResolvesBranches (r : Revision) : Prop :=
  ∀ address window i, r.decode address window = .ok i → i.category = .unconditionalBranch →
    ∃ t, r.references i = [⟨address, some t, .branch⟩] ∧
      ((r.lift i : Recorder Unit).run {}).2.statements = [.jump (.const 8 t)]

variable {d : Definition} {r : Revision} {m : Image} {a : UInt64} {i : Instruction} {run : Run}

theorem code_ne_nil (r : Revision) (i : Instruction) : r.code i ≠ [] := by
  unfold code
  split
  · exact List.cons_ne_nil _ _
  · exact List.cons_ne_nil _ _
  · exact List.cons_ne_nil _ _
  · split <;> exact List.cons_ne_nil _ _
  · exact List.cons_ne_nil _ _
  · exact List.cons_ne_nil _ _
  · split <;> exact List.cons_ne_nil _ _
  · exact List.cons_ne_nil _ _

/-- A recording has the address of each instruction once for every statement. -/
theorem map_fst_entries_recording (r : Revision) (is : List Instruction) :
    (r.recording is).entries.toList.map Prod.fst =
      is.flatMap fun i => List.replicate (r.code i).length i.address := by
  rw [toList_entries_recording, List.map_flatMap]
  refine List.flatMap_congr fun i _ => ?_
  rw [List.map_map]
  exact List.map_const ..

/-- The code of a walk is executed to its end. -/
theorem executed_code_walk (h : Walk r m a run) (s : Machine) :
    Machine.executed (run.instructions.flatMap r.code) s = run.instructions.flatMap r.code := by
  -- Along the walk, for every machine that may arrive at the rest of it.
  induction h generalizing s with
  | stop _ => rfl
  | @last _ i _ _ =>
      rw [List.flatMap_singleton]
      exact executed_code r i s
  | step _ hs _ ih =>
      rcases run_code_of_normal (r := r) (Flow.eq_normal_of_staysInBlock hs) s with ⟨n, hn⟩
      rw [List.flatMap_cons, Machine.executed_append hn, ih n]

/-- A definition that is accepted resolves its branches. -/
theorem resolvesBranches (hr : ofDefinition d = .ok r) : r.ResolvesBranches := by
  intro address window i hi hcat
  have htarget : ∃ t, r.branchTarget? i = some t := ⟨_, branchTarget?_of_decode hr hi hcat⟩
  rcases htarget with ⟨t, ht⟩
  refine ⟨t, ?_, ?_⟩
  · rw [references, hcat, ht, address_of_decode hi]
  · rw [statements_lift, code, hcat, ht]

/-- Running the code of a walk passes control on as its listing says. -/
theorem control?_listing (hr : ofDefinition d = .ok r) (m : Image) (a : UInt64) (s : Machine) :
    (r.listing m a).control? =
      some (Machine.run ((r.straightLine m a).instructions.flatMap r.code) s).1 := by
  have hpasses := Interpreter.passesOn_run hr (walk_straightLine r m a) s
  rcases hrun : Machine.run ((r.straightLine m a).instructions.flatMap r.code) s with ⟨c, n⟩
  rw [hrun] at hpasses
  unfold Listing.control? Listing.targets
  cases hpasses with
  | runsOut he _ =>
      rcases runsOut_of_error_eq_some he with ⟨_, _, _, hrefs, hexit, _⟩
      rw [hrefs, hexit]
      by_cases hnil : (r.listing m a).lines = []
      · rw [if_pos hnil]
        rfl
      · rw [if_neg hnil]
        rfl
  | @branches i t _ hi hcat ht _ =>
      rw [exit_listing, references_of_getLast? hi, hi, Option.map_some, Instruction.flow,
        references, hcat, ht]
      rfl
  | @returns i _ _ hi hcat _ _ =>
      rw [exit_listing, references_of_getLast? hi, hi, Option.map_some, Instruction.flow,
        references, hcat]
      rfl

/-- An edge of a listing that branches has a target. -/
theorem target?_of_mem_references (hr : ofDefinition d = .ok r) {e : Reference}
    (he : e ∈ (r.listing m a).references) (hkind : e.kind = .branch) : e.target? ≠ none := by
  rcases List.mem_flatMap.mp he with ⟨i, hi, he⟩
  have hdecode := (walk_straightLine r m a).decodeAt_of_mem hi
  cases hcat : i.category with
  | unconditionalBranch =>
      rcases resolvesBranches hr _ _ _ hdecode hcat with ⟨t, href, _⟩
      rw [href, List.mem_singleton] at he
      rw [he]
      exact Option.some_ne_none t
  | ret =>
      rw [references, hcat, List.mem_singleton] at he
      rw [he] at hkind
      contradiction
  | _ =>
      rw [references, hcat] at he
      contradiction

/-- A listing and the code of its block agree on the flow of control. The block has
    code, for each of the lines in their order. Every machine executes all of it, and
    then control is passed on as the listing says: to its one target, out of the
    procedure, or to what stands behind. No branch is without a target, neither in
    the listing nor in the code. -/
theorem run_liftBlock_listing (hr : ofDefinition d = .ok r) (m : Image) (a : UInt64) :
    let l := r.listing m a
    ∃ c, r.liftBlock m l.block = .ok c ∧
      (c.entries.toList.map Prod.fst).eraseDups = l.lines.map Line.address ∧
      (∀ s : Machine, Machine.executed c.statements s = c.statements ∧
        l.control? = some (Machine.run c.statements s).1) ∧
      (∀ e ∈ l.references, e.kind = .branch → e.target? ≠ none) ∧ r.ResolvesBranches := by
  intro l
  refine ⟨_, liftBlock_listing r m a, ?_, ?_, ?_, resolvesBranches hr⟩
  · -- The addresses of the lines are the marks of the block, which are all different.
    have hnodup := (r.listing m a).block.nodup_addresses
    rw [addresses_listing] at hnodup
    rw [map_fst_entries_recording, map_address_lines]
    refine eraseDups_flatMap_replicate ?_ hnodup
    intro i _
    exact mt List.eq_nil_of_length_eq_zero (code_ne_nil r i)
  · intro s
    rw [statements_recording]
    exact ⟨executed_code_walk (walk_straightLine r m a) s, control?_listing hr m a s⟩
  · intro e he hkind
    exact target?_of_mem_references hr he hkind

/-- A difference and a jump whose target lies behind the end of the address space. -/
theorem run_liftBlock_listing_wrapping : ∃ r,
    ofDefinition BuiltinRevision.tigress3.definition = .ok r ∧
    let m : Image := ⟨0xfffffffffffffffa, #[0x42, 0xf4, 0x05, 0x00, 0x00, 0x00], by decide⟩
    let l := r.listing m 0xfffffffffffffffa
    ∃ c, r.liftBlock m l.block = .ok c ∧
      (c.entries.toList.map Prod.fst).eraseDups = l.lines.map Line.address ∧
      (∀ s : Machine, Machine.executed c.statements s = c.statements ∧
        l.control? = some (Machine.run c.statements s).1) ∧
      (∀ e ∈ l.references, e.kind = .branch → e.target? ≠ none) ∧ r.ResolvesBranches := by
  rcases BuiltinRevision.exists_revision .tigress3 with ⟨r, hr⟩
  exact ⟨r, hr, run_liftBlock_listing hr _ _⟩

end Revision

end StackLift
