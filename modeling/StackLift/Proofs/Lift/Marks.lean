import StackLift.Proofs.Block
import StackLift.Proofs.Lift.Block

/-!
# Marks Made by Hand

What a block is lifted to if its marks are not those of a listing.

Anything can be marked: operand bytes, two instructions that overlap, addresses outside of
the image, and that in any order. A block keeps the marks within it as a set of offsets, and
lifting goes through them from the smallest to the greatest. The addresses need not increase
on the way, since a block may lie across the end of the address space. So the code comes in
the order of the offsets, and if there is no instruction at several of the marks, the one
with the smallest offset is reported.

Every mark is decoded by itself, which is why nothing else is to be said about marks that
overlap.

## Main definitions

* `Revision.statementsAt`: The code of the instruction at an address, lifted by itself.

## Theorems

* `exists_code_of_liftBlock`: The code of a block by its marks.
* `exists_liftBlock_iff`: Whether a block has code.
* `exists_offset_of_liftBlock`: The mark at fault.
* `liftBlock_markAll`: The code of a block with arbitrary marks.
-/

namespace StackLift

namespace Revision

variable {r : Revision} {m : Image} {a : UInt64}

/-- The code of the instruction at an address of an image, lifted by itself. -/
def statementsAt (r : Revision) (m : Image) (a : UInt64) : Except DecodeError (List Statement) :=
  let (outcome, c) := (r.liftAt a (m.window a r.maxLength) : Recorder _).run {}
  outcome.map fun _ => c.statements

theorem statementsAt_eq (r : Revision) (m : Image) (a : UInt64) :
    r.statementsAt m a = (r.decodeAt m a).map r.code := by
  unfold statementsAt liftAt decodeAt
  cases r.decode a (m.window a r.maxLength) with
  | error e => rfl
  | ok i => exact congrArg Except.ok (statements_lift r i)

theorem toList_entries_of_mapM {as : List UInt64} {is : List Instruction}
    {code : UInt64 → List Statement} (his : as.mapM (r.decodeAt m) = .ok is)
    (hcode : ∀ a i, r.decodeAt m a = .ok i → code a = r.code i) :
    (r.recording is).entries.toList = as.flatMap fun a => (code a).map (a, ·) := by
  rw [toList_entries_recording]
  induction as generalizing is with
  | nil =>
      cases his
      rfl
  | cons a as ih =>
      rw [List.mapM_cons] at his
      rcases bind_eq_ok_iff.mp his with ⟨i, hi, his⟩
      rcases bind_eq_ok_iff.mp his with ⟨js, hjs, his⟩
      cases his
      rw [List.flatMap_cons, List.flatMap_cons, ih hjs, hcode a i hi, address_of_decodeAt hi]

/-- The code of a block is that of its marks, each lifted by itself and under its address. -/
theorem exists_code_of_liftBlock {b : Block} {c : Recording} (h : r.liftBlock m b = .ok c) :
    ∃ code : UInt64 → List Statement, (∀ a ∈ b.addresses, r.statementsAt m a = .ok (code a)) ∧
      c.entries.toList = b.addresses.flatMap fun a => (code a).map (a, ·) := by
  rcases liftBlock_eq_ok_iff.mp h with ⟨is, his, rfl⟩
  have hcode (a : UInt64) (i : Instruction) (hi : r.decodeAt m a = .ok i) :
      (r.statementsAt m a).toOption.getD [] = r.code i := by
    rw [statementsAt_eq, hi]
    rfl
  refine ⟨_, fun a ha => ?_, toList_entries_of_mapM his hcode⟩
  rcases exists_of_mapM_eq_ok his a ha with ⟨i, hi⟩
  simp only [hcode a i hi]
  rw [statementsAt_eq, hi]
  rfl

theorem exists_liftBlock_iff (r : Revision) (m : Image) (b : Block) :
    (∃ c, r.liftBlock m b = .ok c) ↔ ∀ a ∈ b.addresses, ∃ i, r.decodeAt m a = .ok i := by
  cases hc : r.liftBlock m b with
  | ok c =>
      rcases liftBlock_eq_ok_iff.mp hc with ⟨is, his, _⟩
      exact iff_of_true ⟨c, rfl⟩ (exists_of_mapM_eq_ok his)
  | error e =>
      rcases exists_of_mapM_eq_error (liftBlock_eq_error_iff.mp hc) with ⟨a, ha, he⟩
      refine iff_of_false (fun ⟨c, hc⟩ => ?_) (fun h => ?_)
      · contradiction
      · rcases h a ha with ⟨i, hi⟩
        rw [hi] at he
        contradiction

/-- Where a block is not lifted, the mark with the smallest offset among those without an
    instruction is at fault. -/
theorem exists_offset_of_liftBlock {b : Block} {e : DecodeError}
    (h : r.liftBlock m b = .error e) : ∃ o ∈ b.offsets, r.decodeAt m (b.start + o) = .error e ∧
      ∀ p ∈ b.offsets, p < o → ∃ i, r.decodeAt m (b.start + p) = .ok i := by
  -- The marks that are decoded without fault are those with smaller offsets.
  rcases split_of_mapM_eq_error (liftBlock_eq_error_iff.mp h) with
    ⟨before, a, behind, hsplit, hbefore, ha⟩
  rcases Block.split_addresses hsplit with ⟨o, ho, rfl, hsmaller⟩
  exact ⟨o, ho, ha, fun p hp hlt => hbefore _ (hsmaller p hp hlt)⟩

/-- A block with arbitrary marks has code just if there is an instruction at each mark within
    it. The code is that of these instructions, each lifted by itself and once, in the order
    of their offsets and under their addresses. Otherwise the error is that at the smallest
    offset where there is none. All of this depends on which offsets within the block are
    marked, and not on the order or the number of marks. -/
theorem liftBlock_markAll (r : Revision) (m : Image) (start length : UInt64) (os : List UInt64) :
    let b : Block := { start, length : Block }.markAll os
    ((∃ c, r.liftBlock m b = .ok c) ↔
      ∀ o ∈ os, o < length → ∃ i, r.decodeAt m (start + o) = .ok i) ∧
    (∀ c, r.liftBlock m b = .ok c → ∃ (ps : List UInt64) (code : UInt64 → List Statement),
      ps.Pairwise (· < ·) ∧ (∀ o, o ∈ ps ↔ o ∈ os ∧ o < length) ∧
      (∀ o ∈ ps, r.statementsAt m (start + o) = .ok (code (start + o))) ∧
      c.entries.toList = ps.flatMap fun o => (code (start + o)).map (start + o, ·)) ∧
    (∀ e, r.liftBlock m b = .error e → ∃ o ∈ os, o < length ∧
      r.decodeAt m (start + o) = .error e ∧
      ∀ p ∈ os, p < o → ∃ i, r.decodeAt m (start + p) = .ok i) ∧
    ∀ os', (∀ o < length, o ∈ os ↔ o ∈ os') →
      r.liftBlock m ({ start, length : Block }.markAll os') = r.liftBlock m b := by
  intro b
  have hstart : b.start = start := Block.start_markAll _ os
  have hmem (o : UInt64) : o ∈ b.offsets ↔ o ∈ os ∧ o < length := by
    rw [Block.mem_offsets_markAll]
    simp only [Std.ExtTreeSet.not_mem_empty, false_or]
  have haddresses : b.addresses = b.offsets.toList.map (start + ·) := by
    rw [Block.addresses, hstart]
  refine ⟨?_, fun c hc => ?_, fun e he => ?_, fun os' h => ?_⟩
  · rw [exists_liftBlock_iff, haddresses]
    simp only [List.forall_mem_map, Std.ExtTreeSet.mem_toList, hmem, and_imp]
  · rcases exists_code_of_liftBlock hc with ⟨code, hcode, hentries⟩
    rw [haddresses] at hcode hentries
    refine ⟨b.offsets.toList, code, b.pairwise_offsets, fun o => ?_, fun o ho => ?_, ?_⟩
    · rw [Std.ExtTreeSet.mem_toList, hmem]
    · exact hcode (start + o) (List.mem_map_of_mem ho)
    · rw [hentries, List.flatMap_map]
  · rcases exists_offset_of_liftBlock he with ⟨o, ho, hfault, hsmaller⟩
    rw [hstart] at hfault
    refine ⟨o, ((hmem o).mp ho).1, ((hmem o).mp ho).2, hfault, fun p hp hlt => ?_⟩
    rw [← hstart]
    exact hsmaller p ((hmem p).mpr ⟨hp, UInt64.lt_trans hlt ((hmem o).mp ho).2⟩) hlt
  · rw [← Block.markAll_eq_of_mem_iff h]

end Revision

end StackLift
