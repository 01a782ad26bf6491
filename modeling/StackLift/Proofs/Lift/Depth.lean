import StackLift.Proofs.Lift.Control
import StackLift.Proofs.Lift.Registers
import StackLift.Proofs.Machine.Depth

/-!
# Stack Depth of Lifted Code

Three accounts of how far an instruction moves the stack pointer, which are the same.

An opcode has a category, and a category a stack effect, which is a number in a table.
The code of the instruction has a stack effect of its own: what its statements put onto
the stack, less the pops that stand somewhere in their expressions. And a machine that
runs the code moves its stack pointer, wherever that stood before. The first two agree by
going through the categories, where the holders of an order-sensitive operator matter: two
statements pop and a third one pushes. The third follows for any code that moves whole
slots and leaves the stack pointer alone otherwise, which lifted code does, since it puts
values into the operand holders only.

For a block all three are sums, and the code of a block is executed to its end.

## Theorems

* `sum_stackEffect_code`: The code of an instruction has the stack effect of its
  category.
* `movesSlots_of_mem_code`: Lifted code moves whole slots.
* `stackEffect_recording`: The stack effect of instructions one after the other.
* `stackEffect_liftBlock_listing`: The stack effect of the block of a listing.
-/

namespace StackLift

theorem Recording.stackEffect_eq_sum (c : Recording) :
    c.stackEffect = (c.statements.map Statement.stackEffect).sum := by
  rw [stackEffect, List.sum_eq_foldr, List.foldr_map]

namespace Revision

variable {r : Revision} {image : Image} {a : UInt64} {i : Instruction} {s : Statement}

theorem sum_stackEffect_code (r : Revision) (i : Instruction) :
    ((r.code i).map Statement.stackEffect).sum = i.category.stackEffect := by
  unfold code
  cases i.category with
  | stackBinaryOp op =>
      by_cases hop : op.isOrderSensitive = true
      · simp only [hop, if_true]
        rfl
      · simp only [hop, Bool.false_eq_true, if_false]
        rfl
  | unconditionalBranch =>
      -- A branch without a target would do nothing, which has the same effect.
      cases r.branchTarget? i with
      | none => rfl
      | some t => rfl
  | _ => rfl

/-- All that the code of an instruction moves to and from the stack is a slot wide. -/
theorem stackWidths_code (r : Revision) (i : Instruction) :
    ∃ k, (r.code i).flatMap Statement.stackWidths = List.replicate k 8 := by
  unfold code
  cases i.category with
  | nop => exact ⟨0, rfl⟩
  | stackPush => exact ⟨1, rfl⟩
  | registerRelativeAddress base => exact ⟨1, rfl⟩
  | stackBinaryOp op =>
      -- Two values are popped and one is pushed, through the operand holders or not.
      refine ⟨3, ?_⟩
      by_cases hop : op.isOrderSensitive = true
      · simp only [hop, if_true]
        rfl
      · simp only [hop, Bool.false_eq_true, if_false]
        rfl
  | memoryRead => exact ⟨2, rfl⟩
  | memoryWrite => exact ⟨2, rfl⟩
  | unconditionalBranch =>
      refine ⟨0, ?_⟩
      cases r.branchTarget? i with
      | none => rfl
      | some t => rfl
  | ret => exact ⟨0, rfl⟩

/-- Lifted code moves whole slots and puts nothing into the stack pointer. -/
theorem movesSlots_of_mem_code (hs : s ∈ r.code i) : s.MovesSlots .vsp := by
  refine ⟨fun w hw => ?_, fun hc => ?_⟩
  · rcases stackWidths_code r i with ⟨k, hk⟩
    have hmem : w ∈ List.replicate k 8 := hk ▸ List.mem_flatMap.mpr ⟨s, hs, hw⟩
    exact List.eq_of_mem_replicate hmem
  · rcases assigned?_of_mem_code hs hc with h | h <;> contradiction

theorem stackEffect_recording (r : Revision) (is : List Instruction) :
    (r.recording is).stackEffect = (is.map (·.category.stackEffect)).sum := by
  rw [Recording.stackEffect_eq_sum, statements_recording]
  induction is with
  | nil => rfl
  | cons i is ih =>
      rw [List.flatMap_cons, List.map_append, List.sum_append, ih, sum_stackEffect_code,
        List.map_cons, List.sum_cons]

/-- The block of a listing has code, and three accounts of its stack depth agree: the sum
    of the stack effects over the categories of the instructions that its lines show, the
    stack effect of the code, and how far the stack pointer of a machine has moved once it
    has run the code. -/
theorem stackEffect_liftBlock_listing (r : Revision) (image : Image) (a : UInt64) (m : Machine)
    (hm : m.stackPointer = .vsp) :
    let l := r.listing image a
    ∃ is c, (l.lines.map Line.address).mapM (r.decodeAt image) = .ok is ∧
      r.liftBlock image l.block = .ok c ∧
      c.stackEffect = (is.map (·.category.stackEffect)).sum ∧
      (((Machine.run c.statements m).2.get .vsp).toNat : Int) =
        ((m.get .vsp).toNat - 8 * c.stackEffect) % 2 ^ 64 := by
  intro l
  have hwalk := walk_straightLine r image a
  have hlines : (l.lines.map Line.address).mapM (r.decodeAt image) =
      .ok (r.straightLine image a).instructions := by
    rw [map_address_lines]
    exact mapM_map_eq_ok fun i hi => hwalk.decodeAt_of_mem hi
  refine ⟨_, _, hlines, liftBlock_listing r image a, stackEffect_recording r _, ?_⟩
  have hslots : ∀ s ∈ (r.straightLine image a).instructions.flatMap r.code,
      s.MovesSlots m.stackPointer := by
    intro s hs
    rcases List.mem_flatMap.mp hs with ⟨i, _, hs⟩
    rw [hm]
    exact movesSlots_of_mem_code hs
  -- All of the code is executed, so none of its effect is left out.
  have hgrows := Machine.grows_run hslots
  rw [executed_code_walk hwalk, ← statements_recording,
    ← Recording.stackEffect_eq_sum] at hgrows
  rw [← hm]
  exact hgrows.toNat_get

/-- A store and a difference off a stack that lies across the end of the address space. -/
theorem stackEffect_liftBlock_listing_store : ∃ r,
    ofDefinition BuiltinRevision.tigress3.definition = .ok r ∧
    (Machine.start .vsp 0xfffffffffffffffc).stackPointer = .vsp ∧
    let image : Image := ⟨0, #[0xdf, 0x42, 0xb3], by decide⟩
    let m := Machine.start .vsp 0xfffffffffffffffc
    let l := r.listing image 0
    ∃ is c, (l.lines.map Line.address).mapM (r.decodeAt image) = .ok is ∧
      r.liftBlock image l.block = .ok c ∧
      c.stackEffect = (is.map (·.category.stackEffect)).sum ∧
      (((Machine.run c.statements m).2.get .vsp).toNat : Int) =
        ((m.get .vsp).toNat - 8 * c.stackEffect) % 2 ^ 64 := by
  rcases BuiltinRevision.exists_revision .tigress3 with ⟨r, hr⟩
  exact ⟨r, hr, rfl, stackEffect_liftBlock_listing r _ 0 _ rfl⟩

end Revision

end StackLift
