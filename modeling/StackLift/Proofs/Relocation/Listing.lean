import Mathlib.Data.List.Basic
import StackLift.Proofs.Lift.Code
import StackLift.Proofs.Listing.Walk
import StackLift.Proofs.Relocation.Basic

/-!
# Listings of Moved Code

What an image shows at moved addresses is what it showed before, moved.

The decoder looks at the bytes of its window. All it does with the address is to write it
down, in the instruction or in the error, so there decoding commutes with a move. From
here on an address takes part in two computations. The address behind an instruction is
one, and the target of a branch is the other, if the revision measures branches from
there; both only add to the address, which leaves room for the distance. An absolute
branch would lead to the same place as before, so branches are relative throughout.

A walk is moved step by step. There is one walk from an address only, so the moved walk is
the one of the moved image. Its listing needs the distances between the instructions of a
walk, and these have not changed.

## Theorems

* `decodeAt_shift`: Decoding in a moved image.
* `branchTarget?_shift`: A relative branch takes its target along.
* `references_shift`, `code_shift`: The edges and the code of a moved instruction.
* `straightLine_shift`: The walk from a moved address.
* `listing_shift`: The listing at a moved address.
-/

namespace StackLift

namespace Run

theorem getLast?_shift (δ : UInt64) (run : Run) :
    (run.shift δ).instructions.getLast? = run.instructions.getLast?.map (Instruction.shift δ) := by
  rw [shift, List.getLast?_map]

theorem finish_shift (δ a : UInt64) (run : Run) :
    ((run.shift δ).instructions.getLast?.map Instruction.next).getD (a + δ) =
      (run.instructions.getLast?.map Instruction.next).getD a + δ := by
  rw [getLast?_shift]
  cases run.instructions.getLast? with
  | none => rfl
  | some i => exact i.next_shift δ

theorem offsets_shift (δ a : UInt64) (run : Run) :
    (run.shift δ).instructions.map (·.address - (a + δ)) =
      run.instructions.map (·.address - a) := by
  rw [shift, List.map_map]
  refine List.map_congr_left fun i _ => ?_
  rw [Function.comp_apply, Instruction.shift, shift_sub_shift]

end Run

namespace Revision

variable {r : Revision} {δ a : UInt64} {m : Image} {i : Instruction} {run : Run}

theorem decode_shift (r : Revision) (δ a : UInt64) (window : List UInt8) :
    r.decode (a + δ) window =
      ((r.decode a window).map (Instruction.shift δ)).mapError (DecodeError.shift δ) := by
  -- The outcome is settled by the bytes, and the address is only written down in it.
  cases window with
  | nil => rfl
  | cons byte rest =>
      simp only [decode]
      cases r.opcodes.lookup? byte with
      | none => rfl
      | some o =>
          by_cases hrest : rest.length < o.width.bytes
          · simp only [hrest, if_true]
            rfl
          · simp only [hrest, if_false]
            rfl

section Fits

variable (hm : m.Fits) (hm' : (m.shift δ).Fits)
include hm hm'

theorem decodeAt_shift : r.decodeAt (m.shift δ) (a + δ) =
    ((r.decodeAt m a).map (Instruction.shift δ)).mapError (DecodeError.shift δ) := by
  rw [decodeAt, decodeAt, Image.window_shift hm hm', decode_shift]

theorem Walk.shift (h : Walk r m a run) : Walk r (m.shift δ) (a + δ) (run.shift δ) := by
  have hok {a : UInt64} {i : Instruction} (hi : r.decodeAt m a = .ok i) :
      r.decodeAt (m.shift δ) (a + δ) = .ok (i.shift δ) := by
    rw [decodeAt_shift hm hm', hi]
    rfl
  induction h with
  | @stop a e hi =>
      have herror : r.decodeAt (m.shift δ) (a + δ) = .error (e.shift δ) := by
        rw [decodeAt_shift hm hm', hi]
        rfl
      exact .stop herror
  | last hi hs => exact .last (hok hi) hs
  | step hi hs _ ih =>
      -- The walk goes on behind the moved instruction.
      rw [← Instruction.next_shift] at ih
      exact .step (hok hi) hs ih

theorem straightLine_shift :
    r.straightLine (m.shift δ) (a + δ) = (r.straightLine m a).shift δ :=
  (walk_straightLine r (m.shift δ) (a + δ)).eq_of_walk
    (Walk.shift hm hm' (walk_straightLine r m a))

end Fits

section Relative

variable (hmode : r.branchMode = .relativeToNextInstruction)
include hmode

theorem branchTarget?_shift (δ : UInt64) (i : Instruction) :
    r.branchTarget? (i.shift δ) = (r.branchTarget? i).map (· + δ) := by
  have hcategory : (i.shift δ).category = i.category := rfl
  have hoperand : (i.shift δ).operand? = i.operand? := rfl
  rw [branchTarget?, branchTarget?, hcategory, hoperand, hmode, Instruction.next_shift]
  by_cases h : i.category = .unconditionalBranch
  · -- The target is as far behind the branch as before, also around the address space.
    rw [if_pos h, if_pos h, Option.map_map]
    refine Option.map_congr fun operand _ => ?_
    rw [Function.comp_apply]
    ac_rfl
  · rw [if_neg h, if_neg h]
    rfl

theorem references_shift (δ : UInt64) (i : Instruction) :
    r.references (i.shift δ) = (r.references i).map (Reference.shift δ) := by
  have hcategory : (i.shift δ).category = i.category := rfl
  unfold references
  rw [hcategory, branchTarget?_shift hmode]
  cases i.category with
  | _ => rfl

/-- The code of an instruction names no address but the target of a branch. -/
theorem code_shift (δ : UInt64) (i : Instruction) :
    r.code (i.shift δ) = (r.code i).map (Statement.shift δ) := by
  have hcategory : (i.shift δ).category = i.category := rfl
  unfold code
  rw [hcategory, branchTarget?_shift hmode]
  cases i.category with
  | stackBinaryOp op =>
      by_cases hop : op.isOrderSensitive = true
      · simp only [hop, if_true]
        rfl
      · simp only [hop, Bool.false_eq_true, if_false]
        rfl
  | unconditionalBranch =>
      cases r.branchTarget? i with
      | none => rfl
      | some t => rfl
  | _ => rfl

/-- What a reader sees of a moved run is what a reader saw of the run, moved. -/
theorem ofRun_shift (δ a : UInt64) (run : Run) :
    Listing.ofRun r (a + δ) (run.shift δ) = (Listing.ofRun r a run).shift δ := by
  have hblock : (Listing.ofRun r (a + δ) (run.shift δ)).block =
      (Listing.ofRun r a run).block.shift δ := by
    simp only [Listing.ofRun, Run.finish_shift, Run.offsets_shift, shift_sub_shift,
      Block.shift_markAll]
    rfl
  have hlines : (Listing.ofRun r (a + δ) (run.shift δ)).lines =
      (Listing.ofRun r a run).lines.map (Line.shift δ) := by
    simp only [Listing.ofRun, Run.shift, List.map_map]
    refine List.map_congr_left fun i _ => ?_
    -- The line at the start is still the one with the label.
    by_cases hi : i.address = a
    · subst hi
      simp only [Function.comp_apply, Instruction.shift, if_true]
      rfl
    · have hi' : ¬i.address + δ = a + δ := fun h => hi ((UInt64.add_left_inj δ).mp h)
      simp only [Function.comp_apply, Instruction.shift, hi, hi', if_false]
      rfl
  have hreferences : (Listing.ofRun r (a + δ) (run.shift δ)).references =
      (Listing.ofRun r a run).references.map (Reference.shift δ) := by
    simp only [Listing.ofRun, Run.shift, List.flatMap_map, List.map_flatMap]
    exact List.flatMap_congr fun i _ => references_shift hmode δ i
  have hexit : (Listing.ofRun r (a + δ) (run.shift δ)).exit = (Listing.ofRun r a run).exit := by
    simp only [Listing.ofRun, Run.getLast?_shift, Option.map_map]
    rfl
  rw [Listing.shift, ← hblock, ← hlines, ← hreferences, ← hexit]
  rfl

theorem listing_shift (hm : m.Fits) (hm' : (m.shift δ).Fits) (a : UInt64) :
    r.listing (m.shift δ) (a + δ) = (r.listing m a).shift δ := by
  rw [listing, straightLine_shift hm hm', ofRun_shift hmode, listing]

end Relative

end Revision

end StackLift
