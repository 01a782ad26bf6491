import StackLift.Proofs.Listing.Scan
import StackLift.Proofs.Relocation.Listing
import StackLift.Proofs.Revision.Accepted
import StackLift.Revision.Builtin

/-!
# Position Independence

Code with relative branches may be loaded anywhere.

A scan keeps its addresses in a tree, and the order in which it works them off is that of
the tree. Moving code across the end of the address space changes that order, so the two
scans of an image at two places do not go in step. What a scan finds does not depend on
the order, though: an address has a listing just if it can be reached. So it is being
reached that is moved, one edge at a time. An edge that leads out of the image may come
back into it around the address space, and it does so at every place where the image fits.

That nothing else is reached in the moved image needs no second induction. The move back
is a move as well.

## Theorems

* `Reaches.shift`: What can be reached can be reached in a moved image.
* `mem_scan_shift_iff`, `getElem?_scan_shift`: The scan of a moved image.
* `map_entries_foldlM_record`: The code of instructions at moved addresses.
* `scan_liftBlock_rebase`: Scanning and lifting at two places.
-/

namespace StackLift

theorem Listing.targets_shift (δ : UInt64) (l : Listing) :
    (l.shift δ).targets = l.targets.map (· + δ) := by
  rw [targets, targets, shift, List.filterMap_map, List.map_filterMap]
  rfl

/-- Statements that are added at a moved address are those added before, moved. -/
theorem Recording.shiftedEntries_addAll (δ a : UInt64) (c : Recording) (ss : List Statement) :
    ((c.moveTo a).addAll ss).shiftedEntries δ =
      c.shiftedEntries δ ++ (ss.map (Statement.shift δ)).map (a + δ, ·) := by
  rw [shiftedEntries, toList_entries_addAll, List.map_append, List.map_map, List.map_map]
  rfl

namespace Revision

variable {r : Revision} {δ a : UInt64} {m : Image} {entries : List UInt64}

section Relative

variable (hmode : r.branchMode = .relativeToNextInstruction)
variable (hm : m.Fits) (hm' : (m.shift δ).Fits)
include hmode hm hm'

/-- What can be reached can be reached in a moved image, from moved entry points. -/
theorem Reaches.shift (h : Reaches r m entries a) :
    Reaches r (m.shift δ) (entries.map (· + δ)) (a + δ) := by
  induction h with
  | entry ha => exact .entry (List.mem_map_of_mem ha)
  | target _ ht hc ih =>
      refine .target ih ?_ ?_
      · rw [listing_shift hmode hm hm', Listing.targets_shift]
        exact List.mem_map_of_mem ht
      · rw [Image.contains_shift hm hm']
        exact hc

theorem mem_scan_shift_iff :
    a + δ ∈ r.scan (m.shift δ) (entries.map (· + δ)) ↔ a ∈ r.scan m entries := by
  rw [mem_scan_iff, mem_scan_iff]
  constructor
  · intro h
    -- The image is moved back, and the entry points and the address with it.
    have hm'' : ((m.shift δ).shift (-δ)).Fits := by
      rw [Image.shift_shift_neg]
      exact hm
    have hentries : (entries.map (· + δ)).map (· + -δ) = entries := by
      rw [List.map_map]
      exact List.map_id'' (shift_neg_shift · δ) entries
    have hreach := Reaches.shift hmode hm' hm'' h
    rw [Image.shift_shift_neg, hentries, shift_neg_shift] at hreach
    exact hreach
  · exact Reaches.shift hmode hm hm'

/-- The listings that a scan of a moved image finds are those found before, moved. -/
theorem getElem?_scan_shift :
    (r.scan (m.shift δ) (entries.map (· + δ)))[a + δ]? =
      (r.scan m entries)[a]?.map (Listing.shift δ) := by
  have hiff : a + δ ∈ r.scan (m.shift δ) (entries.map (· + δ)) ↔ a ∈ r.scan m entries :=
    mem_scan_shift_iff hmode hm hm'
  by_cases h : a ∈ r.scan m entries
  · rw [getElem?_scan_of_mem h, getElem?_scan_of_mem (hiff.mpr h), listing_shift hmode hm hm']
    rfl
  · rw [Std.ExtTreeMap.getElem?_eq_none h, Std.ExtTreeMap.getElem?_eq_none (mt hiff.mp h)]
    rfl

/-- The instructions at moved addresses add the same statements to a recording, moved, or
    fail with the same error, moved. -/
theorem map_entries_foldlM_record {c c' : Recording}
    (hc : c'.entries.toList = c.shiftedEntries δ) (as : List UInt64) :
    ((as.map (· + δ)).foldlM (r.record (m.shift δ)) c').map (·.entries.toList) =
      ((as.foldlM (r.record m) c).map (Recording.shiftedEntries δ)).mapError
        (DecodeError.shift δ) := by
  -- The recordings differ in their addresses from the start, so both are arbitrary.
  induction as generalizing c c' with
  | nil => exact congrArg Except.ok hc
  | cons a as ih =>
      rw [List.map_cons, List.foldlM_cons, List.foldlM_cons, record_eq, record_eq,
        decodeAt_shift hm hm']
      cases r.decodeAt m a with
      | error e => rfl
      | ok i =>
          refine ih ?_
          rw [Recording.toList_entries_addAll, Recording.shiftedEntries_addAll,
            code_shift hmode, ← hc]
          rfl

end Relative

/-- A revision with relative branches is position independent. For the same bytes at two
    bases at which they fit, a scan from moved entry points finds just the listings at the
    moved addresses, each of them moved; and a moved block is lifted to the same statements
    with their addresses and the targets of their jumps moved, or to the same error, moved. -/
theorem scan_liftBlock_rebase (r : Revision)
    (hmode : r.branchMode = .relativeToNextInstruction) (m m' : Image)
    (hbytes : m'.bytes = m.bytes) (hm : m.Fits) (hm' : m'.Fits) :
    let δ := m'.base - m.base
    (∀ entries a, (r.scan m' (entries.map (· + δ)))[a + δ]? =
        (r.scan m entries)[a]?.map (Listing.shift δ)) ∧
      ∀ b, (r.liftBlock m' (b.shift δ)).map (·.entries.toList) =
        ((r.liftBlock m b).map (Recording.shiftedEntries δ)).mapError (DecodeError.shift δ) := by
  intro δ
  -- Images with the same bytes are one image, moved by the distance of the bases.
  have hmoved : m' = m.shift δ := by
    have hbase : m.base + (m'.base - m.base) = m'.base := by
      rw [UInt64.add_comm, UInt64.sub_add_cancel]
    cases m'
    cases hbytes
    simp only [Image.shift, δ, hbase]
  rw [hmoved] at hm' ⊢
  refine ⟨fun entries a => getElem?_scan_shift hmode hm hm', fun b => ?_⟩
  rw [liftBlock, liftBlock, Block.addresses_shift]
  exact map_entries_foldlM_record hmode hm hm' rfl b.addresses

/-- A branch over one byte, to a return in the last byte of the address space. -/
theorem scan_liftBlock_rebase_jump : ∃ r,
    ofDefinition BuiltinRevision.tigress3.definition = .ok r ∧
    r.branchMode = .relativeToNextInstruction ∧
    let m : Image := ⟨0x1000, #[0xf4, 0x01, 0x00, 0x00, 0x00, 0x4e, 0xb3], by decide⟩
    let m' : Image := ⟨0xfffffffffffffff9, m.bytes, m.size_lt⟩
    let δ := m'.base - m.base
    m'.bytes = m.bytes ∧ m.Fits ∧ m'.Fits ∧
    (∀ entries a, (r.scan m' (entries.map (· + δ)))[a + δ]? =
        (r.scan m entries)[a]?.map (Listing.shift δ)) ∧
      ∀ b, (r.liftBlock m' (b.shift δ)).map (·.entries.toList) =
        ((r.liftBlock m b).map (Recording.shiftedEntries δ)).mapError (DecodeError.shift δ) := by
  rcases BuiltinRevision.exists_revision .tigress3 with ⟨r, hr⟩
  have hmode : r.branchMode = .relativeToNextInstruction := branchMode_eq_definition hr
  exact ⟨r, hr, hmode, rfl, by decide, by decide,
    scan_liftBlock_rebase r hmode _ _ rfl (by decide) (by decide)⟩

end Revision

end StackLift
