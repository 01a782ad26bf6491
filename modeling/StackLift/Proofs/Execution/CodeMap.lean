import StackLift.Execution
import StackLift.Proofs.Lift.Block
import StackLift.Proofs.Listing.Scan
import StackLift.Proofs.Map

/-!
# The Code of a Scan

Where execution finds code: at the addresses that a scan has reached, and nowhere
else.

Between a scan and the map that execution looks into, the listings lose their
keys, their blocks are lifted, those that fail are left out, and the others are
entered under the start of their block. No block of a scan fails, and each starts
at the key its listing had, so the map has the same keys as the scan. An address
outside the image may be among them, as an entry point. Its block is empty, and
so is its code.

## Main definitions

* `Revision.liftedBlock`: The block at an address with its code.

## Theorems

* `codeMap_eq_ofList`: The blocks of a scan are lifted to those at its addresses.
* `getElem?_codeMap_of_mem`, `getElem?_codeMap_of_not_mem`: The code at an
  address.
-/

namespace StackLift

namespace Revision

variable {r : Revision} {m : Image} {entries : List UInt64} {a : UInt64}

/-- The block at an address with the code of its instructions. -/
def liftedBlock (r : Revision) (m : Image) (a : UInt64) : LiftedBlock :=
  ⟨(r.listing m a).block, r.recording (r.straightLine m a).instructions⟩

theorem statements_liftedBlock (r : Revision) (m : Image) (a : UInt64) :
    (r.liftedBlock m a).code.statements = (r.straightLine m a).instructions.flatMap r.code :=
  statements_recording r _

/-- The blocks of a scan are lifted to those at its addresses. -/
theorem codeMap_eq_ofList (r : Revision) (m : Image) (entries : List UInt64) :
    Execution.codeMap (r.liftListings m (r.scan m entries)) =
      .ofList ((r.scan m entries).toList.map fun e => (e.1, r.liftedBlock m e.1)) := by
  -- No entry is dropped on the way, and each keeps its key.
  have hentry : ∀ e ∈ (r.scan m entries).toList,
      ((r.liftBlock m e.2.block).toOption.map fun code =>
        (e.2.block.start, (⟨e.2.block, code⟩ : LiftedBlock))) =
      some (e.1, r.liftedBlock m e.1) := by
    rintro ⟨a, l⟩ he
    rw [eq_listing_of_getElem?_scan (Std.ExtTreeMap.mem_toList_iff_getElem?_eq_some.mp he),
      liftBlock_listing, start_listing]
    rfl
  rw [Execution.codeMap, liftListings, values_eq_map_toList, List.map_map, List.filterMap_map]
  refine congrArg (Std.ExtTreeMap.ofList · compare) ?_
  rw [← List.filterMap_eq_map]
  exact List.filterMap_congr hentry

/-- At each address that a scan has reached, there is the code of its block. -/
theorem getElem?_codeMap_of_mem (h : a ∈ r.scan m entries) :
    (Execution.codeMap (r.liftListings m (r.scan m entries)))[a]? = some (r.liftedBlock m a) := by
  have hdistinct : ((r.scan m entries).toList.map fun e => (e.1, r.liftedBlock m e.1)).Pairwise
      fun x y => ¬compare x.1 y.1 = .eq :=
    List.pairwise_map.mpr Std.ExtTreeMap.distinct_keys_toList
  rw [codeMap_eq_ofList, getElem?_ofList_eq_some_iff hdistinct]
  have hmem : (a, r.listing m a) ∈ (r.scan m entries).toList :=
    Std.ExtTreeMap.mem_toList_iff_getElem?_eq_some.mpr (getElem?_scan_of_mem h)
  exact List.mem_map.mpr ⟨_, hmem, rfl⟩

theorem getElem?_codeMap_of_not_mem (h : a ∉ r.scan m entries) :
    (Execution.codeMap (r.liftListings m (r.scan m entries)))[a]? = none := by
  rw [codeMap_eq_ofList]
  refine Std.ExtTreeMap.getElem?_ofList_of_contains_eq_false ?_
  rw [List.map_map, ← Bool.not_eq_true, List.contains_iff_mem]
  -- A key of the map is a key of the scan.
  intro hmem
  rcases List.mem_map.mp hmem with ⟨⟨b, l⟩, he, rfl⟩
  have hl := Std.ExtTreeMap.mem_toList_iff_getElem?_eq_some.mp he
  exact h (Std.ExtTreeMap.mem_iff_isSome_getElem?.mpr (Option.isSome_of_eq_some hl))

end Revision

end StackLift
