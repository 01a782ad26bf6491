import Std.Data.ExtTreeMap.Lemmas

/-!
# Maps and Their Entries

An ordered map and the list of its entries. A list of entries with no key twice is
the map that it is turned into, entry by entry, so the entries of a map turn into
that map again.

## Theorems

* `values_eq_map_toList`: The values of a map are those of its entries.
* `getElem?_ofList_eq_some_iff`: What a list of entries with different keys binds.
* `ofList_toList`: The entries of a map make the map.
-/

namespace StackLift

variable {α β : Type} {cmp : α → α → Ordering} [Std.TransCmp cmp]

/-- The values of a map are those of its entries, in the same order. -/
theorem values_eq_map_toList (t : Std.ExtTreeMap α β cmp) : t.values = t.toList.map (·.2) := by
  -- Both sides are read off the tree that represents the map.
  rcases t with ⟨⟨q⟩⟩
  induction q using Quotient.ind with
  | _ t =>
      change Std.DTreeMap.Internal.Impl.values t.inner =
        (Std.DTreeMap.Internal.Impl.Const.toList t.inner).map (·.2)
      rw [Std.DTreeMap.Internal.Impl.values_eq_map_snd,
        Std.DTreeMap.Internal.Impl.Const.toList_eq_toListModel_map, List.map_map]
      rfl

variable [Std.LawfulEqCmp cmp]

/-- A list of entries with different keys binds each of them, and nothing else. -/
theorem getElem?_ofList_eq_some_iff {l : List (α × β)} {k : α} {v : β}
    (hl : l.Pairwise fun x y => ¬cmp x.1 y.1 = .eq) :
    (Std.ExtTreeMap.ofList l cmp)[k]? = some v ↔ (k, v) ∈ l := by
  classical
  constructor
  · intro h
    by_cases hk : k ∈ l.map (·.1)
    · -- The entry of the key is found, so it is the one that was asked for.
      rcases List.mem_map.mp hk with ⟨⟨k', v'⟩, hmem, rfl⟩
      have hv := Std.ExtTreeMap.getElem?_ofList_of_mem Std.ReflCmp.compare_self hl hmem
      cases h.symm.trans hv
      exact hmem
    · have hnone : (Std.ExtTreeMap.ofList l cmp)[k]? = none := by
        refine Std.ExtTreeMap.getElem?_ofList_of_contains_eq_false ?_
        rw [← Bool.not_eq_true, List.contains_iff_mem]
        exact hk
      rw [hnone] at h
      contradiction
  · intro hmem
    exact Std.ExtTreeMap.getElem?_ofList_of_mem Std.ReflCmp.compare_self hl hmem

theorem ofList_toList (t : Std.ExtTreeMap α β cmp) :
    Std.ExtTreeMap.ofList t.toList cmp = t := by
  refine Std.ExtTreeMap.ext_getElem? fun k => ?_
  ext v
  rw [getElem?_ofList_eq_some_iff Std.ExtTreeMap.distinct_keys_toList,
    Std.ExtTreeMap.mem_toList_iff_getElem?_eq_some]

end StackLift
