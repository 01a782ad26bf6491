import Mathlib.Algebra.Group.Nat.Defs
import Mathlib.Data.List.Sort
import StackLift.Block

/-!
# Marks of a Block

Marks are kept as a set, so a block forgets in which order they were made. If
they were made from front to back, and all within the block, the order of the
offsets is the order in which they were made, and nothing is lost.

A mark is an offset, and so it is within the block or not whatever the address it
leads to. The test for addresses is stricter, since it does not wrap around: of a
block that runs past the last address, marks included, it knows the part before
that only.

## Theorems

* `mem_offsets_markAll`: What is marked.
* `markAll_eq_of_mem_iff`: Which marks within the block were made is all that counts.
* `pairwise_offsets`: The offsets stand in increasing order.
* `split_addresses`: What stands before a marked address.
* `toList_offsets_markAll`: Marks made from front to back.
* `nodup_addresses`: No address is marked twice.
* `mem_addresses_markAll`: The addresses of the marks.
* `contains_start_add_iff`, `contains_iff`: What lies within a block.
* `contains_markAll`: Which of the marked addresses lie within the block.
-/

namespace StackLift

namespace Block

variable {b : Block} {a o : UInt64}

@[simp] theorem start_markAll (b : Block) (os : List UInt64) : (b.markAll os).start = b.start := by
  induction os generalizing b with
  | nil => rfl
  | cons o os ih =>
      rw [markAll, List.foldl_cons, ← markAll, ih, mark]
      split <;> rfl

@[simp] theorem length_markAll (b : Block) (os : List UInt64) :
    (b.markAll os).length = b.length := by
  induction os generalizing b with
  | nil => rfl
  | cons o os ih =>
      rw [markAll, List.foldl_cons, ← markAll, ih, mark]
      split <;> rfl

theorem mem_offsets_mark (p : UInt64) :
    o ∈ (b.mark p).offsets ↔ o ∈ b.offsets ∨ o = p ∧ o < b.length := by
  unfold mark
  by_cases h : p < b.length
  · rw [if_pos h, Std.ExtTreeSet.mem_insert, Std.LawfulEqCmp.compare_eq_iff_eq]
    constructor
    · intro hcase
      rcases hcase with rfl | ho
      · exact Or.inr ⟨rfl, h⟩
      · exact Or.inl ho
    · intro hcase
      rcases hcase with ho | ⟨rfl, _⟩
      · exact Or.inr ho
      · exact Or.inl rfl
  · rw [if_neg h]
    constructor
    · exact Or.inl
    · intro hcase
      rcases hcase with ho | ⟨rfl, hlt⟩
      · exact ho
      · exact absurd hlt h

/-- What is marked: what was before, and the further marks within the block. -/
theorem mem_offsets_markAll (os : List UInt64) :
    o ∈ (b.markAll os).offsets ↔ o ∈ b.offsets ∨ o ∈ os ∧ o < b.length := by
  induction os generalizing b with
  | nil => simp only [markAll, List.foldl_nil, List.not_mem_nil, false_and, or_false]
  | cons p os ih =>
      have hlength : (b.mark p).length = b.length := length_markAll b [p]
      rw [markAll, List.foldl_cons, ← markAll, ih, mem_offsets_mark, hlength, List.mem_cons,
        or_and_right, or_assoc]

/-- Neither the order of the marks nor their repetitions are kept, nor those beyond the end
    of the block. -/
theorem markAll_eq_of_mem_iff {os os' : List UInt64} (h : ∀ o < b.length, o ∈ os ↔ o ∈ os') :
    b.markAll os = b.markAll os' := by
  have hoffsets : (b.markAll os).offsets = (b.markAll os').offsets := by
    refine Std.ExtTreeSet.ext_mem fun o => ?_
    rw [mem_offsets_markAll, mem_offsets_markAll]
    by_cases ho : o < b.length
    · simp only [h o ho]
    · simp only [ho, and_false, or_false]
  have hstart := (start_markAll b os).trans (start_markAll b os').symm
  have hlength := (length_markAll b os).trans (length_markAll b os').symm
  cases hx : b.markAll os
  cases hy : b.markAll os'
  rw [hx, hy] at hoffsets hstart hlength
  exact Block.mk.injEq .. ▸ ⟨hstart, hlength, hoffsets⟩

/-- The offsets stand in increasing order. -/
theorem pairwise_offsets (b : Block) : b.offsets.toList.Pairwise (· < ·) := by
  refine Std.ExtTreeSet.ordered_toList.imp ?_
  intro o p h
  exact Std.compare_eq_lt.mp h

/-- What is nearer to the start of the block stands before. -/
theorem split_addresses {a : UInt64} {before behind : List UInt64}
    (h : b.addresses = before ++ a :: behind) :
    ∃ o ∈ b.offsets, b.start + o = a ∧ ∀ p ∈ b.offsets, p < o → b.start + p ∈ before := by
  rw [addresses] at h
  rcases List.map_eq_append_iff.mp h with ⟨ps, qs, hoffsets, rfl, hqs⟩
  rcases List.map_eq_cons_iff.mp hqs with ⟨o, qs, rfl, rfl, rfl⟩
  have hsorted := b.pairwise_offsets
  have hmem (p : UInt64) : p ∈ b.offsets ↔ p ∈ ps ∨ p = o ∨ p ∈ qs := by
    rw [← Std.ExtTreeSet.mem_toList, hoffsets, List.mem_append, List.mem_cons]
  refine ⟨o, (hmem o).mpr (Or.inr (Or.inl rfl)), rfl, fun p hp hlt => ?_⟩
  rw [hoffsets, List.pairwise_append, List.pairwise_cons] at hsorted
  rcases (hmem p).mp hp with hp | rfl | hp
  · exact List.mem_map_of_mem hp
  · exact absurd hlt (UInt64.lt_irrefl p)
  · exact absurd (UInt64.lt_trans hlt (hsorted.2.1.1 p hp)) (UInt64.lt_irrefl p)

/-- Marks that are made from front to back within a block without marks are found
    in the order in which they were made. -/
theorem toList_offsets_markAll {start length : UInt64} {os : List UInt64}
    (hsorted : os.Pairwise (· < ·)) (hlt : ∀ o ∈ os, o < length) :
    ({ start, length : Block }.markAll os).offsets.toList = os := by
  -- Both lists are increasing, so it is enough that they have the same elements.
  refine List.Pairwise.eq_of_mem_iff (r := (· < ·)) (pairwise_offsets _) hsorted ?_
  intro o
  rw [Std.ExtTreeSet.mem_toList, mem_offsets_markAll]
  constructor
  · intro hcase
    rcases hcase with ho | ⟨ho, _⟩
    · exact absurd ho Std.ExtTreeSet.not_mem_empty
    · exact ho
  · intro ho
    exact Or.inr ⟨ho, hlt o ho⟩

/-- No address is marked twice. -/
theorem nodup_addresses (b : Block) : b.addresses.Nodup := by
  rw [addresses, List.nodup_map_iff_inj_on]
  · intro o _ p _ h
    exact (UInt64.add_right_inj b.start).mp h
  · refine b.pairwise_offsets.imp ?_
    intro o p h heq
    exact Nat.lt_irrefl _ (UInt64.lt_iff_toNat_lt.mp (heq ▸ h))

theorem mem_addresses_markAll {start length : UInt64} {os : List UInt64} :
    a ∈ ({ start, length : Block }.markAll os).addresses ↔
      ∃ o ∈ os, o < length ∧ a = start + o := by
  simp only [addresses, List.mem_map, Std.ExtTreeSet.mem_toList, mem_offsets_markAll,
    start_markAll]
  constructor
  · rintro ⟨o, ho | ⟨ho, hlt⟩, rfl⟩
    · exact absurd ho Std.ExtTreeSet.not_mem_empty
    · exact ⟨o, ho, hlt, rfl⟩
  · rintro ⟨o, ho, hlt, rfl⟩
    exact ⟨o, Or.inr ⟨ho, hlt⟩, rfl⟩

/-- An offset within the block leads to an address within it, unless that is past the last
    address. -/
theorem contains_start_add_iff (ho : o < b.length) :
    b.contains (b.start + o) = true ↔ b.start.toNat + o.toNat < 2 ^ 64 := by
  have hstart := b.start.toNat_lt
  have hoffset := o.toNat_lt
  -- Whether the sum has wrapped or not, going back gives the offset again.
  have hsub : b.start + o - b.start = o := by rw [UInt64.add_comm, UInt64.add_sub_cancel]
  rw [contains, hsub, Bool.and_eq_true, decide_eq_true_eq, decide_eq_true_eq,
    UInt64.le_iff_toNat_le, UInt64.toNat_add]
  constructor
  · rintro ⟨hle, _⟩
    omega
  · intro hlt
    exact ⟨by omega, ho⟩

/-- What lies within a block: the addresses that its offsets lead to, up to the last address. -/
theorem contains_iff :
    b.contains a = true ↔
      ∃ o < b.length, b.start.toNat + o.toNat < 2 ^ 64 ∧ a = b.start + o := by
  constructor
  · intro h
    have hback : b.start + (a - b.start) = a := by rw [UInt64.add_comm, UInt64.sub_add_cancel]
    have hlt : a - b.start < b.length := by
      rw [contains, Bool.and_eq_true, decide_eq_true_eq, decide_eq_true_eq] at h
      exact h.2
    refine ⟨a - b.start, hlt, ?_, hback.symm⟩
    rw [← contains_start_add_iff hlt, hback]
    exact h
  · rintro ⟨o, ho, hend, rfl⟩
    exact (contains_start_add_iff ho).mpr hend

theorem contains_finish (b : Block) : b.contains b.finish = false := by
  have hsub : b.finish - b.start = b.length := by
    rw [finish, UInt64.add_comm, UInt64.add_sub_cancel]
  rw [contains, hsub, decide_eq_false (UInt64.lt_irrefl b.length), Bool.and_false]

/-- A block contains what its offsets lead to, up to the last address. Of the addresses marked
    in it, it contains those that are not past the last address, which are all of them if the
    block does not run past it either. The address behind the block is never contained. -/
theorem contains_markAll (start length : UInt64) (os : List UInt64) :
    let b := { start, length : Block }.markAll os
    (∀ a, b.contains a = true ↔
      ∃ o < length, start.toNat + o.toNat < 2 ^ 64 ∧ a = start + o) ∧
    (∀ a ∈ b.addresses, ∃ o ∈ os, o < length ∧ a = start + o ∧
      (b.contains a = true ↔ start.toNat + o.toNat < 2 ^ 64)) ∧
    (start.toNat + length.toNat ≤ 2 ^ 64 → ∀ a ∈ b.addresses, b.contains a = true) ∧
    b.contains b.finish = false := by
  intro b
  have hstart : b.start = start := start_markAll _ os
  have hlength : b.length = length := length_markAll _ os
  have hmarked : ∀ a ∈ b.addresses, ∃ o ∈ os, o < length ∧ a = start + o ∧
      (b.contains a = true ↔ start.toNat + o.toNat < 2 ^ 64) := by
    intro a ha
    rcases mem_addresses_markAll.mp ha with ⟨o, ho, hlt, rfl⟩
    refine ⟨o, ho, hlt, rfl, ?_⟩
    rw [← hstart]
    exact contains_start_add_iff (hlength.symm ▸ hlt)
  refine ⟨fun a => ?_, hmarked, ?_, contains_finish b⟩
  · rw [contains_iff, hstart, hlength]
  · -- No offset within such a block leads past the last address.
    intro hfits a ha
    rcases hmarked a ha with ⟨o, _, hlt, _, hcontains⟩
    rw [UInt64.lt_iff_toNat_lt] at hlt
    exact hcontains.mpr (by omega)

/-- A mark past the last address. -/
theorem not_contains_marked :
    let b := { start := 0xffffffffffffffff, length := 2 : Block }.markAll [1]
    b.start + 1 = 0 ∧ (1 : UInt64) < b.length ∧ 0 ∈ b.addresses ∧ b.contains 0 = false := by
  refine ⟨rfl, by decide, mem_addresses_markAll.mpr ⟨1, ?_, by decide, rfl⟩, by decide⟩
  exact List.mem_singleton_self 1

end Block

end StackLift
