import StackLift.Opcode.Table

/-!
# Opcode Tables by Bytes

What entering a descriptor does to the meaning of each byte.

A table keeps positions, and a position means something only as long as it lies
within the descriptors. `WellFormed` says that all of them do. Entering a
descriptor keeps this, since descriptors are only ever added behind the others,
and under it the table can be read byte by byte without a word about positions:
the new bytes mean the new descriptor, all others what they meant before.

## Main definitions

* `OpcodeTable.WellFormed`: Every position lies within the descriptors.

## Theorems

* `wellFormed_of_insert`: Entering a descriptor keeps the positions in range.
* `lookup?_of_insert`: What a byte means after a descriptor was entered.
* `lookup?_eq_none_of_insert`: The bytes of a new descriptor meant nothing before.
* `mem_aliases_iff`: The aliases of a byte share its position.
* `lookup?_of_mem_aliases`: An alias means the same as the byte.
* `mem_entries_iff`: The entries are the bytes that mean something.
* `pairwise_aliases`, `pairwise_entries`: Bytes are listed in increasing order.
-/

namespace StackLift

theorem pairwise_allBytes : allBytes.Pairwise (· < ·) := by
  rw [allBytes, List.pairwise_map]
  refine List.pairwise_lt_range.imp_of_mem fun ha hb hlt => ?_
  rw [List.mem_range] at ha hb
  rw [UInt8.lt_iff_toNat_lt, UInt8.toNat_ofNat', UInt8.toNat_ofNat']
  omega

namespace OpcodeTable

/-- Every position lies within the descriptors. -/
def WellFormed (t : OpcodeTable) : Prop :=
  ∀ b n, t.slot b = some n → n < t.descriptors.length

variable {t u : OpcodeTable} {bytes : List UInt8} {o : Opcode}

theorem wellFormed_empty : (∅ : OpcodeTable).WellFormed := by
  intro b n h
  exact absurd h (by simp only [EmptyCollection.emptyCollection, reduceCtorEq, not_false_eq_true])

theorem lookup?_empty (b : UInt8) : (∅ : OpcodeTable).lookup? b = none := rfl

theorem slot_eq_none_of_insert (h : t.insert bytes o = .ok u) {b : UInt8} (hb : b ∈ bytes) :
    t.slot b = none := by
  cases hfind : bytes.find? t.isTaken with
  | some c => rw [insert_eq_error_iff.mpr hfind] at h; contradiction
  | none =>
      have hfree : ¬t.isTaken b = true := List.find?_eq_none.mp hfind b hb
      simpa only [isTaken, Option.not_isSome_iff_eq_none] using hfree

/-- Entering a descriptor keeps the positions in range. -/
theorem wellFormed_of_insert (h : t.insert bytes o = .ok u) (ht : t.WellFormed) :
    u.WellFormed := by
  intro b n hn
  rw [slot_of_insert_eq_ok h] at hn
  rw [descriptors_of_insert_eq_ok h, List.length_append, List.length_singleton]
  -- The new bytes point at the new descriptor, the others at an old one.
  by_cases hb : b ∈ bytes
  · rw [if_pos hb, Option.some.injEq] at hn
    omega
  · rw [if_neg hb] at hn
    exact Nat.lt_succ_of_lt (ht b n hn)

/-- After a descriptor was entered, its bytes mean it, and all others mean what
    they meant before. -/
theorem lookup?_of_insert (h : t.insert bytes o = .ok u) (ht : t.WellFormed) (b : UInt8) :
    u.lookup? b = if b ∈ bytes then some o else t.lookup? b := by
  rw [lookup?, slot_of_insert_eq_ok h, descriptors_of_insert_eq_ok h]
  by_cases hb : b ∈ bytes
  · rw [if_pos hb, if_pos hb, Option.bind_some, List.getElem?_concat_length]
  · rw [if_neg hb, if_neg hb, lookup?]
    cases hn : t.slot b with
    | none => rfl
    | some n => rw [Option.bind_some, Option.bind_some, List.getElem?_append_left (ht b n hn)]

theorem lookup?_eq_none_of_insert (h : t.insert bytes o = .ok u) {b : UInt8} (hb : b ∈ bytes) :
    t.lookup? b = none := by
  rw [lookup?, slot_eq_none_of_insert h hb, Option.bind_none]

/-- The aliases of a byte are the bytes that hold the position of its descriptor. -/
theorem mem_aliases_iff {b c : UInt8} :
    b ∈ t.aliases c ↔ ∃ n, t.slot b = some n ∧ t.slot c = some n := by
  unfold aliases
  cases hc : t.slot c with
  | none => simp only [List.not_mem_nil, reduceCtorEq, and_false, exists_false]
  | some n =>
      simp only [List.mem_filter, mem_allBytes, true_and, beq_iff_eq, Option.some.injEq,
        exists_eq_right']

/-- An alias of a byte means the same as the byte. -/
theorem lookup?_of_mem_aliases {b c : UInt8} (h : b ∈ t.aliases c) : t.lookup? b = t.lookup? c := by
  rcases mem_aliases_iff.mp h with ⟨n, hb, hc⟩
  rw [lookup?, lookup?, hb, hc]

theorem pairwise_aliases (t : OpcodeTable) (b : UInt8) : (t.aliases b).Pairwise (· < ·) := by
  unfold aliases
  cases t.slot b with
  | none => exact List.Pairwise.nil
  | some n => exact pairwise_allBytes.filter _

/-- The entries are the bytes that mean something, with what they mean. -/
theorem mem_entries_iff {b : UInt8} : (b, o) ∈ t.entries ↔ t.lookup? b = some o := by
  simp only [entries, List.mem_filterMap, Option.map_eq_some_iff, Prod.mk.injEq]
  constructor
  · rintro ⟨c, _, o', ho, rfl, rfl⟩
    exact ho
  · intro ho
    exact ⟨b, mem_allBytes b, o, ho, rfl, rfl⟩

theorem pairwise_entries (t : OpcodeTable) : t.entries.Pairwise fun x y => x.1 < y.1 := by
  rw [entries, List.pairwise_filterMap]
  refine pairwise_allBytes.imp fun hlt x hx y hy => ?_
  rw [Option.map_eq_some_iff] at hx hy
  rcases hx with ⟨_, _, rfl⟩
  rcases hy with ⟨_, _, rfl⟩
  exact hlt

end OpcodeTable

end StackLift
