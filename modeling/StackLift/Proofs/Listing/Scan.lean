import Mathlib.Order.Bounds.Defs
import Mathlib.Tactic.ByContra
import Mathlib.Tactic.Tauto
import StackLift.Listing.Scan

/-!
# What a Scan Finds

A scan finds the blocks that can be reached, all of them and no others.

Being reached is a closure: an entry point is reached, inside the image or not,
and so is every static target that a reached block's listing names, as long as
it lies in the image. The scan itself is a loop over a line of addresses with a
set of those that ever stood in it, and neither the set nor the line is in the
result. `Scanned` is what ties the three together. What was ever in line is what
has a listing by now or still waits, which gives the two halves of the claim when
nothing waits any more: all that was ever in line can be reached, so nothing
superfluous has a listing, and the targets of whatever has a listing were put
into the line, so nothing is missing. The order in which the line is worked off
plays no part.

The code behind a block is never put into the line, since no instruction both
branches and goes on behind itself.

## Main definitions

* `Listing.targets`: The addresses that the edges of a listing lead to.
* `Revision.Reaches`: An address can be reached from the entry points.
* `Revision.Scanned`: What holds whenever the scan turns to the next address.

## Theorems

* `mem_queued_addAll`, `mem_waiting_addAll`: What is in line once further
  addresses are put there.
* `successors_listing`: A scan goes on at the targets only.
* `scanned_visit`: Working off one address keeps the invariant.
* `scanned_scanFrom`: The scan keeps it until nothing waits.
* `mem_scan_iff`: What has a listing is what can be reached.
* `getElem?_scan_of_mem`: Each listing is that of its address.
* `isLeast_scan`: The scan finds the least set that is closed under static
  targets.
-/

namespace StackLift

/-- The addresses that the edges of a listing lead to. -/
def Listing.targets (l : Listing) : List UInt64 := l.references.filterMap (·.target?)

namespace Frontier

variable {m : Image} {f : Frontier} {a b : UInt64}

theorem mem_queued_add : b ∈ (f.add m a).queued ↔ b ∈ f.queued ∨ b = a ∧ m.contains b = true := by
  unfold add
  by_cases h : m.contains a = true ∧ a ∉ f.queued
  · rw [if_pos h, Std.ExtTreeSet.mem_insert, Std.LawfulEqCmp.compare_eq_iff_eq]
    constructor
    · intro hcase
      rcases hcase with rfl | hb
      · exact Or.inr ⟨rfl, h.1⟩
      · exact Or.inl hb
    · intro hcase
      rcases hcase with hb | ⟨rfl, _⟩
      · exact Or.inr hb
      · exact Or.inl rfl
  · rw [if_neg h]
    constructor
    · exact Or.inl
    · intro hcase
      rcases hcase with hb | ⟨rfl, hb⟩
      · exact hb
      · by_contra hq
        exact h ⟨hb, hq⟩

theorem mem_waiting_add :
    b ∈ (f.add m a).waiting ↔ b ∈ f.waiting ∨ b = a ∧ m.contains b = true ∧ b ∉ f.queued := by
  unfold add
  by_cases h : m.contains a = true ∧ a ∉ f.queued
  · rw [if_pos h, List.mem_cons]
    constructor
    · intro hcase
      rcases hcase with rfl | hb
      · exact Or.inr ⟨rfl, h⟩
      · exact Or.inl hb
    · intro hcase
      rcases hcase with hb | ⟨rfl, _⟩
      · exact Or.inr hb
      · exact Or.inl rfl
  · rw [if_neg h]
    constructor
    · exact Or.inl
    · intro hcase
      rcases hcase with hb | ⟨rfl, hb⟩
      · exact hb
      · exact absurd hb h

/-- What was ever in line once further addresses are put there. -/
theorem mem_queued_addAll (as : List UInt64) :
    b ∈ (as.foldl (add m) f).queued ↔ b ∈ f.queued ∨ b ∈ as ∧ m.contains b = true := by
  induction as generalizing f with
  | nil => simp only [List.foldl_nil, List.not_mem_nil, false_and, or_false]
  | cons a as ih =>
      rw [List.foldl_cons, ih, mem_queued_add, List.mem_cons, or_and_right, or_assoc]

/-- What waits once further addresses are put into the line. -/
theorem mem_waiting_addAll (as : List UInt64) :
    b ∈ (as.foldl (add m) f).waiting ↔
      b ∈ f.waiting ∨ b ∈ as ∧ m.contains b = true ∧ b ∉ f.queued := by
  induction as generalizing f with
  | nil => simp only [List.foldl_nil, List.not_mem_nil, false_and, or_false]
  | cons a as ih =>
      rw [List.foldl_cons, ih, mem_waiting_add, mem_queued_add, List.mem_cons]
      -- A second occurrence of `a` is not put into the line again.
      by_cases hba : b = a
      · subst hba
        tauto
      · simp only [hba, false_and, or_false, false_or]

end Frontier

namespace Revision

variable {r : Revision} {m : Image} {entries : List UInt64}

/-- A scan goes on at the targets of the edges and nowhere else. -/
theorem successors_listing (r : Revision) (m : Image) (a : UInt64) :
    (r.listing m a).successors = (r.listing m a).targets := by
  have hexit : (r.listing m a).exit ≠ some (.branching true) := by
    intro h
    rcases Option.map_eq_some_iff.mp h with ⟨i, _, hflow⟩
    unfold Instruction.flow at hflow
    split at hflow <;> cases hflow
  rw [Listing.successors, if_neg hexit, List.append_nil, Listing.targets]

/-- An address can be reached from the entry points: it is one of them, or it lies
    in the image and an edge of a block that can be reached leads there. -/
inductive Reaches (r : Revision) (m : Image) (entries : List UInt64) : UInt64 → Prop where
  /-- An entry point is reached. -/
  | entry {a : UInt64} (h : a ∈ entries) : Reaches r m entries a
  /-- A static target in the image is reached. -/
  | target {a t : UInt64} (ha : Reaches r m entries a) (ht : t ∈ (r.listing m a).targets)
      (hm : m.contains t = true) : Reaches r m entries t

/-- What holds whenever the scan turns to the next address in line. -/
structure Scanned (r : Revision) (m : Image) (entries : List UInt64) (found : Listings)
    (f : Frontier) : Prop where
  /-- Each listing is that of its address. -/
  listed : ∀ a l, found[a]? = some l → l = r.listing m a
  /-- What was ever in line has a listing or still waits. -/
  queued : ∀ a, a ∈ f.queued ↔ a ∈ found ∨ a ∈ f.waiting
  /-- Every entry point was in line. -/
  entered : ∀ a ∈ entries, a ∈ f.queued
  /-- The targets of whatever has a listing were in line. -/
  closed : ∀ a ∈ found, ∀ t ∈ (r.listing m a).targets, m.contains t = true → t ∈ f.queued
  /-- Nothing was in line that cannot be reached. -/
  reached : ∀ a ∈ f.queued, Reaches r m entries a

theorem scanned_ofEntries : Scanned r m entries ∅ (.ofEntries entries) where
  listed a l h := by
    rw [Std.ExtTreeMap.getElem?_empty] at h
    contradiction
  queued a := by
    simp only [Frontier.ofEntries, Std.ExtTreeMap.not_mem_empty, false_or,
      Std.ExtTreeSet.mem_toList]
  entered a ha := by
    rw [Frontier.ofEntries, Std.ExtTreeSet.mem_ofList, List.contains_iff_mem]
    exact ha
  closed a ha := absurd ha Std.ExtTreeMap.not_mem_empty
  reached a ha := by
    rw [Frontier.ofEntries, Std.ExtTreeSet.mem_ofList, List.contains_iff_mem] at ha
    exact .entry ha

/-- Working off one address keeps what is known: its listing is added, and the
    targets of the listing are put into the line. -/
theorem scanned_visit {found : Listings} {queued : Std.ExtTreeSet UInt64} {a : UInt64}
    {rest : List UInt64} (h : Scanned r m entries found ⟨queued, a :: rest⟩) :
    Scanned r m entries (found.insert a (r.listing m a))
      ((r.listing m a).targets.foldl (Frontier.add m) ⟨queued, rest⟩) := by
  have hmem (b : UInt64) : b ∈ found.insert a (r.listing m a) ↔ b = a ∨ b ∈ found := by
    rw [Std.ExtTreeMap.mem_insert, Std.LawfulEqCmp.compare_eq_iff_eq, eq_comm]
  have ha : a ∈ queued := (h.queued a).mpr (Or.inr List.mem_cons_self)
  -- One goal for each part of the invariant.
  refine ⟨?_, ?_, ?_, ?_, ?_⟩
  · intro b l hl
    rw [Std.ExtTreeMap.getElem?_insert] at hl
    split at hl
    · next hab =>
        rw [Std.LawfulEqCmp.compare_eq_iff_eq] at hab
        rw [Option.some.injEq] at hl
        rw [← hl, hab]
    · exact h.listed b l hl
  · -- The address itself moves from the line to the listings.
    intro b
    have hb := h.queued b
    rw [List.mem_cons] at hb
    rw [Frontier.mem_queued_addAll, Frontier.mem_waiting_addAll, hmem]
    tauto
  · intro b hb
    exact (Frontier.mem_queued_addAll _).mpr (Or.inl (h.entered b hb))
  · -- The targets of the address are put into the line now, the others were before.
    intro b hb t ht hc
    rw [Frontier.mem_queued_addAll]
    rcases (hmem b).mp hb with rfl | hb
    · exact Or.inr ⟨ht, hc⟩
    · exact Or.inl (h.closed b hb t ht hc)
  · intro b hb
    rcases (Frontier.mem_queued_addAll _).mp hb with hb | ⟨ht, hc⟩
    · exact h.reached b hb
    · exact .target (h.reached a ha) ht hc

/-- The scan keeps what is known until nothing waits. -/
theorem scanned_scanFrom {found : Listings} {f : Frontier} (h : Scanned r m entries found f) :
    ∃ queued, Scanned r m entries (r.scanFrom m found f) ⟨queued, []⟩ := by
  -- Along the scan, which ends because ever less is outstanding.
  induction found, f using scanFrom.induct (r := r) (m := m) with
  | case1 found f hnil =>
      rcases f with ⟨queued, waiting⟩
      subst hnil
      unfold scanFrom
      exact ⟨queued, h⟩
  | case2 found f a rest hcons l ih =>
      rcases f with ⟨queued, waiting⟩
      subst hcons
      unfold scanFrom
      refine ih ?_
      rw [successors_listing]
      exact scanned_visit h

theorem scanned_scan (r : Revision) (m : Image) (entries : List UInt64) :
    ∃ queued, Scanned r m entries (r.scan m entries) ⟨queued, []⟩ :=
  scanned_scanFrom scanned_ofEntries

/-- What has a listing is what can be reached. -/
theorem mem_scan_iff (a : UInt64) : a ∈ r.scan m entries ↔ Reaches r m entries a := by
  rcases scanned_scan r m entries with ⟨queued, h⟩
  -- Nothing waits any more, so what was ever in line has a listing.
  have hqueued (b : UInt64) : b ∈ queued ↔ b ∈ r.scan m entries := by
    rw [h.queued b]
    simp only [List.not_mem_nil, or_false]
  constructor
  · intro ha
    exact h.reached a ((hqueued a).mpr ha)
  · intro ha
    rw [← hqueued]
    -- Step by step, each address is in line because the one before has a listing.
    induction ha with
    | entry ha => exact h.entered _ ha
    | target _ ht hc ih => exact h.closed _ ((hqueued _).mp ih) _ ht hc

/-- Each listing is that of its address. -/
theorem eq_listing_of_getElem?_scan {a : UInt64} {l : Listing}
    (h : (r.scan m entries)[a]? = some l) : l = r.listing m a := by
  rcases scanned_scan r m entries with ⟨_, hs⟩
  exact hs.listed a l h

theorem getElem?_scan_of_mem {a : UInt64} (h : a ∈ r.scan m entries) :
    (r.scan m entries)[a]? = some (r.listing m a) := by
  rw [Std.ExtTreeMap.getElem?_eq_some_getElem h,
    eq_listing_of_getElem?_scan (Std.ExtTreeMap.getElem?_eq_some_getElem h)]

/-- The scan finds the least set of addresses that contains the entry points and,
    with each address, the static targets in the image of the listing there; and
    it finds for each of them just that listing. -/
theorem isLeast_scan (r : Revision) (m : Image) (entries : List UInt64) :
    IsLeast {s : Set UInt64 | (∀ a ∈ entries, a ∈ s) ∧
        ∀ a ∈ s, ∀ e ∈ (r.listing m a).references, ∀ t, e.target? = some t →
          m.contains t = true → t ∈ s}
      {a | a ∈ r.scan m entries} ∧
    ∀ a l, (r.scan m entries)[a]? = some l → l = r.listing m a := by
  refine ⟨⟨⟨?_, ?_⟩, ?_⟩, fun a l => eq_listing_of_getElem?_scan⟩
  · intro a ha
    exact (mem_scan_iff a).mpr (.entry ha)
  · intro a ha e he t ht hc
    have htarget : t ∈ (r.listing m a).targets := List.mem_filterMap.mpr ⟨e, he, ht⟩
    exact (mem_scan_iff t).mpr (.target ((mem_scan_iff a).mp ha) htarget hc)
  · -- A set with these properties contains whatever can be reached.
    rintro s ⟨hentries, hclosed⟩ a ha
    induction (mem_scan_iff a).mp ha with
    | entry hb => exact hentries _ hb
    | target hb ht hc ih =>
        rcases List.mem_filterMap.mp ht with ⟨e, he, hte⟩
        exact hclosed _ (ih ((mem_scan_iff _).mpr hb)) e he _ hte hc

end Revision

end StackLift
