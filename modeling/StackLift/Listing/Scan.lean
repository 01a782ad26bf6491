import StackLift.Listing.Basic

/-!
# Scans

Everything that can be reached from a set of entry points: the listing at each
of them, and at each place in the image where the code of a listing may
continue. Edges that leave the image, and edges without a known target, end
there.

The walk keeps a line of addresses that wait for their listing, and never puts
an address into the line twice. That is why it ends. Every step takes one
address out of the line, and each address put in is one of the image's that was
not in line before, so what waits and what may still come shrink together.

## Main definitions

* `Frontier`: The addresses that wait, and those that ever did.
* `Frontier.add`: A further address, unless it is outside or was there before.
* `Frontier.outstanding`: How many addresses wait or may still come.
* `Revision.scan`: The listings that can be reached, by their addresses.

## Theorems

* `outstanding_addAll_le`: Putting addresses into the line leaves no more to do.
-/

namespace StackLift

/-- The addresses a scan still has to look at, and those it ever had to. -/
structure Frontier where
  /-- Every address that was ever put into the line. -/
  queued : Std.ExtTreeSet UInt64
  /-- The line. -/
  waiting : List UInt64

namespace Image

/-- The addresses of the image's bytes, those past the last address included. -/
def addresses (m : Image) : List UInt64 :=
  (List.range m.size).map fun o => m.base + UInt64.ofNat o

theorem mem_addresses {m : Image} {a : UInt64} (h : m.contains a = true) : a ∈ m.addresses := by
  simp only [contains, offset?] at h
  split at h
  · next hc =>
    refine List.mem_map.mpr ⟨(a - m.base).toNat, List.mem_range.mpr hc.2, ?_⟩
    rw [UInt64.ofNat_toNat, UInt64.add_comm, UInt64.sub_add_cancel]
  · contradiction

end Image

namespace Frontier

/-- The entry points in line, each once. -/
def ofEntries (entries : List UInt64) : Frontier :=
  let queued := Std.ExtTreeSet.ofList entries
  ⟨queued, queued.toList⟩

/-- The line with a further address, if it belongs to the image and was never in
    line before. -/
def add (m : Image) (f : Frontier) (a : UInt64) : Frontier :=
  if m.contains a ∧ a ∉ f.queued then ⟨f.queued.insert a, a :: f.waiting⟩ else f

/-- How many addresses wait in line or may still be put there. -/
def outstanding (m : Image) (f : Frontier) : Nat :=
  m.addresses.countP (· ∉ f.queued) + f.waiting.length

end Frontier

/-- A condition that is stronger, and fails at an element where the other holds,
    holds less often. -/
theorem countP_lt_of_imp {α : Type} {p q : α → Bool} {a : α} {l : List α}
    (himp : ∀ x, q x = true → p x = true) (ha : a ∈ l) (hp : p a = true) (hq : q a = false) :
    l.countP q < l.countP p := by
  induction l with
  | nil => contradiction
  | cons b l ih =>
    have hle : l.countP q ≤ l.countP p := List.countP_mono_left fun x _ => himp x
    rcases List.mem_cons.mp ha with rfl | hmem
    · simp only [List.countP_cons, hp, hq]
      simp only [Bool.false_eq_true, if_false, if_true]
      omega
    · have hb := himp b
      have := ih hmem
      simp only [List.countP_cons]
      split <;> split <;> first | omega | simp_all

namespace Frontier

variable {m : Image} {f : Frontier}

theorem outstanding_add_le (a : UInt64) : (f.add m a).outstanding m ≤ f.outstanding m := by
  unfold add
  split
  · next h =>
    have : m.addresses.countP (· ∉ f.queued.insert a) < m.addresses.countP (· ∉ f.queued) := by
      refine countP_lt_of_imp (fun x hx => ?_) (Image.mem_addresses h.1) ?_ ?_
      · simp only [decide_eq_true_eq, Std.ExtTreeSet.mem_insert, not_or] at hx ⊢
        exact hx.2
      · simpa using h.2
      · simp
    simp only [outstanding, List.length_cons]
    omega
  · exact Nat.le_refl _

/-- Putting addresses into the line leaves no more to do. -/
theorem outstanding_addAll_le (as : List UInt64) :
    (as.foldl (add m) f).outstanding m ≤ f.outstanding m := by
  induction as generalizing f with
  | nil => exact Nat.le_refl _
  | cons a as ih => exact Nat.le_trans ih (outstanding_add_le a)

end Frontier

/-- Listings by the address they start at. -/
abbrev Listings := Std.ExtTreeMap UInt64 Listing

namespace Revision

/-- The listings found so far, with those of every address in line and of
    whatever can be reached from there. -/
def scanFrom (r : Revision) (m : Image) (found : Listings) (f : Frontier) : Listings :=
  match _h : f.waiting with
  | [] => found
  | a :: rest =>
    let l := r.listing m a
    r.scanFrom m (found.insert a l) (l.successors.foldl (Frontier.add m) ⟨f.queued, rest⟩)
termination_by f.outstanding m
decreasing_by
  refine Nat.lt_of_le_of_lt (Frontier.outstanding_addAll_le _) ?_
  simp only [Frontier.outstanding, _h, List.length_cons]
  omega

/-- The listings that can be reached from the entry points, by their
    addresses. -/
def scan (r : Revision) (m : Image) (entries : List UInt64) : Listings :=
  r.scanFrom m ∅ (.ofEntries entries)

end Revision

end StackLift
