import StackLift.Proofs.Listing.Scan
import StackLift.Proofs.Listing.Walk

/-!
# Rounds of a Walk and of a Scan

Both loops over the code of an image recurse on a measure. That they end is no theorem
therefore, but after how many rounds they do is. So they are stated once more with a
number of rounds, where `none` says that these were not enough, and need no measure
any more: either they come to their end in time or they do not.

For the walk, addresses do not show it. They wrap around, and behind an instruction at
the end of the address space there are smaller ones. What is left of the image shows
it, since an image does not wrap around with them. For the scan nothing in the code
shows it: a block may lead to itself, back, or into the middle of an instruction, and
the line grows while it is worked off. What becomes less are the addresses that were
never in line. No address stands in line twice, so none is taken out twice, and all
that is ever put there beyond the entry points belongs to the image.

## Main definitions

* `Run.rounds`: The rounds it takes to find a run.
* `Frontier.Orderly`: What holds of the line and of the addresses taken out of it.
* `Revision.straightLineWithin`: The walk, if it takes so many rounds at most.
* `Revision.scanWithin`: The scan, if it takes so many rounds at most, with the
  addresses that it takes out of the line.

## Theorems

* `straightLineWithin_eq`: How many rounds a walk takes.
* `rounds_le`: At most one for each byte that is left of the image, and one more.
* `cases_of_scanWithin`: What a scan has done when it comes to its end.
* `exists_scanWithin`: A scan ends when all that was outstanding is worked off.
* `mem_iff_of_scanWithin`: The addresses taken out are those that get a listing.
* `nodup_of_scanWithin`: No address is taken out twice.
* `walks_end`: Both loops end, after a number of rounds that is known beforehand.
-/

namespace StackLift

namespace Run

/-- The rounds it takes to find a run: one for each instruction, and one more if it is only then
    that nothing can be decoded. -/
def rounds (run : Run) : Nat := run.instructions.length + run.error.toList.length

theorem rounds_cons (i : Instruction) (rest : Run) :
    rounds ⟨i :: rest.instructions, rest.error⟩ = rest.rounds + 1 :=
  Nat.add_right_comm ..

end Run

namespace Frontier

variable {f : Frontier} {taken : List UInt64}

/-- Neither the addresses that were taken out of the line nor those in it repeat themselves, and
    together they are all that were ever in line. -/
structure Orderly (taken : List UInt64) (f : Frontier) : Prop where
  nodup : (taken ++ f.waiting).Nodup
  queued : ∀ a, a ∈ f.queued ↔ a ∈ taken ++ f.waiting

theorem Orderly.add (h : Orderly taken f) (m : Image) (a : UInt64) :
    Orderly taken (f.add m a) := by
  unfold Frontier.add
  by_cases hnew : m.contains a = true ∧ a ∉ f.queued
  · rw [if_pos hnew]
    refine ⟨?_, fun b => ?_⟩
    · rw [List.nodup_middle, List.nodup_cons, ← h.queued]
      exact ⟨hnew.2, h.nodup⟩
    · rw [Std.ExtTreeSet.mem_insert, Std.LawfulEqCmp.compare_eq_iff_eq, h.queued, List.mem_append,
        List.mem_append, List.mem_cons]
      tauto
  · rw [if_neg hnew]
    exact h

theorem Orderly.addAll (h : Orderly taken f) (m : Image) (as : List UInt64) :
    Orderly taken (as.foldl (Frontier.add m) f) := by
  induction as generalizing f with
  | nil => exact h
  | cons a as ih => exact ih (h.add m a)

/-- Taking an address out of the line. -/
theorem Orderly.take {queued : Std.ExtTreeSet UInt64} {a : UInt64} {rest : List UInt64}
    (h : Orderly taken ⟨queued, a :: rest⟩) : Orderly (taken ++ [a]) ⟨queued, rest⟩ where
  nodup := by
    rw [← List.append_cons]
    exact h.nodup
  queued b := by
    rw [← List.append_cons]
    exact h.queued b

theorem orderly_ofEntries (entries : List UInt64) : Orderly [] (ofEntries entries) := by
  refine ⟨?_, fun a => ?_⟩
  · have hdistinct := (Std.ExtTreeSet.ofList entries).distinct_toList
    refine hdistinct.imp fun hne heq => hne ?_
    rw [heq, Std.LawfulEqCmp.compare_eq_iff_eq]
  · rw [List.nil_append, ofEntries, Std.ExtTreeSet.mem_toList]

theorem outstanding_ofEntries_le (m : Image) (entries : List UInt64) :
    (ofEntries entries).outstanding m ≤ m.size + entries.length := by
  have hwaiting : (Std.ExtTreeSet.ofList entries).toList.length ≤ entries.length := by
    rw [Std.ExtTreeSet.length_toList]
    exact Std.ExtTreeSet.size_ofList_le
  have himage : m.addresses.length = m.size := by
    rw [Image.addresses, List.length_map, List.length_range]
  rw [outstanding, ofEntries, ← himage]
  exact Nat.add_le_add List.countP_le_length hwaiting

end Frontier

namespace Revision

/-- The run at an address, if so many rounds are enough to come to its end. In one round an
    instruction is decoded, or found missing. -/
def straightLineWithin (r : Revision) (m : Image) : Nat → UInt64 → Option Run
  | 0, _ => none
  | n + 1, a => match r.decodeAt m a with
    | .error e => some ⟨[], some e⟩
    | .ok i =>
      if i.flow.staysInBlock then
        (r.straightLineWithin m n i.next).map fun rest => ⟨i :: rest.instructions, rest.error⟩
      else some ⟨[i], none⟩

/-- The addresses that a scan takes out of the line, in that order, and the listings it has in
    the end, if so many rounds are enough until nothing waits. In one round one address is
    taken out. -/
def scanWithin (r : Revision) (m : Image) :
    Nat → Listings → Frontier → Option (List UInt64 × Listings)
  | 0, found, f => if f.waiting = [] then some ([], found) else none
  | n + 1, found, f => match f.waiting with
    | [] => some ([], found)
    | a :: rest =>
      let l := r.listing m a
      (r.scanWithin m n (found.insert a l)
        (l.successors.foldl (Frontier.add m) ⟨f.queued, rest⟩)).map fun (as, ls) => (a :: as, ls)

variable {r : Revision} {m : Image} {a b : UInt64} {run : Run} {n : Nat} {found ls : Listings}
  {f : Frontier} {as rest taken entries : List UInt64}

namespace Walk

/-- As many rounds as a walk takes are enough, and fewer are not. -/
theorem straightLineWithin_eq (h : Walk r m a run) (n : Nat) :
    r.straightLineWithin m n a = if run.rounds ≤ n then some run else none := by
  induction h generalizing n with
  | @stop a e hi =>
      have hrounds : Run.rounds ⟨[], some e⟩ = 1 := rfl
      cases n with
      | zero => rw [straightLineWithin, if_neg (by omega)]
      | succ n => rw [straightLineWithin, hi, if_pos (by omega)]
  | @last a i hi hs =>
      have hrounds : Run.rounds ⟨[i], none⟩ = 1 := rfl
      cases n with
      | zero => rw [straightLineWithin, if_neg (by omega)]
      | succ n =>
          rw [straightLineWithin, hi, if_pos (by omega)]
          simp only [hs, Bool.false_eq_true, if_false]
  | @step a i rest hi hs _ ih =>
      have hrounds := Run.rounds_cons i rest
      cases n with
      | zero => rw [straightLineWithin, if_neg (by omega)]
      | succ n =>
          rw [straightLineWithin, hi]
          simp only [hs, if_true]
          rw [ih]
          by_cases hn : rest.rounds ≤ n
          · rw [if_pos hn, if_pos (by omega), Option.map_some]
          · rw [if_neg hn, if_neg (by omega), Option.map_none]

/-- A walk takes at most one round for each byte that is left of the image, and one more. -/
theorem rounds_le (h : Walk r m a run) : run.rounds ≤ m.remaining a + 1 := by
  induction h with
  | stop _ => exact Nat.le_add_left 1 _
  | last _ _ => exact Nat.le_add_left 1 _
  | @step a i rest hi _ _ ih =>
      -- Each instruction leaves less of the image, also where its address has wrapped.
      have hless := remaining_next_lt hi
      rw [Run.rounds_cons]
      omega

end Walk

theorem scanWithin_of_waiting_eq_nil (hf : f.waiting = []) :
    r.scanWithin m n found f = some ([], found) := by
  cases n with
  | zero => rw [scanWithin, if_pos hf]
  | succ n => rw [scanWithin, hf]

theorem scanWithin_succ (hf : f.waiting = a :: rest) :
    r.scanWithin m (n + 1) found f =
      (r.scanWithin m n (found.insert a (r.listing m a))
        ((r.listing m a).successors.foldl (Frontier.add m) ⟨f.queued, rest⟩)).map
          fun (as, ls) => (a :: as, ls) := by
  rw [scanWithin, hf]

/-- What a scan that comes to its end can have done: nothing, since nothing waits, or one round
    and the rest. -/
theorem cases_of_scanWithin (h : r.scanWithin m n found f = some (as, ls)) :
    (f.waiting = [] ∧ as = [] ∧ ls = found) ∨
      ∃ k a rest as', f.waiting = a :: rest ∧ n = k + 1 ∧ as = a :: as' ∧
        r.scanWithin m k (found.insert a (r.listing m a))
          ((r.listing m a).successors.foldl (Frontier.add m) ⟨f.queued, rest⟩) =
            some (as', ls) := by
  cases hf : f.waiting with
  | nil =>
      rw [scanWithin_of_waiting_eq_nil hf] at h
      cases h
      exact Or.inl ⟨rfl, rfl, rfl⟩
  | cons a rest =>
      cases n with
      | zero =>
          rw [scanWithin, hf, if_neg (List.cons_ne_nil a rest)] at h
          contradiction
      | succ k =>
          rw [scanWithin_succ hf, Option.map_eq_some_iff] at h
          rcases h with ⟨⟨as', ls'⟩, hrest, heq⟩
          cases heq
          exact Or.inr ⟨k, a, rest, as', rfl, rfl, rfl, hrest⟩

/-- A round leaves less to do. -/
theorem outstanding_visit_lt (hf : f.waiting = a :: rest) :
    ((r.listing m a).successors.foldl (Frontier.add m) ⟨f.queued, rest⟩).outstanding m <
      f.outstanding m := by
  refine Nat.lt_of_le_of_lt (Frontier.outstanding_addAll_le _) ?_
  simp only [Frontier.outstanding, hf, List.length_cons]
  omega

theorem scanFrom_of_waiting_eq_nil (hf : f.waiting = []) : r.scanFrom m found f = found := by
  rcases f with ⟨queued, waiting⟩
  subst hf
  unfold scanFrom
  rfl

theorem scanFrom_of_waiting_eq_cons (hf : f.waiting = a :: rest) :
    r.scanFrom m found f = r.scanFrom m (found.insert a (r.listing m a))
      ((r.listing m a).successors.foldl (Frontier.add m) ⟨f.queued, rest⟩) := by
  rcases f with ⟨queued, waiting⟩
  subst hf
  conv_lhs => unfold scanFrom

/-- As many rounds as addresses wait or may still be put into the line are enough. -/
theorem exists_scanWithin (found : Listings) (hn : f.outstanding m ≤ n) :
    ∃ as, r.scanWithin m n found f = some (as, r.scanFrom m found f) := by
  induction n generalizing found f with
  | zero =>
      have hnil : f.waiting = [] := by
        rw [← List.length_eq_zero_iff]
        rw [Frontier.outstanding] at hn
        omega
      refine ⟨[], ?_⟩
      rw [scanWithin_of_waiting_eq_nil hnil, scanFrom_of_waiting_eq_nil hnil]
  | succ n ih =>
      cases hf : f.waiting with
      | nil =>
          refine ⟨[], ?_⟩
          rw [scanWithin_of_waiting_eq_nil hf, scanFrom_of_waiting_eq_nil hf]
      | cons a rest =>
          -- The round leaves so much less to do that one round less is enough for it.
          have hless := outstanding_visit_lt (r := r) (m := m) hf
          have hbound := Nat.le_of_lt_succ (Nat.lt_of_lt_of_le hless hn)
          rcases ih (found.insert a (r.listing m a)) hbound with ⟨as, hrest⟩
          refine ⟨a :: as, ?_⟩
          rw [scanWithin_succ hf, scanFrom_of_waiting_eq_cons hf, hrest, Option.map_some]

/-- The addresses taken out are those that have got a listing in the meantime. -/
theorem mem_iff_of_scanWithin (h : r.scanWithin m n found f = some (as, ls)) :
    b ∈ ls ↔ b ∈ found ∨ b ∈ as := by
  induction n using Nat.strong_induction_on generalizing found f as with
  | _ n ih =>
      rcases cases_of_scanWithin h with ⟨_, rfl, rfl⟩ | ⟨k, a, rest, as', _, rfl, rfl, hrest⟩
      · simp only [List.not_mem_nil, or_false]
      · rw [ih k (Nat.lt_succ_self k) hrest, Std.ExtTreeMap.mem_insert,
          Std.LawfulEqCmp.compare_eq_iff_eq, List.mem_cons, eq_comm, or_comm (a := b = a), or_assoc]

/-- No address is taken out twice, nor one that was taken out before. -/
theorem nodup_of_scanWithin (h : Frontier.Orderly taken f)
    (hscan : r.scanWithin m n found f = some (as, ls)) : (taken ++ as).Nodup := by
  induction n using Nat.strong_induction_on generalizing found f as taken with
  | _ n ih =>
      rcases cases_of_scanWithin hscan with
        ⟨hnil, rfl, _⟩ | ⟨k, a, rest, as', hcons, rfl, rfl, hrest⟩
      · rw [← hnil]
        exact h.nodup
      · rcases f with ⟨queued, waiting⟩
        subst hcons
        rw [List.append_cons]
        exact ih k (Nat.lt_succ_self k) (h.take.addAll m _) hrest

theorem Reaches.mem_or_contains (h : Reaches r m entries a) :
    a ∈ entries ∨ m.contains a = true := by
  cases h with
  | entry ha => exact Or.inl ha
  | target _ _ hm => exact Or.inr hm

/-- Both loops end, whatever the bytes of the image say. The walk is over after one round for
    each byte of the image and one more. The scan is over after one round for each byte of the
    image and each entry point: it takes every address that gets a listing out of the line just
    once, and no others, and each of them is an entry point or belongs to the image. -/
theorem walks_end (r : Revision) (m : Image) :
    (∀ a, r.straightLineWithin m (m.size + 1) a = some (r.straightLine m a)) ∧
    ∀ entries, ∃ as,
      r.scanWithin m (m.size + entries.length) ∅ (.ofEntries entries) =
        some (as, r.scan m entries) ∧
      as.Nodup ∧ (∀ a ∈ as, a ∈ entries ∨ m.contains a = true) ∧
      ∀ a, a ∈ as ↔ a ∈ r.scan m entries := by
  refine ⟨fun a => ?_, fun entries => ?_⟩
  · have hwalk := walk_straightLine r m a
    have hrounds := hwalk.rounds_le
    have hleft : m.remaining a ≤ m.size := Image.remaining_le
    rw [hwalk.straightLineWithin_eq, if_pos (by omega)]
  · have hbound := Frontier.outstanding_ofEntries_le m entries
    rcases exists_scanWithin (r := r) ∅ hbound with ⟨as, hscan⟩
    have hmem (a : UInt64) : a ∈ as ↔ a ∈ r.scan m entries := by
      rw [scan, mem_iff_of_scanWithin hscan]
      simp only [Std.ExtTreeMap.not_mem_empty, false_or]
    refine ⟨as, hscan, nodup_of_scanWithin (Frontier.orderly_ofEntries entries) hscan, ?_, hmem⟩
    intro a ha
    exact ((mem_scan_iff a).mp ((hmem a).mp ha)).mem_or_contains

end Revision

end StackLift
