import Mathlib.Algebra.Group.Nat.Defs
import StackLift.Image

/-!
# Bytes of an Image

What a window shows and what can be retrieved.

A position within an image does not wrap around, an address does. Going forward
by fewer bytes than an image can hold, the two still agree: if the address that
is reached belongs to the image again, it lies just as far behind. That is what
lets stretches that follow one another be put together.

The one thing that can go wrong is that the image reaches past the last address.
A window that starts below it shows the bytes behind it all the same. But the
addresses where these bytes would have to be looked for are small ones again,
below the base, and nothing is seen there.

## Theorems

* `offset?_eq_some_iff`: Positions are distances from the base.
* `retrieve?_eq_some_iff`: What can be retrieved.
* `offset?_add`, `offset?_add_ofNat`: Positions go forward with their addresses.
* `retrieve?_append`: Two stretches one behind the other.
* `retrieve?_of_le_window`: What a window shows can be retrieved.
* `retrieve?_take`: Fewer bytes at the same address.
* `take_window_of_retrieve?`: What can be retrieved is seen through a window.
* `windows_agree`: Windows at different addresses show the same bytes, as long as
  these have an address.
-/

namespace StackLift

namespace Image

variable {m : Image} {a : UInt64} {o p n k limit : Nat} {xs ys : List UInt8}

theorem contains_iff : m.contains a = true ↔ ∃ o, m.offset? a = some o :=
  Option.isSome_iff_exists

/-- A position is the distance from the base, which an address of the image is not below. -/
theorem offset?_eq_some_iff : m.offset? a = some o ↔ o < m.size ∧ m.base.toNat + o = a.toNat := by
  have hbase := m.base.toNat_lt
  have ha := a.toNat_lt
  have hsub : (a - m.base).toNat = (2 ^ 64 - m.base.toNat + a.toNat) % 2 ^ 64 :=
    UInt64.toNat_sub ..
  unfold offset?
  by_cases h : m.base ≤ a ∧ (a - m.base).toNat < m.size
  · rw [if_pos h, Option.some.injEq]
    rw [UInt64.le_iff_toNat_le] at h
    omega
  · rw [if_neg h]
    rw [UInt64.le_iff_toNat_le] at h
    constructor
    · intro hnone
      contradiction
    · intro hsome
      omega

/-- Bytes are retrieved from a position of the image with so many behind it. -/
theorem retrieve?_eq_some_iff :
    m.retrieve? a n = some xs ↔
      ∃ o, m.offset? a = some o ∧ o + n ≤ m.size ∧ xs = (m.bytes.toList.drop o).take n := by
  unfold retrieve?
  cases ho : m.offset? a with
  | none => simp only [reduceCtorEq, false_and, exists_false]
  | some o =>
      simp only [Option.some.injEq, exists_eq_left', Array.toList_extract,
        List.extract_eq_take_drop, Nat.add_sub_cancel_left]
      by_cases hn : o + n ≤ m.size
      · rw [if_pos hn, Option.some.injEq]
        simp only [hn, true_and]
        exact eq_comm
      · rw [if_neg hn]
        simp only [reduceCtorEq, hn, false_and]

theorem lt_of_retrieve? (h : m.retrieve? a n = some xs) : n < 0x8000000000000000 := by
  rcases retrieve?_eq_some_iff.mp h with ⟨o, _, hle, _⟩
  have hsize : m.size < 0x8000000000000000 := m.size_lt
  omega

theorem length_of_retrieve? (h : m.retrieve? a n = some xs) : xs.length = n := by
  rcases retrieve?_eq_some_iff.mp h with ⟨o, _, hle, rfl⟩
  have hsize : m.bytes.toList.length = m.size := rfl
  rw [List.length_take, List.length_drop, hsize]
  omega

theorem base_add_of_offset? (ho : m.offset? a = some o) : m.base + UInt64.ofNat o = a := by
  unfold offset? at ho
  split at ho
  · cases ho
    rw [UInt64.ofNat_toNat, UInt64.add_comm, UInt64.sub_add_cancel]
  · contradiction

/-- An address that lies in the image again after going forward has gone forward
    just as far within the image. -/
theorem offset?_add (ho : m.offset? a = some o) (hn : n < 0x8000000000000000)
    (hp : m.offset? (a + UInt64.ofNat n) = some p) : p = o + n := by
  have hsize : m.size < 0x8000000000000000 := m.size_lt
  rw [offset?_eq_some_iff] at ho
  rw [offset?_eq_some_iff, UInt64.toNat_add, UInt64.toNat_ofNat'] at hp
  -- Both distances fit into a word, so the second address cannot have wrapped.
  omega

/-- A position further on has an address of its own, unless that would be past the last
    address. -/
theorem offset?_add_ofNat (ho : m.offset? a = some o) (hk : o + k < m.size) :
    m.offset? (a + UInt64.ofNat k) = if a.toNat + k < 2 ^ 64 then some (o + k) else none := by
  have hsize : m.size < 0x8000000000000000 := m.size_lt
  have hbase := (offset?_eq_some_iff.mp ho).2
  have haddress : (a + UInt64.ofNat k).toNat = (a.toNat + k) % 2 ^ 64 := by
    rw [UInt64.toNat_add, UInt64.toNat_ofNat']
    omega
  by_cases hlast : a.toNat + k < 2 ^ 64
  · rw [if_pos hlast, offset?_eq_some_iff, haddress]
    omega
  · rw [if_neg hlast]
    -- The address has wrapped, and has not got as far as the base.
    cases hp : m.offset? (a + UInt64.ofNat k) with
    | none => rfl
    | some p =>
        have hwrapped := (offset?_eq_some_iff.mp hp).2
        omega

/-- What can be retrieved from an address and from the address behind it can be
    retrieved in one piece. -/
theorem retrieve?_append (hx : m.retrieve? a n = some xs)
    (hy : m.retrieve? (a + UInt64.ofNat n) k = some ys) :
    m.retrieve? a (n + k) = some (xs ++ ys) := by
  have hn := lt_of_retrieve? hx
  rcases retrieve?_eq_some_iff.mp hx with ⟨o, ho, _, rfl⟩
  rcases retrieve?_eq_some_iff.mp hy with ⟨p, hp, hpk, rfl⟩
  -- The second stretch lies where the first one ends, also as a position.
  have hpo : p = o + n := offset?_add ho hn hp
  refine retrieve?_eq_some_iff.mpr ⟨o, ho, by omega, ?_⟩
  rw [List.take_add, List.drop_drop, hpo]

theorem length_window (ho : m.offset? a = some o) :
    (m.window a limit).length = min limit (m.size - o) := by
  rw [window_of_offset? ho, List.length_take, List.length_drop]
  rfl

theorem length_window_le_size : (m.window a limit).length ≤ m.size :=
  Nat.le_trans length_window_le (Nat.le_trans (Nat.min_le_right _ _) remaining_le)

/-- The bytes that a window shows can be retrieved, if there are any. -/
theorem retrieve?_of_le_window (hpos : 0 < n) (hn : n ≤ (m.window a limit).length) :
    m.retrieve? a n = some ((m.window a limit).take n) := by
  cases ho : m.offset? a with
  | none =>
      simp only [window, ho, List.length_nil] at hn
      omega
  | some o =>
      have hlt := offset?_lt ho
      rw [length_window ho] at hn
      refine retrieve?_eq_some_iff.mpr ⟨o, ho, by omega, ?_⟩
      rw [window_of_offset? ho, List.take_take, Nat.min_eq_left (by omega)]

/-- Where bytes can be retrieved, fewer can be as well. -/
theorem retrieve?_take (h : m.retrieve? a n = some xs) (hk : k ≤ n) :
    m.retrieve? a k = some (xs.take k) := by
  rcases retrieve?_eq_some_iff.mp h with ⟨o, ho, hle, rfl⟩
  refine retrieve?_eq_some_iff.mpr ⟨o, ho, by omega, ?_⟩
  rw [List.take_take, Nat.min_eq_left hk]

/-- The bytes that can be retrieved are at the front of any window that is not shorter. -/
theorem take_window_of_retrieve? (h : m.retrieve? a n = some xs) (hn : n ≤ limit) :
    (m.window a limit).take n = xs := by
  rcases retrieve?_eq_some_iff.mp h with ⟨o, ho, _, rfl⟩
  rw [window_of_offset? ho, List.take_take, Nat.min_eq_left hn]

theorem getElem?_window (ho : m.offset? a = some o) (hk : k < limit) :
    (m.window a limit)[k]? = m.bytes.toList[o + k]? := by
  rw [window_of_offset? ho, List.getElem?_take_of_lt hk, List.getElem?_drop]

/-- What can be retrieved is what a window shows that is not cut short. -/
theorem retrieve?_eq_some_iff_window :
    m.retrieve? a n = some xs ↔ m.contains a = true ∧ m.window a n = xs ∧ xs.length = n := by
  rw [retrieve?_eq_some_iff, contains_iff]
  constructor
  · rintro ⟨o, ho, hle, rfl⟩
    rw [← window_of_offset? ho, length_window ho]
    exact ⟨⟨o, ho⟩, rfl, by omega⟩
  · rintro ⟨⟨o, ho⟩, rfl, hlength⟩
    rw [length_window ho] at hlength
    have hlt := offset?_lt ho
    exact ⟨o, ho, by omega, window_of_offset? ho⟩

/-- The bytes that a window shows belong to the image at their own addresses and are seen
    there through every window, up to the last address. What a window shows of the image past
    the last address is seen nowhere else. And what can be retrieved is what a window shows
    that is not cut short. -/
theorem windows_agree (m : Image) (a : UInt64) (n : Nat) :
    (∀ k < (m.window a n).length,
      (m.contains (a + UInt64.ofNat k) = true ↔ a.toNat + k < 2 ^ 64) ∧
      ∀ limit, 1 ≤ limit → (m.window (a + UInt64.ofNat k) limit).head? =
        if a.toNat + k < 2 ^ 64 then (m.window a n)[k]? else none) ∧
    ∀ xs, m.retrieve? a n = some xs ↔
      m.contains a = true ∧ m.window a n = xs ∧ xs.length = n := by
  refine ⟨?_, fun xs => retrieve?_eq_some_iff_window⟩
  intro k hk
  -- A window shows something only where the address belongs to the image.
  cases ho : m.offset? a with
  | none =>
      rw [window, ho] at hk
      contradiction
  | some o =>
      rw [length_window ho] at hk
      have hoffset := offset?_add_ofNat (k := k) ho (by omega)
      by_cases hlast : a.toNat + k < 2 ^ 64
      · rw [if_pos hlast] at hoffset
        refine ⟨iff_of_true (contains_iff.mpr ⟨o + k, hoffset⟩) hlast, fun limit hlimit => ?_⟩
        rw [if_pos hlast, List.head?_eq_getElem?, getElem?_window hoffset hlimit,
          getElem?_window ho (by omega), Nat.add_zero]
      · rw [if_neg hlast] at hoffset
        refine ⟨iff_of_false ?_ hlast, fun limit _ => ?_⟩
        · rw [contains, hoffset]
          exact Bool.false_ne_true
        · rw [if_neg hlast, window, hoffset]
          rfl

/-- The second byte of an image that starts at the last address. -/
theorem not_contains_second :
    let m : Image := ⟨0xffffffffffffffff, #[0x60, 0x4e], by decide⟩
    m.contains m.base = true ∧ m.window m.base 2 = [0x60, 0x4e] ∧
      m.contains (m.base + UInt64.ofNat 1) = false ∧
      m.window (m.base + UInt64.ofNat 1) 1 = [] := by
  decide

end Image

end StackLift
