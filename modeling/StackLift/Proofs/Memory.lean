import StackLift.Machine.Memory
import StackLift.Proofs.Word

/-!
# Memory by Addresses

What reading and writing amount to at each single address.

`Memory.read` and `Memory.write` go through a byte sequence, address after
address, and the addresses wrap around. What a write leaves behind is easier to
see from the other end: the address at distance `k` from the start holds the
byte at position `k` of the sequence, and every other address holds what it held
before. The distance is a difference of words, so an address below the start may
well be at the end of the sequence. It takes a sequence of more than 2^64 bytes
to meet an address twice.

A word has eight bytes. Where more are written, they come once more from the lowest on, so
what counts is the distance modulo eight.

Several accesses may overlap. The byte at an address is then that of the last access which
covers it, and no earlier one matters.

## Main definitions

* `Access`: The low bytes of a value from an address on.
* `lastByte?`: The byte that was last written to an address.

## Theorems

* `cell?_write`: What a write leaves at an address.
* `cell?_store`: The same, for the low bytes of a word.
* `read_eq_map`: A read collects the bytes at growing distances.
* `load_eq_ofNat`: A load is the value of these bytes as digits.
* `toNat_load`: The same, place by place.
* `wasWritten_iff`: Whether something was written in a range.
* `toNat_load_of_covers`: Loading what an access has left.
* `load_store`: Loading a word that has been stored.
-/

namespace StackLift

/-- The low `width` bytes of a value, written from an address on. Behind the eighth they come
    once more. -/
structure Access where
  address : UInt64
  width : UInt64
  value : UInt64
deriving DecidableEq, Repr

namespace Access

variable {x : Access} {a : UInt64}

/-- The access writes to an address. The distance is a difference of words, since an access
    may lie across the end of the address space. -/
def Covers (x : Access) (a : UInt64) : Prop := a - x.address < x.width

instance (x : Access) (a : UInt64) : Decidable (x.Covers a) :=
  inferInstanceAs (Decidable (a - x.address < x.width))

/-- What the access writes to an address: the byte of the value at that distance. -/
def byte? (x : Access) (a : UInt64) : Option UInt8 :=
  if x.Covers a then some (UInt8.ofNat (x.value.toNat / 256 ^ ((a - x.address).toNat % 8)))
  else none

theorem byte?_of_covers (h : x.Covers a) :
    x.byte? a = some (UInt8.ofNat (x.value.toNat / 256 ^ ((a - x.address).toNat % 8))) := if_pos h

theorem byte?_of_not_covers (h : ¬x.Covers a) : x.byte? a = none := if_neg h

theorem isSome_byte?_iff : (x.byte? a).isSome ↔ x.Covers a := by
  by_cases h : x.Covers a
  · rw [byte?_of_covers h]
    exact iff_of_true rfl h
  · rw [byte?_of_not_covers h]
    exact iff_of_false Bool.false_ne_true h

/-- The bytes of the value come one after the other, from the start of the access on. -/
theorem byte?_address_add {k : Nat} (hk : k < x.width.toNat) :
    x.Covers (x.address + UInt64.ofNat k) ∧
      x.byte? (x.address + UInt64.ofNat k) =
        some (UInt8.ofNat (x.value.toNat / 256 ^ (k % 8))) := by
  have hdistance : x.address + UInt64.ofNat k - x.address = UInt64.ofNat k := by
    rw [UInt64.add_comm, UInt64.add_sub_cancel]
  have htoNat : (UInt64.ofNat k).toNat = k :=
    UInt64.toNat_ofNat_of_lt' (Nat.lt_trans hk x.width.toNat_lt)
  have hcovers : x.Covers (x.address + UInt64.ofNat k) := by
    rw [Covers, hdistance, UInt64.lt_iff_toNat_lt, htoNat]
    exact hk
  refine ⟨hcovers, ?_⟩
  rw [byte?_of_covers hcovers, hdistance, htoNat]

end Access

/-- The byte that was last written to an address. -/
def lastByte? (log : List Access) (a : UInt64) : Option UInt8 :=
  log.reverse.findSome? (·.byte? a)

theorem lastByte?_singleton (x : Access) (a : UInt64) : lastByte? [x] a = x.byte? a :=
  List.findSome?_singleton

theorem lastByte?_append (xs ys : List Access) (a : UInt64) :
    lastByte? (xs ++ ys) a = (lastByte? ys a).or (lastByte? xs a) := by
  rw [lastByte?, List.reverse_append, List.findSome?_append]
  rfl

theorem isSome_lastByte?_iff {log : List Access} {a : UInt64} :
    (lastByte? log a).isSome ↔ ∃ x ∈ log, x.Covers a := by
  rw [lastByte?, List.findSome?_isSome_iff]
  simp only [List.mem_reverse, Access.isSome_byte?_iff]

namespace Memory

/-- A memory is what it holds at each address. -/
theorem ext_cell? {m n : Memory} (h : ∀ a : UInt64, m.cell? a = n.cell? a) : m = n := by
  cases m with
  | mk ms =>
      cases n with
      | mk ns => exact congrArg mk (Std.ExtHashMap.ext_getElem? h)

theorem byte_eq_getD (m : Memory) (a : UInt64) : m.byte a = (m.cell? a).getD 0 :=
  Std.ExtHashMap.getD_eq_getD_getElem?

theorem cell?_set (m : Memory) (a b : UInt64) (v : UInt8) :
    (m.set a v).cell? b = if a = b then some v else m.cell? b := by
  rw [cell?, set, Std.ExtHashMap.getElem?_insert]
  simp only [beq_iff_eq, cell?]

theorem toNat_sub_succ {a b : UInt64} (h : a ≠ b) :
    (b - a).toNat = (b - (a + 1)).toNat + 1 := by
  have hne : a.toNat ≠ b.toNat := fun hc => h (UInt64.toNat_inj.mp hc)
  have ha : a.toNat < 2 ^ 64 := a.toNat_lt
  have hb : b.toNat < 2 ^ 64 := b.toNat_lt
  simp only [UInt64.toNat_sub, UInt64.toNat_add, UInt64.reduceToNat]
  omega

/-- What a write leaves at an address: the byte at that distance from the start,
    or what was there before. -/
theorem cell?_write (m : Memory) (a b : UInt64) (bs : List UInt8) (h : bs.length ≤ 2 ^ 64) :
    (m.write a bs).cell? b = bs[(b - a).toNat]?.or (m.cell? b) := by
  -- Along the bytes: the first is written, and then the rest over it.
  induction bs generalizing m a with
  | nil => simp only [write, List.getElem?_nil, Option.none_or]
  | cons x xs ih =>
      have hlen : xs.length + 1 ≤ 2 ^ 64 := by simpa only [List.length_cons] using h
      rw [write, ih (m.set a x) (a + 1) (by omega)]
      by_cases hab : a = b
      · -- The address is met once: its distance from the rest is the greatest there is.
        have hfar : xs.length ≤ (b - (a + 1)).toNat := by
          have hb : b.toNat < 2 ^ 64 := b.toNat_lt
          simp only [hab, UInt64.toNat_sub, UInt64.toNat_add, UInt64.reduceToNat]
          omega
        have hnear : (b - a).toNat = 0 := by rw [hab, UInt64.sub_self, UInt64.toNat_zero]
        rw [List.getElem?_eq_none hfar, hnear, List.getElem?_cons_zero, Option.none_or,
          Option.some_or, hab, cell?_set, if_pos rfl]
      · have hset : (m.set a x).cell? b = m.cell? b := by
          rw [cell?_set, if_neg hab]
        rw [hset, toNat_sub_succ hab, List.getElem?_cons_succ]

/-- What storing a word leaves at an address: its digit at that distance from the
    start, or what was there before. -/
theorem cell?_store (m : Memory) (a b width value : UInt64) :
    (m.store a width value).cell? b =
      if b - a < width then some (UInt8.ofNat (value.toNat / 256 ^ ((b - a).toNat % 8)))
      else m.cell? b := by
  have hwidth : width.toNat < 2 ^ 64 := width.toNat_lt
  rw [store, cell?_write m a b _ (by rw [Word.length_toBytes]; omega)]
  -- Within the width there is a digit of the word, beyond it no byte is written.
  by_cases h : b - a < width
  · have hlt : (b - a).toNat < (Word.toBytes width.toNat value).length := by
      rw [Word.length_toBytes]
      exact UInt64.lt_iff_toNat_lt.mp h
    rw [if_pos h, List.getElem?_eq_getElem hlt, Word.getElem_toBytes hlt, Option.some_or]
  · have hge : (Word.toBytes width.toNat value).length ≤ (b - a).toNat := by
      rw [Word.length_toBytes]
      exact Nat.le_of_not_lt fun hc => h (UInt64.lt_iff_toNat_lt.mpr hc)
    rw [if_neg h, List.getElem?_eq_none hge, Option.none_or]

theorem cell?_store_access (m : Memory) (x : Access) (a : UInt64) :
    (m.store x.address x.width x.value).cell? a = (x.byte? a).or (m.cell? a) := by
  have hstore := m.cell?_store x.address a x.width x.value
  by_cases h : x.Covers a
  · rw [hstore.trans (if_pos h), Access.byte?_of_covers h, Option.some_or]
  · rw [hstore.trans (if_neg h), Access.byte?_of_not_covers h, Option.none_or]

theorem add_ofNat_succ (a : UInt64) (k : Nat) :
    a + UInt64.ofNat (k + 1) = a + 1 + UInt64.ofNat k := by
  rw [UInt64.ofNat_add, UInt64.add_assoc, UInt64.add_comm 1]
  rfl

/-- A read collects the bytes at growing distances from the start. -/
theorem read_eq_map (m : Memory) (a : UInt64) (n : Nat) :
    m.read a n = (List.range n).map fun k => m.byte (a + UInt64.ofNat k) := by
  induction n generalizing a with
  | zero => rfl
  | succ n ih =>
      rw [read, ih (a + 1), List.range_succ_eq_map, List.map_cons, List.map_map]
      refine congrArg₂ List.cons ?_ (List.map_congr_left fun k _ => ?_)
      · exact congrArg m.byte (UInt64.add_zero a).symm
      · rw [Function.comp_apply, Nat.succ_eq_add_one, add_ofNat_succ]

/-- A load of eight bytes at most takes all of them into account. -/
theorem load_eq_ofBytes (m : Memory) (a : UInt64) {width : UInt64} (h : width ≤ 8) :
    m.load a width = Word.ofBytes (m.read a width.toNat) := by
  have hmin : min width.toNat 8 = width.toNat := Nat.min_eq_left (UInt64.le_iff_toNat_le.mp h)
  rw [load, hmin]

/-- A load is the value of the bytes from the address on, as digits. -/
theorem load_eq_ofNat (m : Memory) (a width : UInt64) :
    m.load a width = UInt64.ofNat (Nat.ofDigits 256
      ((List.range (min width.toNat 8)).map fun k => (m.byte (a + UInt64.ofNat k)).toNat)) := by
  refine UInt64.toNat_inj.mp ?_
  rw [load, Word.toNat_ofBytes, UInt64.toNat_ofNat', read_eq_map, List.map_map]
  rfl

/-- A load is the sum of the bytes from the address on, each at its place. -/
theorem toNat_load (m : Memory) (a : UInt64) {width : UInt64} (h : width ≤ 8) :
    (m.load a width).toNat = ∑ k ∈ Finset.range width.toNat,
      ((m.cell? (a + UInt64.ofNat k)).getD 0).toNat * 256 ^ k := by
  have hlength : (m.read a width.toNat).length = width.toNat := by
    rw [read_eq_map, List.length_map, List.length_range]
  have hle : (m.read a width.toNat).length ≤ 8 := by
    rw [hlength]
    exact UInt64.le_iff_toNat_le.mp h
  rw [load_eq_ofBytes m a h, Word.toNat_ofBytes_of_length_le hle, Word.ofDigits_eq_sum, hlength]
  refine Finset.sum_congr rfl fun k hk => ?_
  rw [read_eq_map, List.getD_eq_getElem?_getD, List.getElem?_map,
    List.getElem?_range (Finset.mem_range.mp hk), Option.map_some, Option.getD_some, byte_eq_getD]

/-- Something was written in a range if it was at some distance within. -/
theorem wasWritten_iff (m : Memory) (a : UInt64) (n : Nat) :
    m.wasWritten a n = true ↔ ∃ k < n, (m.cell? (a + UInt64.ofNat k)).isSome := by
  induction n generalizing a with
  | zero => simp only [wasWritten, Bool.false_eq_true, Nat.not_lt_zero, false_and, exists_false]
  | succ n ih =>
      have hzero : a + UInt64.ofNat 0 = a := UInt64.add_zero a
      have hcell : m.cells.contains a = (m.cell? (a + UInt64.ofNat 0)).isSome := by
        rw [hzero, cell?, Std.ExtHashMap.isSome_getElem?_eq_contains]
      rw [wasWritten, Bool.or_eq_true, ih, hcell]
      simp only [← add_ofNat_succ]
      exact (Nat.exists_lt_succ_left (p := fun k => (m.cell? (a + UInt64.ofNat k)).isSome)).symm

/-- Where an access has left its bytes, a load finds the low bytes of the value. -/
theorem toNat_load_of_covers {m : Memory} {x : Access} (hwidth : x.width ≤ 8)
    (h : ∀ a, x.Covers a → m.cell? a = x.byte? a) :
    (m.load x.address x.width).toNat = x.value.toNat % 2 ^ (8 * x.width.toNat) := by
  have hread : m.read x.address x.width.toNat = Word.toBytes x.width.toNat x.value := by
    rw [read_eq_map]
    refine List.ext_getElem ?_ fun k hk hk' => ?_
    · rw [List.length_map, List.length_range, Word.length_toBytes]
    · rw [List.length_map, List.length_range] at hk
      rcases Access.byte?_address_add hk with ⟨hcovers, hbyte⟩
      rw [List.getElem_map, List.getElem_range, Word.getElem_toBytes hk', byte_eq_getD,
        h _ hcovers, hbyte, Option.getD_some]
  have hle : x.width.toNat ≤ 8 := UInt64.le_iff_toNat_le.mp hwidth
  rw [load_eq_ofBytes m x.address hwidth, hread, Word.toNat_ofBytes_toBytes hle, Nat.pow_mul]

/-- A word is loaded from where it has been stored. -/
theorem load_store (m : Memory) (a v : UInt64) : (m.store a 8 v).load a 8 = v := by
  refine UInt64.toNat_inj.mp ?_
  have hload := toNat_load_of_covers (m := m.store a 8 v) (x := ⟨a, 8, v⟩)
    (show (8 : UInt64) ≤ 8 by decide)
    fun b hb => by rw [cell?_store_access m ⟨a, 8, v⟩, Access.byte?_of_covers hb, Option.some_or]
  exact hload.trans (Nat.mod_eq_of_lt v.toNat_lt)

theorem store_eq_store_iff {m : Memory} {a v w : UInt64} :
    m.store a 8 v = m.store a 8 w ↔ v = w := by
  refine ⟨fun h => ?_, fun h => congrArg (m.store a 8) h⟩
  rw [← m.load_store a v, h, load_store]

end Memory

end StackLift
