import Mathlib.Data.String.Basic
import Mathlib.Tactic.IntervalCases
import Mathlib.Tactic.SplitIfs
import StackLift.Text.Utf8

/-!
# Texts as Bytes

A text as it stands in a file, the order of texts that is seen from there, and the text that
is read from it again.

Texts are compared character by character and files byte by byte. The two orders are the same
one, since UTF-8 has been made so that they are: a character of more bytes has a greater first
byte than one of fewer, and of two characters with equally many bytes the greater one has the
greater digits. So whatever is sorted by the one is sorted by the other, and whoever goes
through a map in the order of its keys comes upon them in the order of their bytes.

What keeps the bytes of a text from being read as its characters are the numbers that have a
shorter form, the surrogates and the numbers beyond the last character. All three are told by
the second byte of a character, so there is one lemma for each number of bytes, which asks of
the second digit what the first one leaves open.

## Main definitions

* `Utf8.bytes`: The bytes of a text.

## Theorems

* `bytes_eq_flatMap`: The bytes of a text are those of its characters.
* `utf8EncodeChar_append_lt`: The bytes of a smaller character are smaller, whatever follows.
* `bytes_lt_bytes_iff`: Byte order is the order of the texts.
* `symbolsBehind_utf8EncodeChar`: A character is read from its bytes.
* `symbols_bytes`: A text is read from its bytes.
-/

namespace StackLift

namespace Utf8

/-- The bytes of a text. -/
def bytes (s : String) : List UInt8 := s.toUTF8.data.toList

theorem bytes_eq_flatMap (s : String) : bytes s = s.toList.flatMap String.utf8EncodeChar := by
  conv_lhs => rw [← String.ofList_toList (s := s)]
  rw [bytes, String.toUTF8_eq_toByteArray, String.toByteArray_ofList, List.utf8Encode,
    List.toList_data_toByteArray]

theorem toNat_lt_of_char (c : Char) : c.val.toNat < 0x110000 := by
  rcases c.valid with h | h
  · exact h.trans (by decide)
  · exact h.2

theorem ofNat_cons_lt_ofNat_cons_iff {m n : Nat} (hm : m < 256) (hn : n < 256)
    (k l : List UInt8) :
    UInt8.ofNat m :: k < UInt8.ofNat n :: l ↔ m < n ∨ m = n ∧ k < l := by
  rw [List.cons_lt_cons_iff, UInt8.lt_iff_toNat_lt, ← UInt8.toNat_inj,
    UInt8.toNat_ofNat_of_lt' hm, UInt8.toNat_ofNat_of_lt' hn]

/-- The bytes of a smaller character are smaller, whatever follows. -/
theorem utf8EncodeChar_append_lt {c d : Char} (h : c < d) (k l : List UInt8) :
    String.utf8EncodeChar c ++ k < String.utf8EncodeChar d ++ l := by
  have hlt : c.val.toNat < d.val.toNat := h
  have hbound : d.val.toNat < 0x110000 := toNat_lt_of_char d
  simp only [String.utf8EncodeChar.eq_1]
  -- By the numbers of bytes. What is left is to compare digits in base 64.
  split_ifs <;>
    simp (disch := omega) only [List.cons_append, List.nil_append, Nat.mod_eq_of_lt,
      ofNat_cons_lt_ofNat_cons_iff] <;>
    omega

theorem flatMap_utf8EncodeChar_lt {cs ds : List Char} (h : cs < ds) :
    cs.flatMap String.utf8EncodeChar < ds.flatMap String.utf8EncodeChar := by
  induction cs generalizing ds with
  | nil =>
      cases ds with
      | nil => exact absurd h (List.lt_irrefl [])
      | cons d ds =>
          rw [List.flatMap_nil, List.flatMap_cons]
          cases hd : String.utf8EncodeChar d with
          | nil => exact absurd hd String.utf8EncodeChar_ne_nil
          | cons b bs => exact List.nil_lt_cons b _
  | cons c cs ih =>
      cases ds with
      | nil => exact absurd h (List.not_lt_nil _)
      | cons d ds =>
          rw [List.flatMap_cons, List.flatMap_cons]
          rcases List.cons_lt_cons_iff.mp h with hlt | ⟨rfl, hlt⟩
          · exact utf8EncodeChar_append_lt hlt _ _
          · exact List.append_left_lt (ih hlt)

/-- Byte order is the order of the texts. -/
theorem bytes_lt_bytes_iff {s t : String} : bytes s < bytes t ↔ s < t := by
  have hlt {s t : String} (h : s < t) : bytes s < bytes t := by
    rw [bytes_eq_flatMap, bytes_eq_flatMap]
    exact flatMap_utf8EncodeChar_lt (String.lt_iff_toList_lt.mp h)
  constructor
  · intro h
    rcases lt_trichotomy s t with hst | rfl | hts
    · exact hst
    · exact absurd h (List.lt_irrefl _)
    · exact absurd h (List.lt_asymm (hlt hts))
  · exact hlt

variable {p : Pending} {x y z w : Nat} {k : List UInt8}

theorem symbolsBehind_of_lead {b : UInt8} (h : lead b = .inr p) :
    symbolsBehind none (b :: k) = symbolsBehind (some p) k := by
  rw [symbolsBehind, h]

theorem bounds_of_lt (h : x < 64) :
    (0x80 : UInt8).toNat ≤ x + 0x80 ∧ x + 0x80 ≤ (0xbf : UInt8).toNat :=
  ⟨Nat.le_add_left _ _, Nat.add_le_add_right (Nat.le_of_lt_succ h) 0x80⟩

/-- A further byte is a digit in base 64, as long as it is within the bounds. -/
theorem symbolsBehind_some (h : x < 64)
    (hbounds : p.least.toNat ≤ x + 0x80 ∧ x + 0x80 ≤ p.greatest.toNat) :
    symbolsBehind (some p) (UInt8.ofNat (x + 0x80) :: k) =
      if p.missing ≤ 1 then some (Char.ofNat (p.value * 64 + x)) :: symbolsBehind none k
      else symbolsBehind (some { taken := p.taken + 1, missing := p.missing - 1,
                                 value := p.value * 64 + x }) k := by
  have hx : (UInt8.ofNat (x + 0x80)).toNat = x + 0x80 :=
    UInt8.toNat_ofNat_of_lt' ((Nat.add_lt_add_right h 0x80).trans (by decide))
  have hdigit : (x + 0x80) % 64 = x := by omega
  have hwithin : p.least ≤ UInt8.ofNat (x + 0x80) ∧ UInt8.ofNat (x + 0x80) ≤ p.greatest := by
    rw [UInt8.le_iff_toNat_le, UInt8.le_iff_toNat_le, hx]
    exact hbounds
  rw [symbolsBehind, if_pos hwithin, Pending.extend, hx, hdigit]
  by_cases hmissing : p.missing ≤ 1
  · rw [if_pos hmissing, if_pos hmissing]
  · rw [if_neg hmissing, if_neg hmissing]

theorem symbolsBehind_next {taken missing value : Nat} {least greatest : UInt8} (h : x < 64)
    (hbounds : least.toNat ≤ x + 0x80 ∧ x + 0x80 ≤ greatest.toNat) :
    symbolsBehind (some { taken, missing := missing + 2, value, least, greatest })
        (UInt8.ofNat (x + 0x80) :: k) =
      symbolsBehind (some { taken := taken + 1, missing := missing + 1,
                            value := value * 64 + x }) k := by
  have hmissing : ¬missing + 2 ≤ 1 := by omega
  exact (symbolsBehind_some h hbounds).trans (if_neg hmissing)

theorem symbolsBehind_last {taken value : Nat} (h : x < 64) :
    symbolsBehind (some { taken, missing := 1, value }) (UInt8.ofNat (x + 0x80) :: k) =
      some (Char.ofNat (value * 64 + x)) :: symbolsBehind none k :=
  (symbolsBehind_some h (bounds_of_lt h)).trans (if_pos Nat.le.refl)

theorem symbolsBehind_one (h : x < 0x80) :
    symbolsBehind none (UInt8.ofNat x :: k) = some (Char.ofNat x) :: symbolsBehind none k := by
  have hx : (UInt8.ofNat x).toNat = x := UInt8.toNat_ofNat_of_lt' (h.trans (by decide))
  have hlt : UInt8.ofNat x < 0x80 := by
    rw [UInt8.lt_iff_toNat_lt, hx]
    exact h
  rw [symbolsBehind, lead, if_pos hlt, hx]

theorem symbolsBehind_two (hshort : 2 ≤ x) (hx : x < 32) (hy : y < 64) :
    symbolsBehind none (UInt8.ofNat (x + 0xc0) :: UInt8.ofNat (y + 0x80) :: k) =
      some (Char.ofNat (x * 64 + y)) :: symbolsBehind none k := by
  have hlead : lead (UInt8.ofNat (x + 0xc0)) = .inr { missing := 1, value := x } := by
    interval_cases x <;> rfl
  rw [symbolsBehind_of_lead hlead, symbolsBehind_last hy]

theorem symbolsBehind_three (hx : x < 16) (hy : y < 64) (hz : z < 64)
    (hshort : x = 0 → 32 ≤ y) (hsurrogate : x = 13 → y < 32) :
    symbolsBehind none (UInt8.ofNat (x + 0xe0) :: UInt8.ofNat (y + 0x80) ::
        UInt8.ofNat (z + 0x80) :: k) =
      some (Char.ofNat ((x * 64 + y) * 64 + z)) :: symbolsBehind none k := by
  have hlead : ∃ least greatest : UInt8,
      lead (UInt8.ofNat (x + 0xe0)) = .inr { missing := 2, value := x, least, greatest } ∧
      least.toNat ≤ y + 0x80 ∧ y + 0x80 ≤ greatest.toNat := by
    interval_cases x <;> refine ⟨_, _, rfl, ?_, ?_⟩ <;> simp only [UInt8.reduceToNat] <;> omega
  rcases hlead with ⟨least, greatest, hlead, hbounds⟩
  rw [symbolsBehind_of_lead hlead, symbolsBehind_next hy hbounds, symbolsBehind_last hz]

theorem symbolsBehind_four (hx : x < 5) (hy : y < 64) (hz : z < 64) (hw : w < 64)
    (hshort : x = 0 → 16 ≤ y) (hlarge : x = 4 → y < 16) :
    symbolsBehind none (UInt8.ofNat (x + 0xf0) :: UInt8.ofNat (y + 0x80) ::
        UInt8.ofNat (z + 0x80) :: UInt8.ofNat (w + 0x80) :: k) =
      some (Char.ofNat (((x * 64 + y) * 64 + z) * 64 + w)) :: symbolsBehind none k := by
  have hlead : ∃ least greatest : UInt8,
      lead (UInt8.ofNat (x + 0xf0)) = .inr { missing := 3, value := x, least, greatest } ∧
      least.toNat ≤ y + 0x80 ∧ y + 0x80 ≤ greatest.toNat := by
    interval_cases x <;> refine ⟨_, _, rfl, ?_, ?_⟩ <;> simp only [UInt8.reduceToNat] <;> omega
  rcases hlead with ⟨least, greatest, hlead, hbounds⟩
  rw [symbolsBehind_of_lead hlead, symbolsBehind_next hy hbounds,
    symbolsBehind_next hz (bounds_of_lt hz), symbolsBehind_last hw]

/-- A character is read from its bytes. -/
theorem symbolsBehind_utf8EncodeChar (c : Char) (k : List UInt8) :
    symbolsBehind none (String.utf8EncodeChar c ++ k) = some c :: symbolsBehind none k := by
  have hbound : c.val.toNat < 0x110000 := toNat_lt_of_char c
  have hvalid : c.val.toNat < 0xd800 ∨ 0xdfff < c.val.toNat := by
    rcases c.valid with h | h
    · exact Or.inl h
    · exact Or.inr h.1
  have hc : Char.ofNat c.val.toNat = c := c.ofNat_toNat
  rw [String.utf8EncodeChar.eq_1]
  generalize c.val.toNat = v at hbound hvalid hc ⊢
  -- The digits of a number in base 64 make it up again.
  have hone : v / 64 * 64 + v % 64 = v := Nat.div_add_mod' v 64
  have htwo : v / 4096 * 64 + v / 64 % 64 = v / 64 := by omega
  have hthree : v / 262144 * 64 + v / 4096 % 64 = v / 4096 := by omega
  split_ifs with h₁ h₂ h₃
  · rw [List.cons_append, List.nil_append, symbolsBehind_one (Nat.lt_succ_of_le h₁), hc]
  · have hlead : v / 64 % 32 = v / 64 := Nat.mod_eq_of_lt (by omega)
    rw [hlead, List.cons_append, List.cons_append, List.nil_append,
      symbolsBehind_two (by omega) (by omega) (Nat.mod_lt v (by decide)), hone, hc]
  · have hlead : v / 4096 % 16 = v / 4096 := Nat.mod_eq_of_lt (by omega)
    rw [hlead, List.cons_append, List.cons_append, List.cons_append, List.nil_append,
      symbolsBehind_three (by omega) (by omega) (by omega) (by omega) (by omega), htwo, hone, hc]
  · have hlead : v / 262144 % 8 = v / 262144 := Nat.mod_eq_of_lt (by omega)
    rw [hlead, List.cons_append, List.cons_append, List.cons_append, List.cons_append,
      List.nil_append, symbolsBehind_four (by omega) (by omega) (by omega) (by omega) (by omega)
        (by omega), hthree, htwo, hone, hc]

/-- The characters of a text are read from its bytes. -/
theorem symbols_bytes (s : String) : symbols (bytes s) = s.toList.map some := by
  have hchars (cs : List Char) :
      symbolsBehind none (cs.flatMap String.utf8EncodeChar) = cs.map some := by
    induction cs with
    | nil => rfl
    | cons c cs ih => rw [List.flatMap_cons, symbolsBehind_utf8EncodeChar, ih, List.map_cons]
  rw [symbols, bytes_eq_flatMap, hchars]

end Utf8

end StackLift
