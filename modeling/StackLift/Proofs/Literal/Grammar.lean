import Mathlib.Algebra.Group.Nat.Defs
import Mathlib.Data.List.Induction
import Mathlib.Data.List.TakeWhile
import StackLift.Proofs.Literal

/-!
# The Grammar of Literals

Which texts are numbers, and which number each of them is.

The grammar is written down on its own, from the value of a digit upwards, and says nothing
about how a literal is read: digits denote a number, one sign may stand in front of them, one
mark of hexadecimal in front of that, and blanks around the whole. Reading goes the other
way, from the outside in, and decides at each step by the next character only. The two agree
because a character that reading takes off is never a digit. A plus sign and a dollar sign are
none at all, and the letter of the other marks is none in either base. So no text can be read
in two ways, and nothing that is a number is turned down.

How large a number may be is not a matter of digits. Any number of zeros may stand in front,
and it is only the value of the whole that has to fit.

## Main definitions

* `Blank.Trimmed`: Text and what is left without the blanks around it.
* `Literal.Denotes`: Digits and the number they denote.
* `Literal.Spells`: The same, behind at most one plus sign.
* `Literal.Unmarked`: A literal and what is left without its mark of hexadecimal.
* `Literal.IsHex`, `Literal.IsAddress`: Which number a literal is.

## Theorems

* `trimmed_trim`: Nothing but blanks is taken off, and none is left at the ends.
* `digits?_eq_some_iff`: Digits are read as the number that they denote.
* `natural?_eq_some_iff`: The same with a sign and a bound.
* `unmarked_iff`: What is taken for the mark is the mark.
* `literal_grammar`: Literals are read by the grammar.
-/

namespace StackLift

namespace Blank

/-- What is left of a text without the blanks around it. -/
structure Trimmed (cs t : List Char) : Prop where
  split : ∃ before behind, cs = before ++ t ++ behind ∧ ∀ c ∈ before ++ behind, isBlank c = true
  head : ∀ c ∈ t.head?, isBlank c = false
  last : ∀ c ∈ t.getLast?, isBlank c = false

theorem isBlank_of_mem_head?_dropWhile {cs : List Char} {c : Char}
    (hc : c ∈ (cs.dropWhile isBlank).head?) : isBlank c = false := by
  have hnot := List.head?_dropWhile_not isBlank cs
  rwa [Option.mem_def.mp hc] at hnot

/-- Nothing but blanks is taken off, and none is left at the ends. -/
theorem trimmed_trim (cs : List Char) : Trimmed cs (trim cs) := by
  have hfront : cs.takeWhile isBlank ++ cs.dropWhile isBlank = cs :=
    List.takeWhile_append_dropWhile
  have hback : trim cs ++ ((cs.dropWhile isBlank).reverse.takeWhile isBlank).reverse =
      cs.dropWhile isBlank := by
    rw [trim, ← List.reverse_append, List.takeWhile_append_dropWhile, List.reverse_reverse]
  refine ⟨⟨cs.takeWhile isBlank, ((cs.dropWhile isBlank).reverse.takeWhile isBlank).reverse,
    ?_, ?_⟩, ?_, ?_⟩
  · rw [List.append_assoc, hback, hfront]
  · intro c hc
    rcases List.mem_append.mp hc with hc | hc
    · exact List.mem_takeWhile_imp hc
    · exact List.mem_takeWhile_imp (List.mem_reverse.mp hc)
  · -- The first character is that of the text whose blanks behind are still there.
    intro c hc
    have hmem : c ∈ (cs.dropWhile isBlank).head? := by
      rw [← hback, List.head?_append, Option.mem_def.mp hc]
      rfl
    exact isBlank_of_mem_head?_dropWhile hmem
  · intro c hc
    rw [trim, List.getLast?_reverse] at hc
    exact isBlank_of_mem_head?_dropWhile hc

end Blank

namespace Literal

/-- The character is the digit of that value, a letter of either case. -/
def IsDigit (base : Nat) (c : Char) (d : Nat) : Prop :=
  d < base ∧ (c = Nat.digitChar d ∨ c = (Nat.digitChar d).toUpper)

/-- Digits, one at least, and the number that they denote. -/
inductive Denotes (base : Nat) : List Char → Nat → Prop
  | digit {c : Char} {d : Nat} : IsDigit base c d → Denotes base [c] d
  | behind {cs : List Char} {n : Nat} {c : Char} {d : Nat} :
      Denotes base cs n → IsDigit base c d → Denotes base (cs ++ [c]) (n * base + d)

/-- The number that is denoted by digits, behind at most one plus sign. -/
def Spells (base : Nat) (cs : List Char) (n : Nat) : Prop :=
  Denotes base cs n ∨ ∃ ds, cs = '+' :: ds ∧ Denotes base ds n

/-- The marks of hexadecimal. -/
def marks : List String := ["0x", "0X", "$"]

/-- The literal begins with a mark of hexadecimal. -/
def IsMarked (cs : List Char) : Prop := ∃ mark ∈ marks, mark.toList <+: cs

/-- A literal and what is left of it without its mark, if it has one. -/
def Unmarked (cs ds : List Char) : Prop :=
  (∃ mark ∈ marks, cs = mark.toList ++ ds) ∨ (¬IsMarked cs ∧ ds = cs)

/-- The number that a hexadecimal literal is. It fits into a word. -/
def IsHex (cs : List Char) (n : Nat) : Prop :=
  (∃ ds, Unmarked cs ds ∧ Spells 16 ds n) ∧ n < 2 ^ 64

/-- The number that an address is: hexadecimal if it is marked, and decimal otherwise. -/
def IsAddress (cs : List Char) (n : Nat) : Prop :=
  (IsMarked cs ∧ IsHex cs n) ∨ (¬IsMarked cs ∧ Spells 10 cs n ∧ n < 2 ^ 64)

variable {base bound n d : Nat} {c : Char} {cs ds : List Char}

theorem digit?_eq_some_iff : digit? c = some d ↔ IsDigit 16 c d := by
  constructor
  · intro h
    -- A character is known by its number, and so is the digit of a value.
    have hfigures : ∀ d < 10, (Nat.digitChar d).toNat = d + 48 := by decide
    have hletters : ∀ d < 16, 10 ≤ d → (Nat.digitChar d).toNat = d + 87 := by decide
    have hcapitals : ∀ d < 16, 10 ≤ d → (Nat.digitChar d).toUpper.toNat = d + 55 := by decide
    unfold digit? at h
    split at h
    · next hc =>
        have hc : 48 ≤ c.toNat ∧ c.toNat ≤ 57 := hc
        have hd : c.toNat - 48 = d := Option.some.inj h
        refine ⟨by omega, Or.inl (Char.toNat_inj.mp ?_)⟩
        rw [hfigures d (by omega)]
        omega
    · split at h
      · next hc =>
          have hc : 97 ≤ c.toNat ∧ c.toNat ≤ 102 := hc
          have hd : c.toNat - 97 + 10 = d := Option.some.inj h
          refine ⟨by omega, Or.inl (Char.toNat_inj.mp ?_)⟩
          rw [hletters d (by omega) (by omega)]
          omega
      · split at h
        · next hc =>
            have hc : 65 ≤ c.toNat ∧ c.toNat ≤ 70 := hc
            have hd : c.toNat - 65 + 10 = d := Option.some.inj h
            refine ⟨by omega, Or.inr (Char.toNat_inj.mp ?_)⟩
            rw [hcapitals d (by omega) (by omega)]
            omega
        · contradiction
  · rintro ⟨hd, rfl | rfl⟩
    · exact digit?_digitChar d hd
    · have hcapital : ∀ d < 16, digit? (Nat.digitChar d).toUpper = some d := by decide
      exact hcapital d hd

theorem digitIn?_eq_some_iff (hbase : base ≤ 16) : digitIn? base c = some d ↔ IsDigit base c d := by
  rw [digitIn?, Option.filter_eq_some_iff, digit?_eq_some_iff, decide_eq_true_eq, IsDigit, IsDigit]
  constructor
  · rintro ⟨⟨_, hc⟩, hd⟩
    exact ⟨hd, hc⟩
  · rintro ⟨hd, hc⟩
    exact ⟨⟨by omega, hc⟩, hd⟩

theorem digitsAfter?_snoc_eq_some_iff (hbase : base ≤ 16) {high : Nat} :
    digitsAfter? base high (cs ++ [c]) = some n ↔
      ∃ m d, digitsAfter? base high cs = some m ∧ IsDigit base c d ∧ n = m * base + d := by
  rw [digitsAfter?_append, Option.bind_eq_some_iff]
  refine exists_congr fun m => ?_
  rw [exists_and_left, digitsAfter?]
  refine and_congr_right fun _ => ?_
  cases hc : digitIn? base c with
  | none =>
      constructor
      · intro h
        contradiction
      · rintro ⟨d, hd, _⟩
        rw [(digitIn?_eq_some_iff hbase).mpr hd] at hc
        contradiction
  | some e =>
      have he := (digitIn?_eq_some_iff hbase).mp hc
      constructor
      · intro h
        exact ⟨e, he, (Option.some.inj h).symm⟩
      · rintro ⟨d, hd, rfl⟩
        rw [(digitIn?_eq_some_iff hbase).mpr hd, Option.some.injEq] at hc
        rw [hc]
        rfl

theorem Denotes.ne_nil (h : Denotes base cs n) : cs ≠ [] := by
  cases h with
  | digit _ => exact List.cons_ne_nil _ _
  | behind _ _ => exact List.append_ne_nil_of_right_ne_nil _ (List.cons_ne_nil _ _)

/-- Digits are read as the number that they denote. -/
theorem digits?_eq_some_iff (hbase : base ≤ 16) : digits? base cs = some n ↔ Denotes base cs n := by
  have hdigits (hne : cs ≠ []) : digits? base cs = digitsAfter? base 0 cs := by
    cases cs with
    | nil => contradiction
    | cons c cs => rfl
  constructor
  · intro h
    have hne : cs ≠ [] := by
      rintro rfl
      contradiction
    rw [hdigits hne] at h
    clear hdigits
    -- By the last digit, since it is the one that the grammar puts behind the others.
    induction cs using List.reverseRecOn generalizing n with
    | nil => contradiction
    | append_singleton cs c ih =>
        rcases (digitsAfter?_snoc_eq_some_iff hbase).mp h with ⟨m, d, hm, hd, rfl⟩
        by_cases hcs : cs = []
        · rw [hcs, digitsAfter?, Option.some.injEq] at hm
          rw [hcs, ← hm, Nat.zero_mul, Nat.zero_add]
          exact .digit hd
        · exact .behind (ih hm hcs) hd
  · intro h
    rw [hdigits h.ne_nil]
    clear hdigits
    induction h with
    | @digit c d hd =>
        change digitsAfter? base 0 ([] ++ [c]) = some d
        refine (digitsAfter?_snoc_eq_some_iff hbase).mpr ⟨0, d, rfl, hd, ?_⟩
        rw [Nat.zero_mul, Nat.zero_add]
    | behind _ hd ih =>
        exact (digitsAfter?_snoc_eq_some_iff hbase).mpr ⟨_, _, ih, hd, rfl⟩

/-- Digits behind at most one sign are read as the number that they spell, if it is below
    the bound. -/
theorem natural?_eq_some_iff (hbase : base ≤ 16) :
    natural? base bound cs = some n ↔ Spells base cs n ∧ n < bound := by
  constructor
  · intro h
    unfold natural? at h
    split at h
    · rcases Option.filter_eq_some_iff.mp h with ⟨hn, hlt⟩
      exact ⟨Or.inr ⟨_, rfl, (digits?_eq_some_iff hbase).mp hn⟩, of_decide_eq_true hlt⟩
    · rcases Option.filter_eq_some_iff.mp h with ⟨hn, hlt⟩
      exact ⟨Or.inl ((digits?_eq_some_iff hbase).mp hn), of_decide_eq_true hlt⟩
  · rintro ⟨hn | ⟨ds, rfl, hn⟩, hlt⟩
    · exact natural?_of_digits? ((digits?_eq_some_iff hbase).mpr hn) hlt
    · rw [natural?, (digits?_eq_some_iff hbase).mpr hn]
      exact Option.filter_eq_some_iff.mpr ⟨rfl, decide_eq_true hlt⟩

theorem behindMark?_eq_some_iff :
    behindMark? cs = some ds ↔ ∃ mark ∈ marks, cs = mark.toList ++ ds := by
  constructor
  · intro h
    unfold behindMark? at h
    split at h
    · exact ⟨"0x", by decide, by rw [Option.some.inj h]; rfl⟩
    · exact ⟨"0X", by decide, by rw [Option.some.inj h]; rfl⟩
    · exact ⟨"$", by decide, by rw [Option.some.inj h]; rfl⟩
    · contradiction
  · rintro ⟨mark, hmark, rfl⟩
    simp only [marks, List.mem_cons, List.not_mem_nil, or_false] at hmark
    rcases hmark with rfl | rfl | rfl <;> rfl

theorem behindMark?_eq_none_iff : behindMark? cs = none ↔ ¬IsMarked cs := by
  rw [Option.eq_none_iff_forall_ne_some, IsMarked]
  constructor
  · rintro h ⟨mark, hmark, ds, rfl⟩
    exact h ds (behindMark?_eq_some_iff.mpr ⟨mark, hmark, rfl⟩)
  · intro h ds hds
    rcases behindMark?_eq_some_iff.mp hds with ⟨mark, hmark, rfl⟩
    exact h ⟨mark, hmark, List.prefix_append _ _⟩

/-- What is taken for the mark is the mark, and it is taken off once. -/
theorem unmarked_iff : unmarked cs = ds ↔ Unmarked cs ds := by
  rw [unmarked, Unmarked, ← behindMark?_eq_some_iff, ← behindMark?_eq_none_iff]
  cases behindMark? cs with
  | none =>
      simp only [Option.getD_none, reduceCtorEq, true_and, false_or]
      exact eq_comm
  | some es => simp only [Option.getD_some, Option.some.injEq, reduceCtorEq, false_and, or_false]

theorem IsAddress.lt (h : IsAddress cs n) : n < 2 ^ 64 := by
  rcases h with ⟨_, _, hlt⟩ | ⟨_, _, hlt⟩ <;> exact hlt

theorem hex?_eq_some_iff (text : String) :
    hex? UInt64.size text = some n ↔ IsHex (Blank.trim text.toList) n := by
  rw [hex?, natural?_eq_some_iff (Nat.le_refl 16), IsHex]
  refine and_congr_left fun _ => ?_
  constructor
  · intro h
    exact ⟨_, unmarked_iff.mp rfl, h⟩
  · rintro ⟨ds, hds, h⟩
    rwa [unmarked_iff.mpr hds]

theorem address?_eq_some_iff (text : String) (v : UInt64) :
    address? text = some v ↔ IsAddress (Blank.trim text.toList) v.toNat := by
  -- A word is the address of which it is the number.
  have hword (word : Option Nat) (hlt : ∀ n, word = some n → n < UInt64.size) :
      word.map UInt64.ofNat = some v ↔ word = some v.toNat := by
    cases word with
    | none => simp only [Option.map_none, reduceCtorEq]
    | some n =>
        rw [Option.map_some, Option.some.injEq, Option.some.injEq, ← UInt64.toNat_inj,
          UInt64.toNat_ofNat_of_lt' (hlt n rfl)]
  have hlt {base : Nat} (hbase : base ≤ 16) (ds : List Char) (n : Nat)
      (hn : natural? base UInt64.size ds = some n) : n < UInt64.size :=
    ((natural?_eq_some_iff hbase).mp hn).2
  rw [address?, IsAddress, ← hex?_eq_some_iff, ← behindMark?_eq_none_iff, hex?, unmarked]
  cases hmark : behindMark? (Blank.trim text.toList) with
  | none =>
      have hmarked : ¬IsMarked (Blank.trim text.toList) := behindMark?_eq_none_iff.mp hmark
      simp only [hmarked, false_and, true_and, false_or]
      have hsize : UInt64.size = 2 ^ 64 := rfl
      rw [hword _ (hlt (by decide) _), natural?_eq_some_iff (by decide), hsize]
  | some ds =>
      have hmarked : IsMarked (Blank.trim text.toList) := by
        by_contra hc
        rw [behindMark?_eq_none_iff.mpr hc] at hmark
        contradiction
      simp only [hmarked, true_and, reduceCtorEq, false_and, or_false, Option.getD_some]
      exact hword _ (hlt (by decide) _)

/-- Literals are read by the grammar. Take the blanks off the ends of a text. Then it is read
    as a hexadecimal number if, without at most one mark, it is digits behind at most one plus
    sign, and the number fits into a word. It is read as an address if it is marked and such a
    hexadecimal number, or not marked and decimal digits behind at most one plus sign. No other
    text is read as a number or as an address. -/
theorem literal_grammar (text : String) :
    let t := Blank.trim text.toList
    Blank.Trimmed text.toList t ∧
    (∀ n, hex? UInt64.size text = some n ↔ IsHex t n) ∧
    (hex? UInt64.size text = none ↔ ∀ n, ¬IsHex t n) ∧
    (∀ v, address? text = some v ↔ IsAddress t v.toNat) ∧
    (address? text = none ↔ ∀ n, ¬IsAddress t n) := by
  intro t
  refine ⟨Blank.trimmed_trim _, fun n => hex?_eq_some_iff text, ?_,
    address?_eq_some_iff text, ?_⟩
  · simp only [Option.eq_none_iff_forall_ne_some, ne_eq, hex?_eq_some_iff, t]
  · rw [Option.eq_none_iff_forall_ne_some]
    constructor
    · intro h n hn
      -- What is an address fits into a word, and this word would have been read.
      have hword : (UInt64.ofNat n).toNat = n := UInt64.toNat_ofNat_of_lt' hn.lt
      exact h _ ((address?_eq_some_iff text _).mpr (hword.symm ▸ hn))
    · intro h v hv
      exact h _ ((address?_eq_some_iff text v).mp hv)

example : address? "\u00a0 $+000000000000000000001F\n" = some 0x1f := by decide

example : hex? UInt64.size "0x10000000000000000" = none := by decide

end Literal

end StackLift
