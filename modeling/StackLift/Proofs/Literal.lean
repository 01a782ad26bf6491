import StackLift.Literal
import StackLift.Text.Numeral

/-!
# Numbers Written and Read

A number that is written in hexadecimal is read as that number.

Writing starts with the last digit and reading with the first. What the two share is that
the digits of a number are those of the number without its last digit, and then that digit;
so the induction is on numbers that get smaller by a factor of the base, and not on the
digits. The digit zero is no exception, because a number below the base is its own digit.

A literal is more than digits. There may be blanks around it, a sign, and a mark of
hexadecimal, and all of them are taken off by a look at characters, before it is known
whether what is left are digits. No digit is a blank or a sign, so nothing that has been
written is taken off but the mark.

## Theorems

* `digits?_toDigits`: Digits are read as the number that they were written for.
* `trim_eq_self`: Text without blanks is left as it is.
* `isBlank_of_digit?_eq_some`, `isAlphanum_of_digit?_eq_some`: No digit is blank, and each is
  a figure or a letter.
* `natural?_of_digits?`: Digits alone have no sign in front of them.
* `hex?_hex`, `address?_hex`: A word is read as what it was written for.
-/

namespace StackLift

namespace Blank

theorem trim_eq_self {cs : List Char} (h : ∀ c ∈ cs, isBlank c = false) : trim cs = cs := by
  have hdrop {ds : List Char} (hds : ∀ c ∈ ds, isBlank c = false) : ds.dropWhile isBlank = ds := by
    cases ds with
    | nil => rfl
    | cons d ds =>
        refine List.dropWhile_cons_of_neg ?_
        rw [hds d List.mem_cons_self]
        exact Bool.false_ne_true
  rw [trim, hdrop h, hdrop fun c hc => h c (List.mem_reverse.mp hc), List.reverse_reverse]

end Blank

namespace Literal

variable {base bound n d high : Nat} {c : Char} {cs : List Char}

theorem digit?_digitChar : ∀ d < 16, digit? (Nat.digitChar d) = some d := by decide

theorem digitIn?_digitChar (hbase : base ≤ 16) (hd : d < base) :
    digitIn? base (Nat.digitChar d) = some d := by
  rw [digitIn?, digit?_digitChar d (by omega), Option.filter_some, if_pos (decide_eq_true hd)]

/-- Digits behind digits continue the number. -/
theorem digitsAfter?_append (base high : Nat) (xs ys : List Char) :
    digitsAfter? base high (xs ++ ys) =
      (digitsAfter? base high xs).bind fun n => digitsAfter? base n ys := by
  induction xs generalizing high with
  | nil => rfl
  | cons x xs ih =>
      rw [List.cons_append, digitsAfter?, digitsAfter?]
      cases digitIn? base x with
      | none => rfl
      | some d => exact ih _

theorem digitsAfter?_toDigits (hbase : 1 < base) (hle : base ≤ 16) (n : Nat) :
    digitsAfter? base 0 (Nat.toDigits base n) = some n := by
  have hlast (high : Nat) {d : Nat} (hd : d < base) :
      digitsAfter? base high [Nat.digitChar d] = some (high * base + d) := by
    rw [digitsAfter?, digitIn?_digitChar hle hd]
    rfl
  induction n using Nat.strongRecOn with
  | ind n ih =>
      by_cases hn : n < base
      · rw [Nat.toDigits_of_lt_base hn, hlast 0 hn, Nat.zero_mul, Nat.zero_add]
      · -- The last digit stands behind those of the number without it.
        have hdiv : n / base < n := Nat.div_lt_self (by omega) hbase
        rw [Nat.toDigits_of_base_le hbase (Nat.le_of_not_lt hn), digitsAfter?_append,
          ih (n / base) hdiv, Option.bind_some, hlast _ (Nat.mod_lt n (by omega)),
          Nat.div_add_mod']

/-- Digits are read as the number that they were written for. -/
theorem digits?_toDigits (hbase : 1 < base) (hle : base ≤ 16) (n : Nat) :
    digits? base (Nat.toDigits base n) = some n := by
  have hdigits := digitsAfter?_toDigits hbase hle n
  cases hcs : Nat.toDigits base n with
  | nil => exact absurd hcs Nat.toDigits_ne_nil
  | cons c cs => rwa [hcs] at hdigits

/-- What is read as a number consists of digits. -/
theorem exists_digit?_of_mem (h : digitsAfter? base high cs = some n) (hc : c ∈ cs) :
    ∃ d, digit? c = some d := by
  induction cs generalizing high with
  | nil => contradiction
  | cons x xs ih =>
      rw [digitsAfter?] at h
      cases hx : digitIn? base x with
      | none =>
          rw [hx] at h
          contradiction
      | some e =>
          rw [hx] at h
          rcases List.mem_cons.mp hc with rfl | hc
          · exact ⟨e, (Option.filter_eq_some_iff.mp hx).1⟩
          · exact ih h hc

/-- Digits are figures and letters, no matter in which base. -/
theorem toNat_of_digit?_eq_some (h : digit? c = some d) :
    (48 ≤ c.toNat ∧ c.toNat ≤ 57) ∨ (97 ≤ c.toNat ∧ c.toNat ≤ 102) ∨
      (65 ≤ c.toNat ∧ c.toNat ≤ 70) := by
  unfold digit? at h
  split at h
  · next hc => exact Or.inl hc
  · split at h
    · next hc => exact Or.inr (Or.inl hc)
    · split at h
      · next hc => exact Or.inr (Or.inr hc)
      · contradiction

/-- A digit is told from what is none. -/
theorem ne_of_digit?_eq_some (h : digit? c = some d) {x : Char} (hx : digit? x = none) :
    c ≠ x := by
  rintro rfl
  rw [hx] at h
  contradiction

theorem isBlank_of_digit?_eq_some (h : digit? c = some d) : Blank.isBlank c = false := by
  have hc := toNat_of_digit?_eq_some h
  simp only [Blank.isBlank, Blank.ranges, List.any_cons, List.any_nil, Bool.or_false,
    Bool.or_eq_false_iff, Bool.and_eq_false_iff, decide_eq_false_iff_not]
  omega

theorem isAlphanum_of_digit?_eq_some (h : digit? c = some d) : c.isAlphanum = true := by
  have hall : ∀ n < 103, (digit? (Char.ofNat n)).isSome → (Char.ofNat n).isAlphanum = true := by
    decide
  have hc := toNat_of_digit?_eq_some h
  have halphanum := hall c.toNat (by omega)
  rw [Char.ofNat_toNat, h] at halphanum
  exact halphanum rfl

/-- Digits alone have no sign in front of them. -/
theorem natural?_of_digits? (h : digits? base cs = some n) (hn : n < bound) :
    natural? base bound cs = some n := by
  unfold natural?
  split
  · -- A sign is no digit, and so there would be no number.
    rcases exists_digit?_of_mem h List.mem_cons_self with ⟨d, hd⟩
    exact absurd rfl (ne_of_digit?_eq_some hd (by decide))
  · rw [h, Option.filter_some, if_pos (decide_eq_true hn)]

theorem toList_hex (v : UInt64) :
    (Numeral.hex v).toList = '0' :: 'x' :: Nat.toDigits 16 v.toNat := by
  rw [Numeral.hex, Numeral.bare, Numeral.digits, String.toList_append, String.toList_ofList,
    String.toList_ofList]
  rfl

/-- What is written in hexadecimal consists of digits, the letter of the mark aside. -/
theorem digit?_of_mem_hex {v : UInt64} (hc : c ∈ (Numeral.hex v).toList) :
    c = 'x' ∨ ∃ d, digit? c = some d := by
  rw [toList_hex, List.mem_cons, List.mem_cons] at hc
  rcases hc with rfl | rfl | hc
  · exact Or.inr ⟨0, by decide⟩
  · exact Or.inl rfl
  · exact Or.inr (exists_digit?_of_mem
      (digitsAfter?_toDigits (by decide) (by decide) v.toNat) hc)

theorem isAlphanum_of_mem_hex {v : UInt64} (hc : c ∈ (Numeral.hex v).toList) :
    c.isAlphanum = true := by
  rcases digit?_of_mem_hex hc with rfl | ⟨d, hd⟩
  · rfl
  · exact isAlphanum_of_digit?_eq_some hd

theorem trim_hex (v : UInt64) :
    Blank.trim (Numeral.hex v).toList = '0' :: 'x' :: Nat.toDigits 16 v.toNat := by
  rw [← toList_hex]
  refine Blank.trim_eq_self fun c hc => ?_
  rcases digit?_of_mem_hex hc with rfl | ⟨d, hd⟩
  · rfl
  · exact isBlank_of_digit?_eq_some hd

theorem natural?_toDigits (v : UInt64) :
    natural? 16 UInt64.size (Nat.toDigits 16 v.toNat) = some v.toNat :=
  natural?_of_digits? (digits?_toDigits (by decide) (by decide) v.toNat) v.toNat_lt

/-- A word is read as what it was written for. -/
theorem hex?_hex (v : UInt64) : hex? UInt64.size (Numeral.hex v) = some v.toNat := by
  rw [hex?, trim_hex]
  exact natural?_toDigits v

theorem hex_inj {v w : UInt64} (h : Numeral.hex v = Numeral.hex w) : v = w := by
  have hv := hex?_hex v
  rw [h, hex?_hex w, Option.some.injEq] at hv
  exact (UInt64.toNat_inj.mp hv).symm

/-- A word that is written in hexadecimal is an address that is read as the word. -/
theorem address?_hex (v : UInt64) : address? (Numeral.hex v) = some v := by
  have hword : address? (Numeral.hex v) =
      (natural? 16 UInt64.size (Nat.toDigits 16 v.toNat)).map UInt64.ofNat := by
    rw [address?, trim_hex]
    rfl
  rw [hword, natural?_toDigits, Option.map_some, UInt64.ofNat_toNat]

end Literal

end StackLift
