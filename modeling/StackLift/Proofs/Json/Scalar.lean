import StackLift.Json.Basic
import StackLift.Json.Lexeme

/-!
# Numbers and Strings There and Back

What is written for a number or a string is read as that number or string again, up to
where its text ends.

A string ends with its quote, whatever stands behind it. A number does not say where it
ends, so what stands behind it must not go on with it: no digit, no point and no mark of
an exponent. As far as numbers fit into a word, no digit is left out when they are read,
and since the first digit of a written number is zero for the number zero only, none of
them has a zero too many in front.

## Main definitions

* `Number.Ends`: What stands behind a number does not belong to it.

## Theorems

* `Number.scan_toDigits`: A number is read as what it was written for.
* `Text.scanFrom_escape`: A character of a string is read as itself.
* `Text.scan_escapes`: A string is read as what it was written for.
-/

namespace StackLift

namespace Json

namespace Number

variable {cs : List Char} {rest : List Symbol} {n : Nat}

/-- What stands there does not belong to a number in front of it. -/
def Ends (rest : List Symbol) : Prop :=
  ∀ c, rest.head? = some (some c) → c.isDigit = false ∧ c ≠ '.' ∧ c ≠ 'e' ∧ c ≠ 'E'

theorem Ends.digit?_eq_none {s : Symbol} (h : Ends (s :: rest)) : digit? s = none := by
  cases s with
  | none => rfl
  | some c =>
      have hc := (h c rfl).1
      rw [digit?, hc]
      rfl

theorem digits_append (hcs : ∀ c ∈ cs, c.isDigit = true) (hrest : Ends rest) :
    digits (cs.map some ++ rest) = cs.map (fun c => c.toNat - '0'.toNat) := by
  induction cs with
  | nil =>
      -- What stands behind the digits is none, so they end here.
      cases rest with
      | nil => rfl
      | cons s rest =>
          rw [List.map_nil, List.nil_append, digits, hrest.digit?_eq_none]
          rfl
  | cons c cs ih =>
      have hc := hcs c List.mem_cons_self
      rw [List.map_cons, List.cons_append, digits, digit?, if_pos hc]
      simp only [List.map_cons, ih fun c hmem => hcs c (List.mem_cons_of_mem _ hmem)]

theorem digitsBehind_append (hcs : ∀ c ∈ cs, c.isDigit = true) (hrest : Ends rest) :
    digitsBehind (cs.map some ++ rest) = rest := by
  unfold digitsBehind
  rw [List.dropWhile_append_of_pos]
  · cases rest with
    | nil => rfl
    | cons s rest =>
        rw [List.dropWhile_cons_of_neg]
        rw [hrest.digit?_eq_none]
        exact Bool.false_ne_true
  · intro s hs
    rcases List.mem_map.mp hs with ⟨c, hc, rfl⟩
    rw [digit?, if_pos (hcs c hc)]
    rfl

/-- No digit is left out if the number is a word. -/
theorem gather_eq {word : Nat} (h : Nat.ofDigitChars 10 cs word < UInt64.size) :
    gather word (cs.map fun c => c.toNat - '0'.toNat) = (Nat.ofDigitChars 10 cs word, 0) := by
  induction cs generalizing word with
  | nil => rw [Nat.ofDigitChars_nil, List.map_nil, gather]
  | cons c cs ih =>
      rw [Nat.ofDigitChars_cons, Nat.mul_comm] at h ⊢
      -- What has been gathered on the way is no more than what it comes to.
      have hle : word * 10 + (c.toNat - '0'.toNat) < UInt64.size := by
        rw [Nat.ofDigitChars_eq_ofDigitChars_zero] at h
        have hpos : 0 < 10 ^ cs.length := Nat.pow_pos (by decide)
        have hmul := Nat.le_mul_of_pos_left (word * 10 + (c.toNat - '0'.toNat)) hpos
        omega
      rw [List.map_cons, gather, if_pos hle]
      exact ih h

theorem eq_zero_of_isDigit {c : Char} (hc : c.isDigit = true) (h : c.toNat - '0'.toNat = 0) :
    c = '0' := by
  have hle := (Char.isDigit_iff_toNat.mp hc).1
  exact Char.toNat_inj.mp (by omega)

theorem head_toDigits (h : 0 < n) : ∃ c cs, Nat.toDigits 10 n = c :: cs ∧ c ≠ '0' := by
  induction n using Nat.strongRecOn with
  | ind n ih =>
      -- The digits of a tenth come first, and a tenth of ten or more is not zero.
      by_cases hn : n < 10
      · refine ⟨n.digitChar, [], Nat.toDigits_of_lt_base hn, ?_⟩
        rw [ne_eq, Nat.digitChar_eq_zero]
        omega
      · rcases ih (n / 10) (by omega) (by omega) with ⟨c, cs, hcs, hc⟩
        refine ⟨c, cs ++ [(n % 10).digitChar], ?_, hc⟩
        rw [Nat.toDigits_of_base_le (by decide) (by omega), hcs]
        rfl

/-- Only the number zero is written with a zero in front, and that is all of it. -/
theorem toDigits_eq_cons (n : Nat) :
    ∃ c cs, Nat.toDigits 10 n = c :: cs ∧ (c.toNat - '0'.toNat = 0 → cs = []) := by
  by_cases hpos : 0 < n
  · rcases head_toDigits hpos with ⟨c, cs, hcs, hc⟩
    have hdigit : c.isDigit = true :=
      Nat.isDigit_of_mem_toDigits (by decide) (by decide) (hcs ▸ List.mem_cons_self)
    exact ⟨c, cs, hcs, fun h => absurd (eq_zero_of_isDigit hdigit h) hc⟩
  · cases Nat.eq_zero_of_not_pos hpos
    exact ⟨'0', [], Nat.toDigits_zero 10, fun _ => rfl⟩

theorem exponent?_of_ends (hrest : Ends rest) (negative : Bool) (word : Nat) (shift : Int)
    (n : Number) : exponent? negative word shift n rest = .ok (n, rest) := by
  unfold exponent?
  split
  · exact absurd rfl (hrest 'e' rfl).2.2.1
  · exact absurd rfl (hrest 'E' rfl).2.2.2
  · rfl

/-- Digits with no zero too many in front, whose number is a word. -/
theorem magnitude_of_digits {d : Nat} {ds : List Nat} {cs : List Symbol}
    (hdigits : digits cs = d :: ds) (hzero : d = 0 → ds = []) (hgather : gather 0 (d :: ds) = (n, 0))
    (hbehind : digitsBehind cs = rest) (hrest : Ends rest) :
    magnitude false cs = .ok (.integer n, rest) := by
  unfold magnitude
  rw [hdigits, hbehind]
  split
  · contradiction
  · next heq =>
      cases heq
      cases hzero rfl
  · -- No point and no exponent follow, so the number is whole.
    rw [hgather]
    simp only []
    split
    · exact absurd rfl (hrest '.' rfl).2.1
    · rw [exponent?_of_ends hrest]
      rfl

/-- A word is read as what it was written for, up to where its digits end. -/
theorem scan_toDigits (hn : n < UInt64.size) (hrest : Ends rest) :
    scan ((Nat.toDigits 10 n).map some ++ rest) = .ok (.integer n, rest) := by
  have hdigit : ∀ c ∈ Nat.toDigits 10 n, c.isDigit = true := fun c hc =>
    Nat.isDigit_of_mem_toDigits (by decide) (by decide) hc
  have hdigits := digits_append hdigit hrest
  have hbehind := digitsBehind_append hdigit hrest
  have hgather : gather 0 ((Nat.toDigits 10 n).map fun c => c.toNat - '0'.toNat) = (n, 0) := by
    have hvalue : Nat.ofDigitChars 10 (Nat.toDigits 10 n) 0 = n := Nat.ofDigitChars_ten_toDigits
    rw [gather_eq (by rwa [hvalue]), hvalue]
  rcases toDigits_eq_cons n with ⟨c, cs, hcs, hzero⟩
  rw [hcs] at hdigit hdigits hbehind hgather ⊢
  have hmagnitude : magnitude false ((c :: cs).map some ++ rest) = .ok (.integer n, rest) :=
    magnitude_of_digits hdigits (fun h => by rw [hzero h, List.map_nil]) hgather hbehind hrest
  unfold scan
  split
  · next heq =>
      -- A sign is no digit.
      cases heq
      have hminus := hdigit '-' List.mem_cons_self
      contradiction
  · exact hmagnitude

end Number

namespace Text

/-- Two hexadecimal digits behind two zeros, as they stand for a character that has no
    letter of its own. -/
theorem hex?_digitChar : ∀ n < 0x20, hex? (some '0') (some '0')
    (some (Nat.digitChar (n / 16))) (some (Nat.digitChar (n % 16))) = some n := by
  decide

/-- A character that needs no escape is read as itself. -/
theorem scanFrom_plain (t : Content) {c : Char} (hquote : c ≠ '"') (hslash : c ≠ '\\')
    (hlt : ¬c < ' ') (cs : List Symbol) : scanFrom t (some c :: cs) = scanFrom (t.push c) cs := by
  rw [scanFrom.eq_def]
  split
  · contradiction
  · next heq => cases heq
  · next heq =>
      cases heq
      contradiction
  · next heq =>
      cases heq
      contradiction
  · next heq =>
      cases heq
      contradiction
  · next heq =>
      cases heq
      contradiction
  · next heq =>
      cases heq
      contradiction
  · next heq =>
      cases heq
      rw [if_neg hlt]

/-- An escape by letter is read as the character that the letter stands for. -/
theorem scanFrom_letter (t : Content) {a c : Char} (ha : letter? (some a) = some c)
    (cs : List Symbol) : scanFrom t (some '\\' :: some a :: cs) = scanFrom (t.push c) cs := by
  have hu : some a ≠ some 'u' := by
    rintro heq
    cases heq
    contradiction
  rw [scanFrom, ha]
  · intro _ _ _ _ _ heq
    exact absurd heq hu
  · intro heq
    exact absurd heq hu

/-- An escape by number is read as the character that it was written for. -/
theorem scanFrom_number (t : Content) {c : Char} (h : c.toNat < 0x20) (cs : List Symbol) :
    scanFrom t (some '\\' :: some 'u' :: some '0' :: some '0' ::
      some (Nat.digitChar (c.toNat / 16)) :: some (Nat.digitChar (c.toNat % 16)) :: cs) =
      scanFrom (t.push c) cs := by
  -- Characters below the blank are far from the surrogates.
  have hlow : isLow c.toNat = false := by
    rw [isLow, Bool.and_eq_false_iff, decide_eq_false_iff_not]
    exact Or.inl (by omega)
  have hhigh : isHigh c.toNat = false := by
    rw [isHigh, Bool.and_eq_false_iff, decide_eq_false_iff_not]
    exact Or.inl (by omega)
  rw [scanFrom, hex?_digitChar c.toNat h]
  simp only [hlow, hhigh, Bool.false_eq_true, if_false, Char.ofNat_toNat]

/-- Every character of a string is read as itself. -/
theorem scanFrom_escape (t : Content) (c : Char) (cs : List Symbol) :
    scanFrom t ((escape c).map some ++ cs) = scanFrom (t.push c) cs := by
  unfold escape
  split
  · exact scanFrom_letter t rfl cs
  · exact scanFrom_letter t rfl cs
  · exact scanFrom_letter t rfl cs
  · exact scanFrom_letter t rfl cs
  · exact scanFrom_letter t rfl cs
  · exact scanFrom_letter t rfl cs
  · exact scanFrom_letter t rfl cs
  · next hquote hslash _ _ _ _ _ =>
      by_cases h : c.toNat < 0x20
      · rw [if_pos h]
        exact scanFrom_number t h cs
      · rw [if_neg h]
        have hlt : ¬c < ' ' := fun hc => h (UInt32.lt_iff_toNat_lt.mp hc)
        exact scanFrom_plain t hquote hslash hlt cs

/-- A string is read as what it was written for, up to its closing quote. -/
theorem scan_escapes (s : String) (rest : List Symbol) :
    scan ((s.toList.flatMap escape).map some ++ some '"' :: rest) = .ok (some s, rest) := by
  -- Along the characters, with any characters in front of them.
  have hfrom (done cs : List Char) :
      scanFrom { reversed := some done } ((cs.flatMap escape).map some ++ some '"' :: rest) =
        .ok (some (String.ofList (done.reverse ++ cs)), rest) := by
    induction cs generalizing done with
    | nil =>
        rw [List.flatMap_nil, List.map_nil, List.nil_append, scanFrom, List.append_nil]
        rfl
    | cons c cs ih =>
        rw [List.flatMap_cons, List.map_append, List.append_assoc, scanFrom_escape]
        refine (ih (c :: done)).trans ?_
        rw [List.reverse_cons, List.append_assoc, List.singleton_append]
  refine (hfrom [] s.toList).trans ?_
  rw [List.reverse_nil, List.nil_append, String.ofList_toList]

end Text

end Json

end StackLift
