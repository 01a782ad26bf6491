import StackLift.Json.Basic
import StackLift.Json.Text

/-!
# JSON Lexemes

The marks and simple values that a document is made of. Blanks between them are
dropped.

A document may break off in the middle of a simple value. The faults that come
of it depend on what the value is read for, so the last lexeme only says what it
was that broke off; `StackLift.Json.Document` gives the faults.

## Main definitions

* `Scalar`: A value without parts.
* `Break`: A place where no value could be read.
* `Lexeme`: A mark, a simple value or a break.
* `Lexeme.scan`: The lexemes of a text, up to the first break.
-/

namespace StackLift

namespace Json

/-- A value without parts. -/
inductive Scalar where
  | null
  | boolean (b : Bool)
  | number (n : Number)
  /-- A string with its text, if it denotes one. -/
  | text (s : Option String)

/-- A place where no value could be read. -/
inductive Break where
  | missing
  /-- What follows starts no value. -/
  | stray
  /-- A word that is not the one it starts as. -/
  | word (f : Fault)
  /-- A number without the digits it needs. -/
  | number (f : Fault)
  /-- A string without an end. -/
  | text (b : Text.Broken)
deriving DecidableEq, Repr

/-- A mark, a simple value or a break. -/
inductive Lexeme where
  | openArray
  | closeArray
  | openObject
  | closeObject
  /-- The mark between a key and its value. -/
  | colon
  /-- The mark between two items or members. -/
  | comma
  /-- A value without parts. -/
  | scalar (s : Scalar)
  /-- A place where no value could be read. -/
  | broken (b : Break)

namespace Lexeme

/-- The mark that a character is. -/
def mark? : Char → Option Lexeme
  | '[' => some openArray
  | ']' => some closeArray
  | '\x7b' => some openObject
  | '\x7d' => some closeObject
  | ':' => some colon
  | ',' => some comma
  | _ => none

/-- The words, by their first letter. -/
def word? : Char → Option (List Char × Scalar)
  | 'n' => some (['u', 'l', 'l'], .null)
  | 't' => some (['r', 'u', 'e'], .boolean true)
  | 'f' => some (['a', 'l', 's', 'e'], .boolean false)
  | _ => none

/-- What stands behind the given letters. -/
def behind : List Char → List Symbol → Except Fault (List Symbol)
  | [], cs => .ok cs
  | _ :: _, [] => .error .unfinished
  | l :: ls, s :: cs => if s = some l then behind ls cs else .error .malformed

theorem length_le_of_behind {ls : List Char} {cs rest : List Symbol}
    (h : behind ls cs = .ok rest) : rest.length ≤ cs.length := by
  induction ls generalizing cs with
  | nil => cases h; exact Nat.le_refl _
  | cons l ls ih =>
    cases cs with
    | nil => contradiction
    | cons s cs =>
      simp only [behind] at h
      split at h
      · exact Nat.le_succ_of_le (ih h)
      · contradiction

/-- The lexemes of a text, up to the first break. -/
def scan : List Symbol → List Lexeme
  | [] => []
  | none :: _ => [broken .stray]
  | some c :: cs =>
    if isBlank c then scan cs
    else match mark? c with
      | some l => l :: scan cs
      | none => match word? c with
        | some (letters, value) => match _h : behind letters cs with
          | .ok rest => scalar value :: scan rest
          | .error f => [broken (.word f)]
        | none =>
          if c = '"' then match _h : Text.scan cs with
            | .ok (text, rest) => scalar (.text text) :: scan rest
            | .error b => [broken (.text b)]
          else if c = '-' ∨ c.isDigit then match _h : Number.scan (some c :: cs) with
            | .ok (n, rest) => scalar (.number n) :: scan rest
            | .error f => [broken (.number f)]
          else [broken .stray]
termination_by cs => cs.length
decreasing_by
  · simp only [List.length_cons]
    omega
  · simp only [List.length_cons]
    omega
  · have := length_le_of_behind _h
    simp only [List.length_cons]
    omega
  · have := Text.length_lt_of_scanFrom _h
    simp only [List.length_cons]
    omega
  · exact Number.length_lt_of_scan _h

end Lexeme

end Json

end StackLift
