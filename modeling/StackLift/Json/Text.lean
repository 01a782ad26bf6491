import StackLift.Json.Number
import StackLift.Literal

/-!
# JSON Strings

Strings as they are read. Not every string between quotes denotes a text: an
escape may name one half of a surrogate pair without the other, and bytes need
not form characters. Whoever passes over a string does not mind. Whoever wants
its text does, and learns of a lone surrogate where it stands, but of bytes that
are no characters only when the string is closed.

## Main definitions

* `Text.Content`: What was found between the quotes so far.
* `Text.scanFrom`: The string up to its closing quote.
* `Text.Broken`: A string without an end.

## Theorems

* `length_lt_of_scanFrom`: A string takes up symbols.
-/

namespace StackLift

namespace Json

namespace Text

/-- What was found between the quotes so far. -/
structure Content where
  /-- The characters in reverse, unless they are no text. -/
  reversed : Option (List Char) := some []
  /-- Some escape names half of a surrogate pair. -/
  unpaired : Bool := false

namespace Content

/-- The content with a further character. -/
def push (t : Content) (c : Char) : Content := { t with reversed := t.reversed.map (c :: ·) }

/-- The content with bytes that are no character. -/
def spoil (t : Content) : Content := { t with reversed := none }

/-- The content with half of a surrogate pair. -/
def tear (_ : Content) : Content := { reversed := none, unpaired := true }

/-- The text, if the content denotes one. -/
def text? (t : Content) : Option String := t.reversed.map fun cs => String.ofList cs.reverse

end Content

/-- A string without an end: the fault that is met by whoever wants the text, and
    by whoever passes over the string. -/
structure Broken where
  /-- Why there is no text. -/
  wanted : Fault
  /-- Why the string cannot be passed over. -/
  passed : Fault
deriving DecidableEq, Repr

/-- A string that breaks off behind some content. -/
def Content.broken (t : Content) (f : Fault) : Broken := ⟨if t.unpaired then .malformed else f, f⟩

/-- The character that a letter behind a backslash stands for. -/
def letter? : Symbol → Option Char
  | some '"' => some '"'
  | some '\\' => some '\\'
  | some '/' => some '/'
  | some 'b' => some '\x08'
  | some 'f' => some '\x0c'
  | some 'n' => some '\n'
  | some 'r' => some '\r'
  | some 't' => some '\t'
  | _ => none

/-- The number of four hexadecimal digits. -/
def hex? (a b c d : Symbol) : Option Nat :=
  [a, b, c, d].foldlM (fun n s => (s.bind Literal.digit?).map (n * 16 + ·)) 0

/-- The numbers that stand for the first half of a surrogate pair. -/
def isHigh (n : Nat) : Bool := 0xd800 ≤ n && n < 0xdc00

/-- The numbers that stand for the second half of a surrogate pair. -/
def isLow (n : Nat) : Bool := 0xdc00 ≤ n && n < 0xe000

/-- The character of a surrogate pair. -/
def pair (high low : Nat) : Char := Char.ofNat (0x10000 + (high - 0xd800) * 0x400 + (low - 0xdc00))

/-- The fault of an escape by number that is not followed by four digits. It is
    unfinished if there are no four bytes, whatever they are. -/
def hexFault (rest : List Symbol) : Fault :=
  if Utf8.totalSize rest < 4 then .unfinished else .malformed

/-- The second half of a surrogate pair, spelled out behind the first, and what
    stands behind it. -/
def second? : List Symbol → Option (Nat × List Symbol)
  | some '\\' :: some 'u' :: a :: b :: c :: d :: cs =>
    ((hex? a b c d).filter isLow).map (·, cs)
  | _ => none

/-- The symbols end before it can be seen that they do not name the second half
    of a surrogate pair. -/
def mayBecomeSecond : List Symbol → Bool
  | [] => true
  | [some '\\'] => true
  | some '\\' :: some 'u' :: cs => hexFault cs = .unfinished
  | _ => false

theorem length_le_of_second? {cs rest : List Symbol} {n : Nat} (h : second? cs = some (n, rest)) :
    rest.length ≤ cs.length := by
  unfold second? at h
  split at h
  · obtain ⟨_, _, heq⟩ := Option.map_eq_some_iff.mp h
    cases heq
    simp only [List.length_cons]
    omega
  · contradiction

/-- The string whose opening quote and first content have been read, and what
    stands behind its closing quote. -/
def scanFrom (t : Content) : List Symbol → Except Broken (Option String × List Symbol)
  | [] => .error (t.broken .unfinished)
  | none :: cs => scanFrom t.spoil cs
  | some '"' :: cs => .ok (t.text?, cs)
  | some '\\' :: some 'u' :: a :: b :: c :: d :: cs =>
    match hex? a b c d with
    | none => .error (t.broken .malformed)
    | some n =>
      if isLow n then scanFrom t.tear cs
      else if isHigh n then match _h : second? cs with
        | some (m, rest) => scanFrom (t.push (pair n m)) rest
        | none => scanFrom (if mayBecomeSecond cs then t.spoil else t.tear) cs
      else scanFrom (t.push (Char.ofNat n)) cs
  | some '\\' :: some 'u' :: cs => .error (t.broken (hexFault cs))
  | some '\\' :: s :: cs => match letter? s with
    | some c => scanFrom (t.push c) cs
    | none => .error (t.broken .malformed)
  | some '\\' :: [] => .error (t.broken .unfinished)
  | some c :: cs => if c < ' ' then .error (t.broken .malformed) else scanFrom (t.push c) cs
termination_by cs => cs.length
decreasing_by
  all_goals simp only [List.length_cons]
  all_goals first
    | omega
    | have := length_le_of_second? (by assumption)
      omega

/-- The string behind its opening quote, and what stands behind its closing
    quote. -/
def scan (cs : List Symbol) : Except Broken (Option String × List Symbol) := scanFrom {} cs

/-- A string takes up symbols. -/
theorem length_lt_of_scanFrom {t : Content} {cs rest : List Symbol} {text : Option String}
    (h : scanFrom t cs = .ok (text, rest)) : rest.length < cs.length := by
  fun_induction scanFrom t cs with
  | case6 _ _ _ _ _ _ _ _ _ _ _ _ hs ih =>
    have := length_le_of_second? hs
    have := ih h
    simp only [List.length_cons]
    omega
  | _ => simp_all <;> omega

end Text

end Json

end StackLift
