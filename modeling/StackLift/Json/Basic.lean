/-!
# JSON

JSON as it is written. The numbers here are natural numbers, since nothing else
is ever written; what can be read is wider, and is the matter of
`StackLift.Json.Document`.

A value may be written with blanks between its marks or without. Either way the
marks are the same and stand in the same order.

## Main definitions

* `Json`: A value to write.
* `Json.Layout`: The blanks between the marks of a value.
* `Json.quote`: A string as it is written.
* `Json.write`: A value as it is written.
* `Json.pretty`, `Json.compact`: A value over several lines, and on one line.
-/

namespace StackLift

/-- A JSON value to write. -/
inductive Json where
  | null
  | boolean (b : Bool)
  | number (n : Nat)
  | string (s : String)
  | array (items : List Json)
  | object (members : List (String × Json))

namespace Json

/-- A word as a number. -/
def word (w : UInt64) : Json := number w.toNat

/-- A byte as a number. -/
def byte (b : UInt8) : Json := number b.toNat

/-- A value that may be missing. -/
def optional {α : Type} (write : α → Json) : Option α → Json
  | some a => write a
  | none => null

/-- Values in order. -/
def list {α : Type} (write : α → Json) (as : List α) : Json := array (as.map write)

/-- A value under the name of its form. -/
def tagged (tag : String) (content : Json) : Json := object [(tag, content)]

/-- One character as it stands between quotes. Of the controls, those below the
    blank are escaped, five of them by a letter and the rest by number. -/
def escape (c : Char) : List Char :=
  match c with
  | '"' => ['\\', '"']
  | '\\' => ['\\', '\\']
  | '\x08' => ['\\', 'b']
  | '\t' => ['\\', 't']
  | '\n' => ['\\', 'n']
  | '\x0c' => ['\\', 'f']
  | '\r' => ['\\', 'r']
  | c =>
    if c.toNat < 0x20 then
      ['\\', 'u', '0', '0', Nat.digitChar (c.toNat / 16), Nat.digitChar (c.toNat % 16)]
    else [c]

/-- A string as it is written. -/
def quote (s : String) : List Char := '"' :: s.toList.flatMap escape ++ ['"']

/-- The character may stand between the marks of a value. -/
def isBlank (c : Char) : Bool := c = ' ' || c = '\t' || c = '\n' || c = '\r'

/-- The blanks between the marks of a value. -/
structure Layout where
  /-- What stands before an item or a closing bracket that is so many levels in. -/
  line : Nat → List Char
  /-- What stands between a colon and the value behind it. -/
  gap : List Char
  isBlank_of_mem_line : ∀ depth, ∀ c ∈ line depth, isBlank c = true
  isBlank_of_mem_gap : ∀ c ∈ gap, isBlank c = true

namespace Layout

/-- No blanks at all. -/
def compact : Layout where
  line _ := []
  gap := []
  isBlank_of_mem_line _ _ hc := absurd hc List.not_mem_nil
  isBlank_of_mem_gap _ hc := absurd hc List.not_mem_nil

/-- Every item on a line of its own, each level two blanks further in. -/
def pretty : Layout where
  line depth := '\n' :: List.replicate (2 * depth) ' '
  gap := [' ']
  isBlank_of_mem_line := by
    intro depth c hc
    rcases List.mem_cons.mp hc with rfl | hc
    · rfl
    · rw [List.eq_of_mem_replicate hc]
      rfl
  isBlank_of_mem_gap := by
    intro c hc
    rw [List.mem_singleton.mp hc]
    rfl

end Layout

mutual

/-- A value that is `depth` levels in. Brackets with nothing between them stay
    together. -/
def writeAt (l : Layout) (depth : Nat) : Json → List Char
  | null => ['n', 'u', 'l', 'l']
  | boolean true => ['t', 'r', 'u', 'e']
  | boolean false => ['f', 'a', 'l', 's', 'e']
  | number n => Nat.toDigits 10 n
  | string s => quote s
  | array [] => ['[', ']']
  | array (item :: items) =>
    '[' :: (l.line (depth + 1) ++ writeAt l (depth + 1) item ++ writeItems l (depth + 1) items ++
      l.line depth ++ [']'])
  | object [] => ['\x7b', '\x7d']
  | object ((key, value) :: members) =>
    '\x7b' :: (l.line (depth + 1) ++ quote key ++ ':' :: l.gap ++ writeAt l (depth + 1) value ++
      writeMembers l (depth + 1) members ++ l.line depth ++ ['\x7d'])

/-- The values of an array behind its first one. -/
def writeItems (l : Layout) (depth : Nat) : List Json → List Char
  | [] => []
  | item :: items => ',' :: (l.line depth ++ writeAt l depth item ++ writeItems l depth items)

/-- The members of an object behind its first one. -/
def writeMembers (l : Layout) (depth : Nat) : List (String × Json) → List Char
  | [] => []
  | (key, value) :: members =>
    ',' :: (l.line depth ++ quote key ++ ':' :: l.gap ++ writeAt l depth value ++
      writeMembers l depth members)

end

/-- A value as it is written. -/
def write (l : Layout) (j : Json) : String := String.ofList (j.writeAt l 0)

/-- A value over several lines. -/
def pretty (j : Json) : String := j.write .pretty

/-- A value on one line. -/
def compact (j : Json) : String := j.write .compact

end Json

end StackLift
