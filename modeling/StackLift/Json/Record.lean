import StackLift.Json.Decoder

/-!
# Records

Values with named parts. A record is written as an object with the parts in any
order, or as an array with all of them in the order of their declaration.

In an object, members under other keys are passed over, no part may come twice,
and which parts are missing is looked at when the object has ended. In an array
only the parts that have a default may be missing.

The parts are collected in a draft, in which each of them may still be missing.

## Main definitions

* `RecordPart`: A named part of a record.
* `Shape`: A record as a list of parts.
* `Shape.decode`: The record out of an object or array.
-/

namespace StackLift

namespace Json

/-- A named part of a record that is collected in a draft of type `σ`. -/
structure RecordPart (σ : Type) where
  /-- The name of the part. -/
  name : String
  /-- An array may end before the part. -/
  hasDefault : Bool
  /-- The draft has the part. -/
  isSet : σ → Bool
  /-- The draft with the part that a value stands for. -/
  read : Nat → Node → σ → Except Refusal σ

namespace RecordPart

/-- The part that `get` finds in the draft and `set` puts there. -/
def of {σ α : Type} (name : String) (decoder : Decoder α) (get : σ → Option α)
    (set : α → σ → σ) (hasDefault : Bool := false) : RecordPart σ where
  name
  hasDefault
  isSet draft := (get draft).isSome
  read levels n draft := (decoder levels n).map (set · draft)

end RecordPart

/-- A part that has to be there. -/
def required {α : Type} (name : String) : Option α → Except Refusal α
  | some a => .ok a
  | none => .error (.mismatch (.missingPart name))

/-- A record of type `α` as a list of parts. -/
structure Shape (σ α : Type) where
  /-- What the record is called. -/
  title : String
  /-- The parts in the order of their declaration. -/
  parts : List (RecordPart σ)
  /-- The draft without parts. -/
  start : σ
  /-- The record of a draft, unless a part is missing. -/
  finish : σ → Except Refusal α

namespace Shape

variable {σ α : Type}

/-- The draft behind a member of an object. -/
def readMember (s : Shape σ α) (levels : Nat) (draft : σ) :
    Option String × Node → Except Refusal σ
  | (none, _) => .error .malformed
  | (some k, n) => match s.parts.find? (·.name == k) with
    | some f =>
      if f.isSet draft then .error (.mismatch (.repeatedPart k)) else f.read levels n draft
    | none => match n.pass with
      | .ok _ => .ok draft
      | .error f => .error (.fault f)

/-- What is expected of an array that is too short. -/
def extent (s : Shape σ α) : String :=
  match s.parts.length with
  | 1 => s.title ++ " with 1 element"
  | n => s!"{s.title} with {n} elements"

/-- The draft behind the items of an array, the first of which belongs to the
    first of the parts. So many items came before. -/
def readItems (s : Shape σ α) (levels : Nat) (open? : Option Fault) (before : Nat) (draft : σ) :
    List (RecordPart σ) → List Node → Except Refusal σ
  | [], [] => do
    Decoder.close open?
    return draft
  | [], _ :: _ => .error .malformed
  | f :: fs, n :: ns => do
    let draft ← f.read levels n draft
    s.readItems levels open? (before + 1) draft fs ns
  | f :: fs, [] => do
    Decoder.close open?
    if f.hasDefault then s.readItems levels open? (before + 1) draft fs []
    else .error (.mismatch (.wrongLength before s.extent))

/-- The record out of an object or array. -/
def decode (s : Shape σ α) : Decoder α
  | levels, .object members stray? open? => do
    let levels ← Decoder.enter levels
    let draft ← members.foldlM (s.readMember levels) s.start
    Decoder.closeMembers stray? open?
    s.finish draft
  | levels, .array items open? => do
    let levels ← Decoder.enter levels
    let draft ← s.readItems levels open? 0 s.start s.parts items
    s.finish draft
  | _, n => .error (n.refuse s.title)

end Shape

end Json

end StackLift
