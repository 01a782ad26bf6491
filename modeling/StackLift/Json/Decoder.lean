import StackLift.Decimal.Shortest
import StackLift.Json.Document
import StackLift.Text.Quoted

/-!
# Decoders

Values of other types out of JSON. A decoder walks a value from front to back
and gives up at the first thing that is wrong, be it with the value or with the
document around it.

A document may nest arrays and objects only so deep. A decoder is told how many
levels are left, and one that goes into an array or object hands on one less.
Values that are only passed over may nest as deep as they like.

## Main definitions

* `Found`: What a document has in the place of something else.
* `Mismatch`: What is wrong with a value, with `Mismatch.message`.
* `Refusal`: Why a document was turned down.
* `Decoder`: A way to look at a value.
* `Decoder.natural`, `Decoder.text`, `Decoder.parsed`, `Decoder.optional`,
  `Decoder.list`, `Decoder.map`: Numbers, texts and collections.
* `Decoder.run`: The value of a whole document.
-/

namespace StackLift

namespace Json

/-- What a document has in the place of something else. -/
inductive Found where
  | null
  | boolean (b : Bool)
  | integer (n : Int)
  | floating (x : Float)
  | string (s : String)
  | sequence
  | map
  /-- The name of a form without its content. -/
  | unitVariant

namespace Found

/-- What was found, in words. -/
def text : Found → String
  | null => "null"
  | boolean true => "boolean `true`"
  | boolean false => "boolean `false`"
  | integer n => "integer `" ++ n.repr ++ "`"
  | floating x => "floating point `" ++ Shortest.text x ++ "`"
  | string s => "string " ++ Quoted.quote s
  | sequence => "sequence"
  | map => "map"
  | unitVariant => "unit variant"

end Found

/-- What is wrong with a value. -/
inductive Mismatch where
  /-- A value of another type was expected. -/
  | wrongType (found : Found) (expected : String)
  /-- Another value of the type was expected. -/
  | wrongValue (found : Found) (expected : String)
  /-- More elements were expected. -/
  | wrongLength (length : Nat) (expected : String)
  /-- The name of another form was expected. -/
  | unknownVariant (name : String) (expected : List String)
  /-- The part was there before. -/
  | repeatedPart (name : String)
  /-- The part is not there. -/
  | missingPart (name : String)
  /-- The value is turned down for a reason of its own. -/
  | rejected (reason : String)

namespace Mismatch

/-- A name between the quotes that messages use. -/
def ticked (name : String) : String := "`" ++ name ++ "`"

/-- A choice between names, in words. -/
def choice : List String → String
  | [] => "there are no variants"
  | [a] => "expected " ++ ticked a
  | [a, b] => "expected " ++ ticked a ++ " or " ++ ticked b
  | names => "expected one of " ++ ", ".intercalate (names.map ticked)

/-- What is wrong, in words. -/
def message : Mismatch → String
  | wrongType found expected => s!"invalid type: {found.text}, expected {expected}"
  | wrongValue found expected => s!"invalid value: {found.text}, expected {expected}"
  | wrongLength length expected => s!"invalid length {length}, expected {expected}"
  | unknownVariant name expected => s!"unknown variant {ticked name}, {choice expected}"
  | repeatedPart name => s!"duplicate field {ticked name}"
  | missingPart name => s!"missing field {ticked name}"
  | rejected reason => reason

end Mismatch

/-- Why a document was turned down. -/
inductive Refusal where
  /-- The document is no document. -/
  | fault (f : Fault)
  /-- The document does not hold what is wanted. -/
  | mismatch (m : Mismatch)

namespace Refusal

/-- The refusal of a document whose rest cannot be right. -/
def malformed : Refusal := fault .malformed

end Refusal

namespace Node

/-- The refusal met by whoever expects something else. -/
def refuse (expected : String) : Node → Refusal
  | scalar .null => .mismatch (.wrongType .null expected)
  | scalar (.boolean b) => .mismatch (.wrongType (.boolean b) expected)
  | scalar (.number (.integer n)) => .mismatch (.wrongType (.integer n) expected)
  | scalar (.number (.floating x)) => .mismatch (.wrongType (.floating x) expected)
  | scalar (.number .outOfRange) => .malformed
  | scalar (.text (some s)) => .mismatch (.wrongType (.string s) expected)
  | scalar (.text none) => .malformed
  | array _ _ => .mismatch (.wrongType .sequence expected)
  | object _ _ _ => .mismatch (.wrongType .map expected)
  | gap b => .fault b.fault

end Node

/-- A way to look at a value that may go so many levels deeper. -/
abbrev Decoder (α : Type) := Nat → Node → Except Refusal α

namespace Decoder

/-- The levels left within an array or object, if there is one left for it. -/
def enter : Nat → Except Refusal Nat
  | 0 => .error .malformed
  | levels + 1 => .ok levels

/-- The end of an array. -/
def close : Option Fault → Except Refusal Unit
  | some f => .error (.fault f)
  | none => .ok ()

/-- The end of an object whose members are all wanted or passed over. -/
def closeMembers (stray? : Option Node) (open? : Option Fault) : Except Refusal Unit :=
  match stray? with
  | some n => .error (.fault n.keyFault)
  | none => close open?

/-- A natural number below a bound. -/
def natural (bound : Nat) (expected : String) : Decoder Nat
  | _, .scalar (.number (.integer n)) =>
    if 0 ≤ n ∧ n < bound then .ok n.toNat
    else .error (.mismatch (.wrongValue (.integer n) expected))
  | _, n => .error (n.refuse expected)

/-- A byte. -/
def byte : Decoder UInt8 := fun levels n => (natural UInt8.size "u8" levels n).map UInt8.ofNat

/-- A word. -/
def word : Decoder UInt64 := fun levels n => (natural UInt64.size "u64" levels n).map UInt64.ofNat

/-- A number of bytes. -/
def size : Decoder UInt64 := fun levels n => (natural UInt64.size "usize" levels n).map UInt64.ofNat

/-- Nothing. -/
def unit : Decoder Unit
  | _, .scalar .null => .ok ()
  | _, n => .error (n.refuse "unit")

/-- A text, which is called `expected` where there is none. -/
def textAs (expected : String) : Decoder String
  | _, .scalar (.text (some s)) => .ok s
  | _, n => .error (n.refuse expected)

/-- A text. -/
def text : Decoder String := textAs "a string"

/-- A text that stands for a value. -/
def parsed {α : Type} (expected : String) (ofText? : String → Option α) : Decoder α :=
  fun levels n => do
    let s ← textAs expected levels n
    match ofText? s with
    | some a => return a
    | none => .error (.mismatch (.wrongValue (.string s) expected))

/-- A value that may be missing. -/
def optional {α : Type} (value : Decoder α) : Decoder (Option α)
  | _, .scalar .null => .ok none
  | levels, n => (value levels n).map some

/-- Values in order. -/
def list {α : Type} (item : Decoder α) : Decoder (List α)
  | levels, .array items open? => do
    let levels ← enter levels
    let as ← items.mapM (item levels)
    close open?
    return as
  | _, n => .error (n.refuse "a sequence")

/-- A member with any text as its key. -/
def entry {α : Type} (value : Decoder α) (levels : Nat) :
    Option String × Node → Except Refusal (String × α)
  | (none, _) => .error .malformed
  | (some k, n) => (value levels n).map (k, ·)

/-- Values by key, in the order in which they stand. -/
def map {α : Type} (value : Decoder α) : Decoder (List (String × α))
  | levels, .object members stray? open? => do
    let levels ← enter levels
    let as ← members.mapM (entry value levels)
    closeMembers stray? open?
    return as
  | _, n => .error (n.refuse "a map")

/-- How many levels of arrays and objects a document may have. -/
def maxLevels : Nat := 127

/-- The value of a whole document. Nothing may follow it. -/
def run {α : Type} (decoder : Decoder α) (d : Document) : Except Refusal α := do
  let a ← decoder maxLevels d.root
  if d.continues then .error .malformed else return a

end Decoder

end Json

end StackLift
