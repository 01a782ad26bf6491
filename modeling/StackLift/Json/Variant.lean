import StackLift.Json.Decoder

/-!
# Variants

Values of one form out of several, each with a name. A form without content is
written as its name, all others as an object with one member, the name being the
key. A form without content may be written that way, too, with `null` as its
content.

## Main definitions

* `Form`: What belongs to a name.
* `variant`: The value of one of several forms.
-/

namespace StackLift

namespace Json

/-- What belongs to the name of a form. -/
inductive Form (α : Type) where
  /-- The name is the whole value. -/
  | unit (a : α)
  /-- A value belongs to the name. -/
  | newtype (content : Decoder α)
  /-- A record belongs to the name. -/
  | record (content : Decoder α)

namespace Form

variable {α : Type}

/-- The value that the name alone stands for. -/
def alone : Form α → Except Refusal α
  | unit a => .ok a
  | newtype _ => .error (.mismatch (.wrongType .unitVariant "newtype variant"))
  | record _ => .error (.mismatch (.wrongType .unitVariant "struct variant"))

/-- The value that the name stands for together with its content. -/
def decode : Form α → Decoder α
  | unit a => fun levels n => (Decoder.unit levels n).map fun _ => a
  | newtype content | record content => content

end Form

variable {α : Type}

/-- The form of a name. -/
def formOf (forms : List (String × Form α)) (name : String) : Except Refusal (Form α) :=
  match forms.find? (·.1 == name) with
  | some (_, form) => .ok form
  | none => .error (.mismatch (.unknownVariant name (forms.map (·.1))))

/-- The value of one of several forms. The name of the form is looked at before
    what follows it; nothing but a string can be that name. -/
def variant (forms : List (String × Form α)) : Decoder α
  | _, .scalar (.text (some name)) => do (← formOf forms name).alone
  | levels, .object [] stray? _ => do
    let _ ← Decoder.enter levels
    match stray? with
    | some n => .error (.fault n.keyFault)
    | none => .error .malformed
  | levels, .object ((none, _) :: _) _ _ => do
    let _ ← Decoder.enter levels
    .error .malformed
  | levels, .object ((some name, n) :: others) stray? open? => do
    let levels ← Decoder.enter levels
    let form ← formOf forms name
    let a ← form.decode levels n
    if ¬others.isEmpty ∨ stray?.isSome then .error .malformed
    Decoder.close open?
    return a
  | _, .gap b => .error (.fault b.nameFault)
  | _, _ => .error .malformed

end Json

end StackLift
