import StackLift.Json.Lexeme

/-!
# JSON Documents

A document as the tree of its values, as far as it can be read. Reading does not
fail. Where the document breaks off, the tree has a gap, and everything that
stands before the gap is there. Whoever walks the tree from front to back comes
across what is wrong with a value and what is wrong with the document in the
order in which they stand in the text.

What a gap means depends on who comes across it. There are three ways to look at
a value: for what it is, for a name, or only to get past it.

The tree is built by a walk over the lexemes that remembers the containers
around the present place.

## Main definitions

* `Node`: A value, or the gap where one should be.
* `Break.fault`, `Break.nameFault`, `Break.passFault`: What a gap means to the
  three kinds of readers.
* `Node.pass`: The way past a value.
* `Place`: Where in a document a walk is.
* `Place.step`: The place behind a lexeme.
* `Document.read`, `Document.ofText`, `Document.ofBytes`: The tree of a document.
-/

namespace StackLift

namespace Json

/-- A value of a document, or the gap where one should be. Keys come with their
    text, if they denote one. -/
inductive Node where
  /-- A value without parts. -/
  | scalar (s : Scalar)
  /-- Values in order. The array is not closed if there is a fault behind the
      last of them. -/
  | array (items : List Node) (open? : Option Fault)
  /-- Values by key. The object is not closed if there is something behind the
      last of them that is no key, or a fault where another one might follow. -/
  | object (members : List (Option String × Node)) (stray? : Option Node) (open? : Option Fault)
  /-- The gap where a value should be. -/
  | gap (b : Break)

namespace Break

/-- The fault met by whoever looks for a value. -/
def fault : Break → Fault
  | missing => .unfinished
  | stray => .malformed
  | word f | number f => f
  | text b => b.wanted

/-- The fault met by whoever looks for a name. Only a string is looked at. -/
def nameFault : Break → Fault
  | missing => .unfinished
  | stray | word _ | number _ => .malformed
  | text b => b.wanted

/-- The fault met by whoever passes over a value. -/
def passFault : Break → Fault
  | missing => .unfinished
  | stray | number _ => .malformed
  | word f => f
  | text b => b.passed

end Break

namespace Node

/-- The fault met by whoever needs a key and finds this instead. -/
def keyFault : Node → Fault
  | gap b => b.nameFault
  | scalar _ | array _ _ | object _ _ _ => .malformed

/-- The fault met by whoever passes over a key and finds this instead. -/
def keyPassFault : Node → Fault
  | gap .missing => .unfinished
  | gap (.text b) => b.passed
  | gap .stray | gap (.word _) | gap (.number _) => .malformed
  | scalar _ | array _ _ | object _ _ _ => .malformed

mutual

/-- Passes over a value. -/
def pass : Node → Except Fault Unit
  | scalar _ => .ok ()
  | array items open? => do
    passItems items
    match open? with
    | some f => .error f
    | none => .ok ()
  | object members stray? open? => do
    passMembers members
    match stray?, open? with
    | some n, _ => .error n.keyPassFault
    | none, some f => .error f
    | none, none => .ok ()
  | gap b => .error b.passFault

/-- Passes over the items of an array. -/
def passItems : List Node → Except Fault Unit
  | [] => .ok ()
  | n :: ns => do
    pass n
    passItems ns

/-- Passes over the members of an object. -/
def passMembers : List (Option String × Node) → Except Fault Unit
  | [] => .ok ()
  | (_, n) :: ns => do
    pass n
    passMembers ns

end

end Node

/-- A container around the present place, with what has been read of it in
    reverse. -/
inductive Frame where
  /-- An array that waits for its next item. -/
  | array (items : List Node)
  /-- An object that waits for the value of a key. -/
  | object (members : List (Option String × Node)) (key : Option String)

/-- The value that ends in a gap within the given containers, innermost
    first. -/
def Frame.breakOff (frames : List Frame) (n : Node) : Node :=
  frames.foldl (fun n frame => match frame with
    | array items => .array (n :: items).reverse (some .unfinished)
    | object members key => .object ((key, n) :: members).reverse none (some .unfinished)) n

/-- Where in a document a walk is, with the containers around it. -/
inductive Place where
  /-- Before a value. -/
  | value (frames : List Frame)
  /-- Before a key. -/
  | key (frames : List Frame) (members : List (Option String × Node))
  /-- Behind a key. -/
  | colon (frames : List Frame) (members : List (Option String × Node)) (key : Option String)
  /-- Behind an item of an array. -/
  | item (frames : List Frame) (items : List Node)
  /-- Behind a member of an object. -/
  | member (frames : List Frame) (members : List (Option String × Node))
  /-- Behind the value of the whole document. -/
  | finish (root : Node)

/-- A document as far as it can be read. -/
structure Document where
  /-- The value. -/
  root : Node
  /-- Something follows the value. -/
  continues : Bool

namespace Place

/-- The place behind a value that is complete. -/
def behind (n : Node) : List Frame → Place
  | [] => finish n
  | .array items :: frames => item frames (n :: items)
  | .object members k :: frames => member frames ((k, n) :: members)

/-- What a lexeme is where a key should be. The parts of a container do not
    matter there. -/
def notKey : Lexeme → Node
  | .scalar s => .scalar s
  | .openArray => .array [] none
  | .openObject => .object [] none none
  | .broken b => .gap b
  | .closeArray | .closeObject | .colon | .comma => .gap .stray

/-- The place behind a lexeme, or the document if it breaks off there. -/
def step : Place → Lexeme → Except Document Place
  | value frames, .scalar s => .ok (behind (.scalar s) frames)
  | value frames, .openArray => .ok (value (.array [] :: frames))
  | value frames, .openObject => .ok (key frames [])
  | value (.array [] :: frames), .closeArray => .ok (behind (.array [] none) frames)
  | value frames, .broken b => .error ⟨Frame.breakOff frames (.gap b), false⟩
  | value frames, _ => .error ⟨Frame.breakOff frames (.gap .stray), false⟩
  | key frames members, .scalar (.text k) => .ok (colon frames members k)
  | key frames [], .closeObject => .ok (behind (.object [] none none) frames)
  | key frames members, l =>
    .error ⟨Frame.breakOff frames (.object members.reverse (some (notKey l)) none), false⟩
  | colon frames members k, .colon => .ok (value (.object members k :: frames))
  | colon frames members k, _ =>
    .error ⟨Frame.breakOff (.object members k :: frames) (.gap .stray), false⟩
  | item frames items, .comma => .ok (value (.array items :: frames))
  | item frames items, .closeArray => .ok (behind (.array items.reverse none) frames)
  | item frames items, _ =>
    .error ⟨Frame.breakOff frames (.array items.reverse (some .malformed)), false⟩
  | member frames members, .comma => .ok (key frames members)
  | member frames members, .closeObject => .ok (behind (.object members.reverse none none) frames)
  | member frames members, _ =>
    .error ⟨Frame.breakOff frames (.object members.reverse none (some .malformed)), false⟩
  | finish root, _ => .error ⟨root, true⟩

/-- The document that ends at a place. -/
def halt : Place → Document
  | value frames => ⟨Frame.breakOff frames (.gap .missing), false⟩
  | key frames members =>
    ⟨Frame.breakOff frames (.object members.reverse (some (.gap .missing)) none), false⟩
  | colon frames members k => ⟨Frame.breakOff (.object members k :: frames) (.gap .missing), false⟩
  | item frames items =>
    ⟨Frame.breakOff frames (.array items.reverse (some .unfinished)), false⟩
  | member frames members =>
    ⟨Frame.breakOff frames (.object members.reverse none (some .unfinished)), false⟩
  | finish root => ⟨root, false⟩

/-- The document that goes on with the given lexemes. -/
def walk (p : Place) : List Lexeme → Document
  | [] => p.halt
  | l :: ls => match p.step l with
    | .ok p => p.walk ls
    | .error d => d

end Place

namespace Document

/-- The document made of some symbols. -/
def read (cs : List Symbol) : Document := (Place.value []).walk (Lexeme.scan cs)

/-- The document that a text holds. -/
def ofText (text : String) : Document := read (text.toList.map some)

/-- The document that a byte sequence holds. -/
def ofBytes (bytes : List UInt8) : Document := read (Utf8.symbols bytes)

end Document

end Json

end StackLift
