import StackLift.Json.Basic
import StackLift.Listing.Basic

/-!
# Listings in JSON

Blocks, lines and edges as they are written for other programs.

## Main definitions

* `Block.toJson`, `Line.toJson`, `Reference.toJson`, `Flow.toJson`: The parts of
  a listing as written.
-/

namespace StackLift

namespace Block

/-- The block as written. -/
def toJson (b : Block) : Json := .object
  [("start", .word b.start), ("length", .word b.length),
    ("instr_offsets", .list .word b.offsets.toList)]

end Block

namespace Token

/-- The piece as written. -/
def toJson (t : Token) : Json := .object <|
  [("kind", .string t.kind), ("text", .string t.text)] ++
    (t.value?.map fun value => ("value", .word value)).toList

end Token

namespace Line

/-- The line as written. -/
def toJson (l : Line) : Json := .object
  [("label", .optional .string l.label),
    ("tokens", .list Token.toJson l.tokens),
    ("comment", .optional .string l.comment),
    ("source_address", .word l.address),
    ("encoding", .list .byte l.encoding)]

end Line

namespace ReferenceKind

/-- The name of the kind in documents. -/
def name : ReferenceKind → String
  | branch => "branch"
  | ret => "return"

end ReferenceKind

namespace Reference

/-- The edge as written. -/
def toJson (e : Reference) : Json := .object
  [("from", .word e.source), ("to", .optional .word e.target?), ("kind", .string e.kind.name)]

end Reference

namespace Flow

/-- The flow as written. -/
def toJson : Flow → Json
  | normal => .string "normal"
  | branching fallsThrough => .tagged "branching" (.boolean fallsThrough)
  | returning => .string "returning"

end Flow

end StackLift
