import StackLift.Json.Basic
import StackLift.Json.Record

/-!
# Programs

An image of bytecode and what has to be known to decode it. Everything about a
program may be left open, because settings come from a project file and from the
command line, and the latter are laid over the former.

## Main definitions

* `Program`: The settings of a program.
* `Program.baseAddress`, `Program.entryAddresses`: The settings that have a
  default.
* `Program.overriddenBy`: The settings with others laid over them.
* `Program.toJson`, `Program.decoder`: A program as written and as read.
-/

namespace StackLift

/-- The settings of a program. -/
structure Program where
  /-- The name under which a project knows the program. -/
  name : Option String := none
  /-- The path of the image. -/
  image : Option String := none
  /-- The name of the revision. -/
  revision : Option String := none
  /-- The address of the first byte of the image. -/
  base : Option UInt64 := none
  /-- Where execution starts. -/
  entries : List UInt64 := []
deriving DecidableEq, Repr

namespace Program

/-- The address of the first byte of the image, zero unless it is set. -/
def baseAddress (p : Program) : UInt64 := p.base.getD 0

/-- Where execution starts, which is at the first byte of the image unless it is
    set. -/
def entryAddresses (p : Program) : List UInt64 :=
  if p.entries.isEmpty then [p.baseAddress] else p.entries

/-- The settings with others laid over them. What the others leave open stays as
    it is. -/
def overriddenBy (p other : Program) : Program where
  name := other.name <|> p.name
  image := other.image <|> p.image
  revision := other.revision <|> p.revision
  base := other.base <|> p.base
  entries := if other.entries.isEmpty then p.entries else other.entries

/-- The program as written. Its name is not part of it. -/
def toJson (p : Program) : Json := .object
  [("image", .optional .string p.image),
    ("revision", .optional .string p.revision),
    ("base", .optional .word p.base),
    ("entry_points", .list .word p.entries)]

end Program

/-- The parts of a program, as far as they are known. -/
structure ProgramDraft where
  image : Option (Option String) := none
  revision : Option (Option String) := none
  base : Option (Option UInt64) := none
  /-- Where execution starts. -/
  entries : Option (List UInt64) := none

namespace ProgramDraft

/-- The parts of a program. -/
def parts : List (Json.RecordPart ProgramDraft) :=
  [.of "image" (.optional (.textAs "a relative path")) (·.image)
      fun a d => { d with image := some a },
    .of "revision" (.optional .text) (·.revision) fun a d => { d with revision := some a },
    .of "base" (.optional .word) (·.base) fun a d => { d with base := some a },
    .of "entry_points" (.list .word) (·.entries) (fun a d => { d with entries := some a }) true]

/-- The program of a draft. What is missing is left open. -/
def program (d : ProgramDraft) : Program where
  image := d.image.getD none
  revision := d.revision.getD none
  base := d.base.getD none
  entries := d.entries.getD []

end ProgramDraft

namespace Program

/-- The program as read. -/
def decoder : Json.Decoder Program :=
  Json.Shape.decode ⟨"struct Program", ProgramDraft.parts, {}, fun d => .ok d.program⟩

end Program

end StackLift
