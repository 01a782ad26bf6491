import StackLift.Image
import StackLift.Project.Failure
import StackLift.Project.Program
import StackLift.Revision.Json

/-!
# Projects

Programs and revisions of the instruction set, by name. A project keeps the
paths of the files that define its revisions; whatever name such a file gives to
its revision, it is the project's name that counts.

## Main definitions

* `Project`: Programs and definition files by name.
* `Project.ofBytes`: The project that a file holds.
* `Project.registry`: The revisions that a project knows.
* `Project.resolve`: The program that is meant.
-/

namespace StackLift

/-- What comes of a computation without effects. -/
def liftExcept {ε α : Type} {m : Type → Type} [Monad m] (x : Except ε α) : ExceptT ε m α :=
  ExceptT.mk (pure x)

/-- The bytes of a file. -/
def fetch {m : Type → Type} [Monad m] (read : FileReader m) (path : String) :
    ExceptT Failure m (List UInt8) :=
  ExceptT.mk ((·.mapError .file) <$> read path)

/-- Programs and definition files by name. -/
structure Project where
  programs : Std.ExtTreeMap String Program := ∅
  /-- The paths of the definition files, by the names of the revisions. -/
  revisions : Std.ExtTreeMap String String := ∅

/-- The parts of a project, as far as they are known. -/
structure ProjectDraft where
  programs : Option (List (String × Program)) := none
  revisions : Option (List (String × String)) := none

namespace ProjectDraft

open Json (RecordPart required)

/-- The parts of a project. -/
def parts : List (RecordPart ProjectDraft) :=
  [.of "programs" (.map Program.decoder) (·.programs) fun a d => { d with programs := some a },
    .of "revisions" (.map (.textAs "a relative path")) (·.revisions)
      (fun a d => { d with revisions := some a }) true]

/-- The project of a draft. The programs learn the names they are known by. Of
    two things under one name the latter counts. -/
def project (d : ProjectDraft) : Except Json.Refusal Project := do
  let programs ← required "programs" d.programs
  return {
    programs := .ofList <| programs.map fun (name, p) => (name, { p with name := some name })
    revisions := .ofList (d.revisions.getD []) }

end ProjectDraft

namespace Project

/-- The project as written. -/
def toJson (p : Project) : Json := .object
  [("programs", .object (p.programs.toList.map fun (name, program) => (name, program.toJson))),
    ("revisions", .object (p.revisions.toList.map fun (name, path) => (name, .string path)))]

/-- The project as read. -/
def decoder : Json.Decoder Project :=
  Json.Shape.decode ⟨"struct Project", ProjectDraft.parts, {}, ProjectDraft.project⟩

/-- The project that a file holds. -/
def ofBytes (bytes : List UInt8) : Except Json.Refusal Project :=
  decoder.run (.ofBytes bytes)

/-- The program that is taken if none is named, the first one by name. -/
def defaultProgram (p : Project) : Option Program := (p.programs.toList.head?).map (·.2)

/-- The registry with the revision that a definition file describes, under the
    given name. -/
def addDefinition (g : Registry) (name : String) (bytes : List UInt8) :
    Except Failure Registry := do
  let d ← (Definition.decoder.run (.ofBytes bytes)).mapError .document
  (g.register { d with name }).mapError .revision

/-- The built-in revisions and those that the project's files define, in the order
    of their names. The paths are relative to `root`. -/
def registry {m : Type → Type} [Monad m] (p : Project) (read : FileReader m) (root : String) :
    ExceptT Failure m Registry :=
  p.revisions.toList.foldlM (fun g (name, path) => do
    let bytes ← fetch read (Path.within root path)
    liftExcept (addDefinition g name bytes)) Registry.builtins

/-- The program that is meant: the one of that name, or else the default one, with
    other settings laid over it. Without any program these settings are all there
    is. -/
def resolve (p : Project) (name : Option String) (settings : Program) : Except Failure Program :=
  match name with
  | some name => match p.programs[name]? with
    | some program => .ok (program.overriddenBy settings)
    | none => .error (.unknownProgram name)
  | none => match p.defaultProgram with
    | some program => .ok (program.overriddenBy settings)
    | none => .ok settings

end Project

namespace Program

/-- The revision that a program is decoded with. -/
def findRevision (p : Program) (g : Registry) : Except Failure Revision :=
  match p.revision with
  | some name => (g.get name).mapError .revision
  | none => .error .unspecifiedRevision

/-- The image of a program. The path is relative to `root`. -/
def readImage {m : Type → Type} [Monad m] (p : Program) (read : FileReader m) (root : String) :
    ExceptT Failure m Image :=
  match p.image with
  | some path => do
    let bytes ← fetch read (Path.within root path)
    match Image.ofBytes? p.baseAddress bytes.toArray with
    | some image => return image
    | none => throw (.file .tooLarge)
  | none => throw .unspecifiedImage

end Program

end StackLift
