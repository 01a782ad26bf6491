import StackLift.Instruction.Basic
import StackLift.Json.Decoder
import StackLift.Project.Files
import StackLift.Registry

/-!
# Failures

What can go wrong between a request and its answer, with the words in which it
is reported and the kind under which it is filed.

## Main definitions

* `Failure`: Why nothing came of what was asked for.
* `FailureKind`: The kinds of failure.
* `Failure.kind`, `Failure.message`: The kind and the wording of each failure.
-/

namespace StackLift

/-- Why nothing came of what was asked for. -/
inductive Failure where
  /-- A file could not be read. -/
  | file (e : FileError)
  /-- A file does not hold what it should. -/
  | document (e : Json.Refusal)
  /-- A revision cannot be had. -/
  | revision (e : RevisionError)
  /-- There is no instruction where one is asked for. -/
  | decode (e : DecodeError)
  /-- The project has no program of that name. -/
  | unknownProgram (name : String)
  /-- Nothing says which revision is meant. -/
  | unspecifiedRevision
  /-- Nothing says which image is meant. -/
  | unspecifiedImage
  /-- The text is no address. -/
  | badAddress (text : String)
  /-- The text is no number of steps. -/
  | badStepCount (text : String)
  /-- Nothing says what is to be done. -/
  | unspecifiedCommand

/-- The kinds of failure. -/
inductive FailureKind where
  /-- Something that was named does not exist. -/
  | notFound
  /-- What was asked for makes no sense. -/
  | invalidInput
  /-- A file does not hold what it should. -/
  | invalidData
  /-- A file ends too early. -/
  | unexpectedEof
  /-- Something must not be done. -/
  | permissionDenied
  /-- A file was taken for a directory. -/
  | notADirectory
  /-- A directory was taken for a file. -/
  | isADirectory
  /-- A file is too large. -/
  | fileTooLarge
  /-- A file cannot have that name. -/
  | invalidFilename
deriving DecidableEq, Repr

namespace FileError

/-- The kind of failure. -/
def kind : FileError → FailureKind
  | notFound => .notFound
  | forbidden => .permissionDenied
  | notADirectory => .notADirectory
  | isADirectory => .isADirectory
  | tooLarge => .fileTooLarge
  | nameTooLong => .invalidFilename
  | nulCharacter => .invalidInput

end FileError

namespace Json.Refusal

/-- The kind of failure. -/
def kind : Refusal → FailureKind
  | fault .unfinished => .unexpectedEof
  | fault .malformed | mismatch _ => .invalidData

/-- What went wrong, in words. -/
def message : Refusal → String
  | fault .unfinished => "the document is not finished"
  | fault .malformed => "the document is malformed"
  | mismatch m => m.message

end Json.Refusal

namespace RevisionError

/-- The kind of failure. -/
def kind : RevisionError → FailureKind
  | notRegistered _ => .notFound
  | inconsistent _ _ | alreadyRegistered _ => .invalidInput

end RevisionError

namespace DecodeError

/-- The kind of failure. -/
def kind : DecodeError → FailureKind
  | unrecognized _ _ | truncated _ _ _ => .invalidData

end DecodeError

namespace Failure

/-- The kind of failure. -/
def kind : Failure → FailureKind
  | file e => e.kind
  | document e => e.kind
  | revision e => e.kind
  | decode e => e.kind
  | unknownProgram _ => .notFound
  | unspecifiedRevision | unspecifiedImage | badAddress _ | badStepCount _
  | unspecifiedCommand => .invalidInput

/-- What went wrong, in words. -/
def message : Failure → String
  | file e => e.message
  | document e => e.message
  | revision e => e.message
  | decode e => e.message
  | unknownProgram name => s!"The specified program {name} does not exist."
  | unspecifiedRevision => "Unspecified revision, analysis cannot continue."
  | unspecifiedImage => "Did not specify an image, analysis cannot continue."
  | badAddress text => s!"{text} is not a valid address"
  | badStepCount text => s!"{text} is not a valid step count"
  | unspecifiedCommand => "Please enter a command"

end Failure

end StackLift
