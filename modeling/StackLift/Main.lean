import StackLift.Command.Basic

/-!
# The Program

Files and output streams around `StackLift.commandLine`.

The system reports an error by its number. The numbers that say why a file cannot be
had are reasons that the program knows, and it answers with them. Any other error says
something about the system rather than the file, and ends the program as it is.

## Main definitions

* `errorNumber?`: The number of an error.
* `FileError.ofSystem?`: Why the system does not hand out a file.
* `readFile`: The bytes of a file of the system.
* `main`: The program.
-/

namespace StackLift

/-- The number of an error of a kind that files may give rise to. It may have been
    reported with the opposite sign. -/
def errorNumber? : IO.Error → Option UInt32
  | .noFileOrDirectory _ n _ | .permissionDenied _ n _ | .inappropriateType _ n _
  | .invalidArgument _ n _ => some (min n (-n))
  | _ => none

/-- Why a file cannot be had, by the number of the error. -/
def FileError.ofNumber? : UInt32 → Option FileError
  | 2 => some .notFound
  | 13 => some .forbidden
  | 20 => some .notADirectory
  | 21 => some .isADirectory
  | 27 => some .tooLarge
  | 36 => some .nameTooLong
  | _ => none

/-- Why the system does not hand out a file, if that is what the error is about. -/
def FileError.ofSystem? (e : IO.Error) : Option FileError := errorNumber? e >>= ofNumber?

/-- The bytes of a file of the system. -/
def readFile : FileReader IO := fun path => do
  if path.toList.contains '\x00' then return .error .nulCharacter
  match ← (IO.FS.readBinFile path).toBaseIO with
  | .ok bytes => return .ok bytes.toList
  | .error e => match FileError.ofSystem? e with
    | some f => return .error f
    | none => throw e

end StackLift

/-- Answers the command line and tells by its status whether that went well. -/
def main (arguments : List String) : IO UInt32 := do
  let response ← StackLift.commandLine StackLift.readFile arguments
  match response with
  | .usage => IO.eprintln "error: these arguments cannot be used"
  | .report r =>
    IO.print r.text
    if let some f := r.failure then IO.eprintln s!"Error: {f.message}"
  return UInt32.ofNat response.status
