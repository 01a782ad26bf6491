import StackLift.Project.Path

/-!
# Files

What a program may learn about a file: its bytes, or why they cannot be had. The
files themselves may be anywhere. `FileTree` holds them in memory; there a path
is followed name by name, and every name but the last has to lead to a
directory.

## Main definitions

* `FileError`: Why a file could not be read.
* `FileReader`: A way to read files.
* `FileTree`: Files by their names, seen from one directory.
* `FileTree.read`: The bytes of a file in the tree.
-/

namespace StackLift

/-- Why a file could not be read. -/
inductive FileError where
  | notFound
  /-- The file may not be read. -/
  | forbidden
  /-- A name on the way to the file is that of another file. -/
  | notADirectory
  | isADirectory
  /-- The file holds more than can be addressed. -/
  | tooLarge
  /-- A name on the way to the file is too long. -/
  | nameTooLong
  /-- The path has a character that no path can have. -/
  | nulCharacter
deriving DecidableEq, Repr

namespace FileError

/-- What went wrong, in words. -/
def message : FileError → String
  | notFound => "No such file or directory (os error 2)"
  | forbidden => "Permission denied (os error 13)"
  | notADirectory => "Not a directory (os error 20)"
  | isADirectory => "Is a directory (os error 21)"
  | tooLarge => "File too large (os error 27)"
  | nameTooLong => "File name too long (os error 36)"
  | nulCharacter => "file name contained an unexpected NUL byte"

end FileError

/-- A way to read files by their paths. -/
abbrev FileReader (m : Type → Type) := String → m (Except FileError (List UInt8))

/-- Files by the names that lead to them from one directory. -/
structure FileTree where
  files : List (List String × List UInt8)

namespace FileTree

/-- The bytes of the file to which the names lead. -/
def file? (t : FileTree) (names : List String) : Option (List UInt8) := t.files.lookup names

/-- The names lead to a directory. -/
def isDirectory (t : FileTree) (names : List String) : Bool :=
  names.isEmpty || t.files.any fun (ns, _) => names.isPrefixOf ns && names != ns

/-- The longest name a file may have, in bytes. -/
def maxName : Nat := 255

/-- The longest path, in bytes. -/
def maxPath : Nat := 4095

/-- Follows a path from the place that the names lead to. What lies outside of the
    tree are directories of which nothing is known. -/
def follow (t : FileTree) : Option (List String) → List String → Except FileError (List UInt8)
  | none, [] => .error .isADirectory
  | none, step :: steps =>
    if step = "" ∨ step = "." ∨ step = ".." then t.follow none steps
    else if maxName < step.utf8ByteSize then .error .nameTooLong
    else .error .notFound
  | some names, [] => match t.file? names with
    | some bytes => .ok bytes
    | none => if t.isDirectory names then .error .isADirectory else .error .notFound
  | some names, step :: steps =>
    if (t.file? names).isSome then .error .notADirectory
    else if ¬t.isDirectory names then .error .notFound
    else if step = "" ∨ step = "." then t.follow (some names) steps
    else if step = ".." then
      t.follow (if names.isEmpty then none else some names.dropLast) steps
    else if maxName < step.utf8ByteSize then .error .nameTooLong
    else t.follow (some (names ++ [step])) steps

/-- The bytes of a file in the tree. An absolute path leads outside. -/
def read (t : FileTree) : FileReader Id := fun path =>
  if path.toList.contains '\x00' then .error .nulCharacter
  else if path = "" then .error .notFound
  else if maxPath < path.utf8ByteSize then .error .nameTooLong
  else t.follow (if path.startsWith "/" then none else some []) (Path.pieces path)

end FileTree

end StackLift
