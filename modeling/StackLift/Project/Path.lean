/-!
# Paths

Paths as they stand in project files: relative to the directory of the project
file, with their names separated by slashes. Names that are empty mean nothing
and are dropped, so a slash at the front does not make a path absolute. One dot
and two dots are kept, for only the file system knows what they lead to: a dot
leads nowhere from a file.

## Main definitions

* `Path.names`: The names a path is made of.
* `Path.within`: A path relative to a directory.
* `Path.parent`: The directory of a file.
-/

namespace StackLift

namespace Path

/-- The pieces between the slashes of a path. -/
def pieces (path : String) : List String :=
  (path.toList.splitOn '/').map String.ofList

/-- The names a path is made of. -/
def names (path : String) : List String := (pieces path).filter (· != "")

/-- A path relative to a directory. The empty text is the directory where the
    program runs, except that it is no path on its own. -/
def within (root path : String) : String :=
  let steps := names path
  "/".intercalate (if root = "" then steps else root :: steps)

/-- The pieces up to the last that leads somewhere else. -/
def leading (ps : List String) : List String :=
  (ps.reverse.dropWhile fun p => p = "" || p = ".").reverse

/-- The directory of a file: the path without its last name and without what stands
    between the two. The first piece is kept whatever it is, for it says where the
    path starts. -/
def parent (file : String) : String :=
  let start := (pieces file).headD ""
  match leading (pieces file).tail with
  | [] => ""
  | ps => match leading ps.dropLast with
    | [] => if start = "" then "/" else start
    | ps => "/".intercalate (start :: ps)

end Path

end StackLift
