/-!
# Paths

A path is the list of the names on the way from the root directory of the disk to a node; the root
itself is the empty list. Empty parts and the part `.` name no step, so they vanish on reading. At
the end of a text they say that a directory is meant (`namesDirectory`).
-/

namespace PagedQueue

/-- The names on the way from the root directory of the disk. -/
abbrev Path := List String

namespace Path

/-- The parts of a text between its slashes. -/
def parts (text : List Char) : List (List Char) :=
  text.foldr (fun c parts =>
    match parts with
    | part :: rest => if c = '/' then [] :: part :: rest else (c :: part) :: rest
    | [] => []) [[]]

/-- Reads a path whose parts are separated by slashes. -/
def ofString (text : String) : Path :=
  ((parts text.toList).filter fun part => part ≠ [] ∧ part ≠ ['.']).map String.ofList

/-- Whether a text can only name a directory, since it ends in a slash or in the part `.`. -/
def namesDirectory (text : String) : Bool :=
  match (parts text.toList).getLast? with
  | some part => part = [] ∨ part = ['.']
  | none => false

/-- The path as text, where `root` is the name by which the root directory is known outside. -/
def render (root : String) (path : Path) : String :=
  "/".intercalate (root :: path)

/-- The last name of a path, empty for the root. -/
def leaf (path : Path) : String :=
  path.getLastD ""

end Path

end PagedQueue
