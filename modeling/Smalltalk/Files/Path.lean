/-!
# Paths

A path is text in which slashes part the names. It starts at the root if it begins with a slash,
and at the working directory otherwise. Empty names are passed over, a dot stands for the directory
it is found in, and two dots for the one above.
-/

namespace Smalltalk.Path

/-- A path that starts at the root. -/
def isAbsolute (path : String) : Bool := path.toList.head? == some '/'

/-- A path that ends in a slash, and so can only name a directory. -/
def endsInSlash (path : String) : Bool := path.toList.getLast? == some '/'

/-- The names along a path, dots included. -/
def steps (path : String) : List String :=
  ((path.toList.splitOn '/').map String.ofList).filter (· ≠ "")

/-- The names along a path. A dot is kept only where a path that does not start at the root begins
with one. -/
def names (path : String) : List String :=
  match steps path with
  | [] => []
  | first :: rest =>
    (if first = "." ∧ isAbsolute path then [] else [first]) ++ rest.filter (· ≠ ".")

/-- The path along some names. -/
def ofNames (absolute : Bool) (names : List String) : String :=
  (if absolute then "/" else "") ++ String.intercalate "/" names

/-- The paths that lead to a directory above the last of some names, nearest first; the names are
given last first. -/
def parentsFrom (absolute : Bool) : List String → List String
  | [] => []
  | [_] => []
  | _ :: above => ofNames absolute above.reverse :: parentsFrom absolute above

/-- The paths of the directories on the way to a path, nearest first, without the one where it
starts. -/
def parents (path : String) : List String :=
  parentsFrom (isAbsolute path) (names path).reverse

/-- The last name of a path; the path itself if that is two dots or there is none. -/
def fileName (path : String) : String :=
  match (names path).getLast? with
  | none => path
  | some name => if name = ".." then path else name

/-- The path of a name in a directory. -/
def join (directory name : String) : String :=
  if endsInSlash directory then directory ++ name else directory ++ "/" ++ name

end Smalltalk.Path
