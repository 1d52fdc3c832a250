import Std.Data.TreeMap
import Smalltalk.Files.Access

/-!
# Trees of files

A tree of files as a value: what stands at each location below the root, and where paths start. The
steps of `FileAccess` are functions on it, with the failures of a disk: names are followed from
left to right, and the first one that leads nowhere decides.
-/

namespace Smalltalk

/-- What stands at a location. -/
inductive FileEntry where
  /-- A directory. -/
  | directory
  /-- A file. -/
  | file (content : ByteArray)

/-- A location: the names that lead to it from the root. -/
abbrev FileLocation := List String

/-- A tree of files. -/
structure FileTree where
  /-- What stands below the root. -/
  entries : Std.TreeMap FileLocation FileEntry := ∅
  /-- Where paths start that do not start at the root. -/
  workingDirectory : FileLocation := []

namespace FileTree

/-- The most bytes that a name may have. -/
def maxNameBytes : Nat := 255

/-- The most bytes that a path may have. -/
def maxPathBytes : Nat := 4095

/-- What stands at a location; at the root there is always a directory. -/
def entry? (t : FileTree) (location : FileLocation) : Option FileEntry :=
  if location = [] then some .directory else t.entries[location]?

/-- The tree with something at a location. -/
def insert (t : FileTree) (location : FileLocation) (entry : FileEntry) : FileTree :=
  { t with entries := t.entries.insert location entry }

/-- Where a path starts. -/
def start (t : FileTree) (path : String) : FileLocation :=
  if Path.isAbsolute path then [] else t.workingDirectory

/-- Follows names through directories. -/
def follow (t : FileTree) (location : FileLocation) : List String → Except FileError FileLocation
  | [] => .ok location
  | name :: names =>
    if name = "." then t.follow location names
    else if name = ".." then t.follow location.dropLast names
    else if maxNameBytes < name.utf8ByteSize then .error .nameTooLong
    else
      match t.entry? (location ++ [name]) with
      | none => .error .notFound
      | some (.file _) => .error .notDirectory
      | some .directory => t.follow (location ++ [name]) names

/-- Where a path leads. -/
inductive Target where
  /-- To a directory by way of the root or of dots. -/
  | directory (location : FileLocation)
  /-- To the name of something in a directory. -/
  | name (location : FileLocation)

/-- Where a path leads, with the directory of its last name at hand. -/
def target (t : FileTree) (path : String) : Except FileError Target :=
  if path = "" then .error .notFound
  else if maxPathBytes < path.utf8ByteSize then .error .nameTooLong
  else
    let steps := Path.steps path
    match steps.getLast? with
    | none => .ok (.directory (t.start path))
    | some last => do
      let parent ← t.follow (t.start path) steps.dropLast
      if last = "." then return .directory parent
      else if last = ".." then return .directory parent.dropLast
      else if maxNameBytes < last.utf8ByteSize then throw .nameTooLong
      else return .name (parent ++ [last])

/-- The bytes of the file at a path. -/
def read (t : FileTree) (path : String) : Except FileError ByteArray := do
  match ← t.target path with
  | .directory _ => throw .isDirectory
  | .name location =>
    match t.entry? location with
    | none => throw .notFound
    | some .directory => throw .isDirectory
    | some (.file content) => if Path.endsInSlash path then throw .notDirectory else return content

/-- The tree after a file was given a content. -/
def write (t : FileTree) (path text : String) : Except FileError FileTree := do
  match ← t.target path with
  | .directory _ => throw .isDirectory
  | .name location =>
    if Path.endsInSlash path then throw .isDirectory
    else
      match t.entry? location with
      | some .directory => throw .isDirectory
      | _ => return t.insert location (.file text.toUTF8)

/-- The tree after a directory was made. -/
def makeDirectory (t : FileTree) (path : String) : Except FileError FileTree := do
  match ← t.target path with
  | .directory _ => throw .alreadyExists
  | .name location =>
    if (t.entry? location).isSome then throw .alreadyExists
    else return t.insert location .directory

/-- Whether a path leads to a directory. -/
def isDirectory (t : FileTree) (path : String) : Bool :=
  match t.target path with
  | .error _ => false
  | .ok (.directory _) => true
  | .ok (.name location) =>
    match t.entry? location with
    | some .directory => true
    | _ => false

/-- A step that changes the tree unless it fails. -/
def step (f : FileTree → Except FileError FileTree) : StateM FileTree (Except FileError Unit) :=
  fun t =>
    match f t with
    | .ok t' => (.ok (), t')
    | .error e => (.error e, t)

/-- A tree of files as the state of a computation. -/
def access : FileAccess (StateM FileTree) where
  read path := fun t => (t.read path, t)
  write path text := step (·.write path text)
  makeDirectory path := step (·.makeDirectory path)
  isDirectory path := fun t => (t.isDirectory path, t)

end FileTree

end Smalltalk
