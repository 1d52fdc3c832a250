import Smalltalk.Files.Path

/-!
# Access to files

The steps on files that the command takes, in any monad: on a disk, or on a tree of files that is a
plain value. Every step says how it failed.
-/

namespace Smalltalk

/-- Why a step on files failed. -/
inductive FileError where
  /-- There is nothing at the path. -/
  | notFound
  /-- There is something at the path already. -/
  | alreadyExists
  /-- A name on the way to the path is no directory. -/
  | notDirectory
  /-- A directory stands where a file is wanted. -/
  | isDirectory
  /-- A name, or the path as a whole, has too many bytes. -/
  | nameTooLong
  /-- The bytes of a file are no text. -/
  | notText
  /-- Any other failure, by its number and its description. -/
  | other (code : Nat) (description : String)
  deriving DecidableEq

/-- The words for a failed step. -/
def FileError.message : FileError → String
  | notFound => "No such file or directory (os error 2)"
  | alreadyExists => "File exists (os error 17)"
  | notDirectory => "Not a directory (os error 20)"
  | isDirectory => "Is a directory (os error 21)"
  | nameTooLong => "File name too long (os error 36)"
  | notText => "stream did not contain valid UTF-8"
  | other code description => description ++ " (os error " ++ toString code ++ ")"

/-- The steps on files that a monad offers. -/
structure FileAccess (m : Type → Type) where
  /-- The bytes of a file. -/
  read : String → m (Except FileError ByteArray)
  /-- Gives a file a new content, and makes it if there is none. -/
  write : String → String → m (Except FileError Unit)
  /-- Makes a directory whose parent is there. -/
  makeDirectory : String → m (Except FileError Unit)
  /-- Whether a path leads to a directory. -/
  isDirectory : String → m Bool

namespace FileAccess

variable {m : Type → Type} [Monad m]

/-- The text of a file. -/
def readText (access : FileAccess m) (path : String) : m (Except FileError String) := do
  match ← access.read path with
  | .error e => return .error e
  | .ok bytes =>
    match String.fromUTF8? bytes with
    | some text => return .ok text
    | none => return .error .notText

/-- Makes a directory unless it is there. -/
def ensureDirectory (access : FileAccess m) (path : String) : m (Except FileError Unit) := do
  match ← access.makeDirectory path with
  | .error .alreadyExists =>
    if ← access.isDirectory path then return .ok () else return .error .alreadyExists
  | result => return result

/-- Makes a directory unless it is there, and the directories above it first if they are missing;
`parents` are their paths, nearest first. -/
def ensureDirectoryBelow (access : FileAccess m) (path : String) :
    List String → m (Except FileError Unit)
  | [] => access.ensureDirectory path
  | parent :: parents => do
    match ← access.ensureDirectory path with
    | .error .notFound =>
      match ← access.ensureDirectoryBelow parent parents with
      | .error e => return .error e
      | .ok () => access.ensureDirectory path
    | result => return result

/-- Makes a directory and all that is missing on the way to it. -/
def ensureDirectories (access : FileAccess m) (path : String) : m (Except FileError Unit) :=
  access.ensureDirectoryBelow path (Path.parents path)

end FileAccess

end Smalltalk
