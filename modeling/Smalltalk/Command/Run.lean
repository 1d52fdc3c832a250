import Smalltalk.Command.Arguments
import Smalltalk.Compiler.Compile
import Smalltalk.Files.Access
import Smalltalk.ObjectFile.Listing
import Smalltalk.ObjectFile.Text

/-!
# Running the command

The command reads a source file and compiles it. A source with errors leaves every file as it was.
Otherwise there is one object file for each class, and a listing of all of them if it is asked for.
-/

namespace Smalltalk

/-- A file that the command writes into its output directory. -/
structure OutputFile where
  /-- The name of the file. -/
  name : String
  /-- What it holds. -/
  text : String
  deriving DecidableEq

/-- The object file of a class. -/
def CompiledClass.objectFile (c : CompiledClass) : OutputFile :=
  ⟨c.name ++ ".sto", c.objectText⟩

/-- The line for an error in a source file. One that has a place names the file. -/
def Diagnostic.line (fileName : String) (e : Diagnostic) : String :=
  (match e.span? with
   | some _ => fileName ++ ":" ++ e.text
   | none => e.text) ++ "\n"

namespace Command

/-- The listing of all classes of a source file. -/
def listingFile (fileName : String) (classes : List CompiledClass) : OutputFile :=
  ⟨fileName ++ "-teststring.txt", String.join (classes.map CompiledClass.listing)⟩

/-- The files for the classes of a source file, in the order they are written. -/
def outputFiles (fileName : String) (listing : Bool) (classes : List CompiledClass) :
    List OutputFile :=
  classes.map CompiledClass.objectFile ++ if listing then [listingFile fileName classes] else []

/-- What the command was doing with a path when it failed. -/
inductive FileTask where
  /-- Reading the source. -/
  | reading
  /-- Making the output directory. -/
  | creating
  /-- Writing a result. -/
  | writing
  deriving DecidableEq

/-- The word for a task. -/
def FileTask.text : FileTask → String
  | reading => "reading"
  | creating => "creating"
  | writing => "writing"

/-- How a run of the command ends. -/
inductive Outcome where
  /-- Everything was written. -/
  | written
  /-- The source has errors. -/
  | rejected (fileName : String) (errors : List Diagnostic)
  /-- A file could not be used. -/
  | failed (task : FileTask) (path : String) (error : FileError)
  deriving DecidableEq

namespace Outcome

/-- What a run prints about its failure. -/
def report : Outcome → String
  | written => ""
  | rejected fileName errors => String.join (errors.map (Diagnostic.line fileName))
  | failed task path error =>
    "error: " ++ task.text ++ " " ++ path ++ ": " ++ error.message ++ "\n"

/-- The status of a run. -/
def status : Outcome → Nat
  | written => 0
  | rejected _ _ => 1
  | failed _ _ _ => 1

end Outcome

/-- The status of a call with wrong arguments. -/
def usageStatus : Nat := 2

namespace Arguments

/-- The options of the compilation. -/
def options (a : Arguments) : CompileOptions where
  fileName := Path.fileName a.file
  debugInfo := a.debugInfo
  strictGlobals := a.strictGlobals

variable {m : Type → Type} [Monad m]

/-- Writes files into a directory, up to the first that cannot be written. -/
def writeAll (access : FileAccess m) (directory : String) : List OutputFile → m Outcome
  | [] => return .written
  | file :: files => do
    let path := Path.join directory file.name
    match ← access.write path file.text with
    | .ok () => writeAll access directory files
    | .error e => return .failed .writing path e

/-- Compiles the source file and writes the results. -/
def run (access : FileAccess m) (a : Arguments) : m Outcome := do
  match ← access.readText a.file with
  | .error e => return .failed .reading a.file e
  | .ok source =>
    match (compileSource source a.options).result with
    | .error errors => return .rejected (Path.fileName a.file) errors
    | .ok classes =>
      match ← access.ensureDirectories a.output with
      | .error e => return .failed .creating a.output e
      | .ok () =>
        writeAll access a.output (outputFiles (Path.fileName a.file) a.listing classes)

end Arguments

end Command

end Smalltalk
