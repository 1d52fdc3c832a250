/-!
# Command-line arguments

The command takes one source file and options, in any order. A flag is given at most once and has no
value; the output directory is given at most once and has one. After the mark `--` every argument is
a file. The arguments are read from left to right, and the first that is wrong, or that asks for
help, decides.
-/

namespace Smalltalk.Command

/-- What to compile, and how. -/
structure Arguments where
  /-- The source file. -/
  file : String
  /-- The directory for the results. -/
  output : String := "."
  /-- Whether the code says where it comes from. -/
  debugInfo : Bool := false
  /-- Whether a listing of the code is written too. -/
  listing : Bool := false
  /-- Whether names that nothing declares are errors. -/
  strictGlobals : Bool := false
  deriving DecidableEq

/-- What the command is asked for. -/
inductive Request where
  /-- To compile a file. -/
  | compile (arguments : Arguments)
  /-- To say how it is used. -/
  | help
  /-- To say which version it is. -/
  | version
  deriving DecidableEq

/-- The options without a value. -/
inductive Flag where
  /-- The code says where it comes from. -/
  | debugInfo
  /-- A listing of the code is written too. -/
  | listing
  /-- Names that nothing declares are errors. -/
  | strictGlobals
  deriving DecidableEq

/-- The name of a flag, after its two dashes. -/
def Flag.name : Flag → String
  | debugInfo => "dbg"
  | listing => "dis"
  | strictGlobals => "strict-globals"

/-- The flag of a name. -/
def Flag.ofName? (name : String) : Option Flag :=
  [debugInfo, listing, strictGlobals].find? (·.name == name)

/-- Why arguments are refused. -/
inductive UsageError where
  /-- No option is called so, or there is a file already. -/
  | unexpected (argument : String)
  /-- An option is given twice. -/
  | repeated (option : String)
  /-- An option has a value and takes none. -/
  | unexpectedValue (option : String)
  /-- An option has no value and needs one. -/
  | missingValue (option : String)
  /-- There is no file. -/
  | missingFile
  deriving DecidableEq

/-- The words for refused arguments. -/
def UsageError.message : UsageError → String
  | unexpected argument => "unexpected argument '" ++ argument ++ "' found"
  | repeated option => "the argument '" ++ option ++ "' cannot be used multiple times"
  | unexpectedValue option => "unexpected value for '" ++ option ++ "'"
  | missingValue option => "a value is required for '" ++ option ++ "' but none was supplied"
  | missingFile => "the following required arguments were not provided: <FILE>"

/-- What one argument says on its own. -/
inductive Word where
  /-- Only files follow. -/
  | filesFollow
  /-- A file, or the value of the option before it. -/
  | operand (text : String)
  /-- A flag. -/
  | flag (f : Flag)
  /-- The output directory, which is the next argument if it is not part of this one. -/
  | output (value? : Option String)
  /-- A question for the usage. -/
  | help
  /-- A question for the version. -/
  | version
  /-- Nothing that the command knows. -/
  | refused (error : UsageError)
  deriving DecidableEq

namespace Word

/-- An argument with two dashes in front, from its name and from what stands after an equals
sign. -/
def ofLong (name : String) (value? : Option String) : Word :=
  let plain (word : Word) : Word :=
    if value?.isSome then .refused (.unexpectedValue ("--" ++ name)) else word
  if name = "output" then .output value?
  else if name = "help" then plain .help
  else if name = "version" then plain .version
  else
    match Flag.ofName? name with
    | some f => plain (.flag f)
    | none => .refused (.unexpected ("--" ++ name))

/-- An argument with one dash in front, from the letter after it and the text after that. An equals
sign may stand before the value. -/
def ofShort (letter : Char) (rest : List Char) : Word :=
  if letter = 'o' then
    match rest with
    | [] => .output none
    | '=' :: value => .output (some (String.ofList value))
    | value => .output (some (String.ofList value))
  else if letter = 'h' then .help
  else if letter = 'V' then .version
  else .refused (.unexpected (String.ofList ('-' :: letter :: rest)))

/-- What an argument says on its own. A dash alone is an operand. -/
def ofText (argument : String) : Word :=
  match argument.toList with
  | ['-', '-'] => .filesFollow
  | '-' :: '-' :: long =>
    let name := String.ofList (long.takeWhile (· ≠ '='))
    match long.dropWhile (· ≠ '=') with
    | [] => ofLong name none
    | _ :: value => ofLong name (some (String.ofList value))
  | '-' :: letter :: rest => ofShort letter rest
  | _ => .operand argument

end Word

/-- What the arguments so far say. -/
structure Draft where
  /-- The source file. -/
  file? : Option String := none
  /-- The directory for the results. -/
  output? : Option String := none
  /-- The flags. -/
  flags : List Flag := []

namespace Draft

/-- Takes a file. -/
def withFile (d : Draft) (path : String) : Except UsageError Draft :=
  if d.file?.isSome then .error (.unexpected path)
  else if path = "" then .error (.missingValue "<FILE>")
  else .ok { d with file? := some path }

/-- Takes an output directory. -/
def withOutput (d : Draft) (path : String) : Except UsageError Draft :=
  if d.output?.isSome then .error (.repeated "--output <OUTPUT>")
  else if path = "" then .error (.missingValue "--output <OUTPUT>")
  else .ok { d with output? := some path }

/-- Takes a flag. -/
def withFlag (d : Draft) (flag : Flag) : Except UsageError Draft :=
  if flag ∈ d.flags then .error (.repeated ("--" ++ flag.name))
  else .ok { d with flags := flag :: d.flags }

/-- The request that the arguments make. -/
def finish (d : Draft) : Except UsageError Request :=
  match d.file? with
  | none => .error .missingFile
  | some file =>
    .ok (.compile {
      file
      output := d.output?.getD "."
      debugInfo := decide (.debugInfo ∈ d.flags)
      listing := decide (.listing ∈ d.flags)
      strictGlobals := decide (.strictGlobals ∈ d.flags) })

/-- Reads the arguments that are left. -/
def read (d : Draft) : List String → Except UsageError Request
  | [] => d.finish
  | argument :: rest =>
    match Word.ofText argument with
    | .filesFollow => do (← rest.foldlM withFile d).finish
    | .operand path => do (← d.withFile path).read rest
    | .flag f => do (← d.withFlag f).read rest
    | .output (some path) => do (← d.withOutput path).read rest
    | .output none =>
      match rest with
      | [] => .error (.missingValue "--output <OUTPUT>")
      | next :: rest' =>
        match Word.ofText next with
        | .operand path => do (← d.withOutput path).read rest'
        | _ => .error (.missingValue "--output <OUTPUT>")
    | .help => .ok .help
    | .version => .ok .version
    | .refused e => .error e

end Draft

/-- What the command is asked for by its arguments. -/
def Request.ofArguments (arguments : List String) : Except UsageError Request :=
  ({} : Draft).read arguments

/-- How the command is used. -/
def usageText : String :=
  "Compile Smalltalk class files to .sto object files\n\n" ++
  "Usage: stc [OPTIONS] <FILE>\n\n" ++
  "Arguments:\n" ++
  "  <FILE>  The .st file to compile\n\n" ++
  "Options:\n" ++
  "      --dbg              Emit dbg instructions carrying source positions\n" ++
  "      --dis              Also write <FILE>-teststring.txt with the disassembly\n" ++
  "      --strict-globals   Report names that are not declared anywhere\n" ++
  "  -o, --output <OUTPUT>  Output directory [default: .]\n" ++
  "  -h, --help             Print help\n" ++
  "  -V, --version          Print version\n"

/-- The name and the version of the command. -/
def versionText : String := "stc 0.1.0\n"

end Smalltalk.Command
