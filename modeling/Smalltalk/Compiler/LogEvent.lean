import Smalltalk.Compiler.Binding
import Smalltalk.Text.Escaped

/-!
# Log events

What a compilation tells about its progress. Every event has a level and a message.
-/

namespace Smalltalk

open Text

/-- How much detail a log shows. -/
inductive LogLevel where
  | debug
  | trace
  deriving DecidableEq

/-- The name of a level. -/
def LogLevel.text : LogLevel → String
  | debug => "DEBUG"
  | trace => "TRACE"

/-- A step of a compilation. -/
inductive LogEvent where
  /-- All names are declared. -/
  | declared (classes scopes blocks : Nat)
  /-- So many errors in declarations. -/
  | declarationErrors (count : Nat)
  /-- A name is left to the running program. -/
  | deferred (name : String)
  /-- An occurrence of a name is bound. -/
  | bound (name : String) (span : Span) (binding : Binding)
  /-- All names are bound. -/
  | resolved (count : Nat)
  /-- So many errors in the use of names. -/
  | resolutionErrors (count : Nat)
  /-- A method is part of the machine. -/
  | primitiveMethod (method : String) (primitive : Option String)
  /-- The code of a block is ready. -/
  | blockCode (block : String) (bytes : Nat)
  /-- The code of a method is ready. -/
  | methodCode (method : String) (bytes blocks : Nat)
  /-- All classes are ready. -/
  | generated (classes : Nat)
  deriving DecidableEq

/-- A binding as the log shows it. -/
def Binding.text : Binding → String
  | field symbol => "Field \x7b symbol: SymbolId(" ++ toString symbol ++ ") \x7d"
  | slot symbol depth =>
    "Local \x7b symbol: SymbolId(" ++ toString symbol ++ "), depth: " ++ toString depth.toNat ++ " \x7d"
  | global => "Global"

namespace LogEvent

/-- The level of an event. -/
def level : LogEvent → LogLevel
  | bound _ _ _ | primitiveMethod _ _ | blockCode _ _ | methodCode _ _ _ => .trace
  | _ => .debug

/-- An optional name as the log shows it. -/
def optionalName : Option String → String
  | none => "None"
  | some name => "Some(" ++ quoted '"' name.toList ++ ")"

/-- The message of an event. -/
def message : LogEvent → String
  | declared classes scopes blocks =>
    "defined " ++ toString classes ++ " classes, " ++ toString scopes ++ " scopes, "
      ++ toString blocks ++ " blocks"
  | declarationErrors count => "pass 1: " ++ toString count ++ " errors"
  | deferred name => "`" ++ name ++ "` deferred to a global lookup"
  | bound name span binding => name ++ " at " ++ span.text ++ " -> " ++ binding.text
  | resolved count => "resolved " ++ toString count ++ " identifier occurrences"
  | resolutionErrors count => "pass 2: " ++ toString count ++ " errors"
  | primitiveMethod method primitive => method ++ ": primitive " ++ optionalName primitive
  | blockCode block bytes => block ++ ": " ++ toString bytes ++ " bytes"
  | methodCode method bytes blocks =>
    method ++ ": " ++ toString bytes ++ " bytes, " ++ toString blocks ++ " blocks"
  | generated classes => "generated " ++ toString classes ++ " classes"

end LogEvent

end Smalltalk
