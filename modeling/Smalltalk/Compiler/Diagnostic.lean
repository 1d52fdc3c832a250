import Smalltalk.Reader.Error
import Smalltalk.Scope.Basic

/-!
# Diagnostics

What a compilation can report. Most diagnostics are about the source text; an inconsistency between
the stages of the compiler is about the compiler itself.
-/

namespace Smalltalk

/-- Things of which there can be too many. -/
inductive Quantity where
  /-- Symbols of a scope. -/
  | counted (counter : Counter)
  /-- Strings of a class. -/
  | literals
  /-- Elements of an array. -/
  | arrayElements
  /-- Arguments of a message. -/
  | messageArguments
  /-- Lines of a text. -/
  | sourceLines
  /-- Columns of a line. -/
  | columns
  deriving DecidableEq

/-- What messages call a quantity. -/
def Quantity.text : Quantity → String
  | counted counter => counter.text
  | literals => "literals"
  | arrayElements => "array elements"
  | messageArguments => "message arguments"
  | sourceLines => "source lines"
  | columns => "columns"

/-- Two stages of the compiler do not agree. -/
inductive Inconsistency where
  /-- The target of an assignment is no name. -/
  | targetIsNoName (span : Span)
  /-- A block has not been declared. -/
  | blockWithoutScope (span : Span)
  /-- A block has not been numbered. -/
  | blockWithoutIndex (span : Span)
  /-- A numbered block has not been found in its method. -/
  | blockWithoutCode (index : Nat) (method : String)
  /-- A block has a number that its method has not given out. -/
  | blockIndexOutOfRange (index : Nat) (block : String)
  /-- A name has not been bound. -/
  | nameWithoutBinding (span : Span)
  /-- A character needs more than 16 bits. -/
  | wideCharacter (span : Span)
  /-- A global is assigned to. -/
  | globalAssigned (span : Span)
  deriving DecidableEq

/-- The message for an inconsistency. -/
def Inconsistency.message : Inconsistency → String
  | targetIsNoName span => "assignment target at " ++ span.text ++ " is not an identifier"
  | blockWithoutScope span => "block at " ++ span.text ++ " has no scope"
  | blockWithoutIndex span => "block at " ++ span.text ++ " has no index"
  | blockWithoutCode index method =>
    "block " ++ toString index ++ " of " ++ method ++ " has no compiled body"
  | blockIndexOutOfRange index block =>
    "block index " ++ toString index ++ " out of range for " ++ block
  | nameWithoutBinding span => "identifier at " ++ span.text ++ " was never resolved"
  | wideCharacter span => "character literal at " ++ span.text ++ " is outside 16 bits"
  | globalAssigned span => "assignment to a global at " ++ span.text ++ " reached code generation"

/-- What is wrong with a source text, or with its compilation. -/
inductive Diagnostic where
  /-- The text cannot be read. -/
  | unreadable (error : SyntaxError)
  /-- A name is declared twice. -/
  | duplicate (name scope : String) (span : Span)
  /-- Something that is no variable is assigned to. -/
  | notAssignable (name : String) (span : Span)
  /-- A name is declared nowhere. -/
  | unresolved (name : String) (span : Span)
  /-- A class extends itself, directly or not. -/
  | cyclicInheritance (name : String) (span : Span)
  /-- There is too much of something. -/
  | limitExceeded (what : Quantity) (span : Span)
  /-- The compiler is wrong. -/
  | internal (what : Inconsistency)
  deriving DecidableEq

namespace Diagnostic

/-- The place that a diagnostic is about. -/
def span? : Diagnostic → Option Span
  | unreadable error => some error.span
  | duplicate _ _ span | notAssignable _ span | unresolved _ span | cyclicInheritance _ span
  | limitExceeded _ span => some span
  | internal _ => none

/-- The text of a diagnostic, which leads with its place. -/
def text : Diagnostic → String
  | unreadable error => error.text
  | duplicate name scope span => span.text ++ ": redefinition of `" ++ name ++ "` in " ++ scope
  | notAssignable name span =>
    span.text ++ ": cannot assign to `" ++ name ++ "`: not a field, argument or local"
  | unresolved name span => span.text ++ ": unresolved reference to `" ++ name ++ "`"
  | cyclicInheritance name span => span.text ++ ": class `" ++ name ++ "` inherits from itself"
  | limitExceeded what span =>
    span.text ++ ": too many " ++ what.text ++ " (at most " ++ toString counterLimit ++ ")"
  | internal what => "internal compiler error: " ++ what.message

/-- Whether a diagnostic is about the compiler itself. -/
def isInternal : Diagnostic → Bool
  | internal _ => true
  | _ => false

/-- Several diagnostics, a line each. -/
def textOfAll (diagnostics : List Diagnostic) : String :=
  String.intercalate "\n" (diagnostics.map text)

end Diagnostic

end Smalltalk
