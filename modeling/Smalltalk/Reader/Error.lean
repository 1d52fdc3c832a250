import Smalltalk.Token

/-!
# Syntax errors

A syntax error says what was wanted at some place and what stood there instead. Malformed text
speaks for itself.
-/

namespace Smalltalk

/-- What the statements of a body go up to. -/
inductive BodyEnd where
  /-- A closing bracket. -/
  | bracket
  /-- The end of the text. -/
  | finish
  deriving DecidableEq

/-- The token that ends a body. -/
def BodyEnd.kind : BodyEnd → TokenKind
  | bracket => .punctuation .rightBracket
  | finish => .endOfInput

/-- What can be wanted at some place of a text. -/
inductive Wanted where
  | mark (mark : Punctuation)
  | identifier
  | className
  | methodDefinition
  | methodBody
  | primitiveKeyword
  | primitiveName
  | primitiveClose
  | statementEnd (close : BodyEnd)
  | elementEnd
  | expression
  | number
  deriving DecidableEq

/-- What messages call the thing that is wanted. -/
def Wanted.text : Wanted → String
  | mark m => TokenKind.name (.punctuation m)
  | identifier => "identifier"
  | className => "class name symbol"
  | methodDefinition => "method definition"
  | methodBody => "`[` or `<primitive:`"
  | primitiveKeyword => "`primitive:`"
  | primitiveName => "primitive name symbol"
  | primitiveClose => "`>`"
  | statementEnd close => "`.` or " ++ close.kind.name
  | elementEnd => "`.` or `\x7d`"
  | expression => "expression"
  | number => "number after `-`"

/-- What is wrong with a text. -/
inductive SyntaxCause where
  /-- The text is malformed. -/
  | malformed (message : String)
  /-- Something else was wanted. -/
  | expected (wanted : Wanted) (found : TokenKind)
  /-- Only variables can be assigned to. -/
  | notAssignable (found : TokenKind)
  /-- No message follows `super`. -/
  | superAlone
  /-- A return stands inside an expression. -/
  | misplacedReturn
  /-- A symbol stands inside an expression. -/
  | misplacedSymbol
  /-- An integer needs more than 32 bits. -/
  | wideInteger
  /-- A character needs more than 16 bits. -/
  | wideCharacter
  deriving DecidableEq

/-- The message for what is wrong. -/
def SyntaxCause.message : SyntaxCause → String
  | malformed message => message
  | expected wanted found => "expected " ++ wanted.text ++ ", found " ++ found.name
  | notAssignable found => "cannot assign to " ++ found.name
  | superAlone => "expected message after `super`"
  | misplacedReturn => "`^` is only allowed at the start of a statement"
  | misplacedSymbol => "symbol literals are only allowed in class headers and primitives"
  | wideInteger => "integer literal does not fit in 32 bits"
  | wideCharacter => "character literal does not fit in 16 bits"

/-- Something wrong at some place of a text. -/
structure SyntaxError where
  /-- What is wrong. -/
  cause : SyntaxCause
  /-- The place. -/
  span : Span
  deriving DecidableEq

namespace SyntaxError

/-- What is wrong, without the place. -/
def message (e : SyntaxError) : String := e.cause.message

/-- The place and what is wrong there. -/
def text (e : SyntaxError) : String := e.span.text ++ ": " ++ e.message

end SyntaxError

end Smalltalk
