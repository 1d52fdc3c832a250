import Smalltalk.Source.Span

/-!
# Tokens

A source text is a sequence of tokens. Malformed text also makes a token, one that carries a
message: whether it matters is decided by whoever reads the tokens.
-/

namespace Smalltalk

/-- Words that cannot be used as names. -/
inductive ReservedWord where
  | selfWord
  | superWord
  | nilWord
  | trueWord
  | falseWord
  deriving DecidableEq

namespace ReservedWord

/-- The spelling of a reserved word. -/
def text : ReservedWord → String
  | selfWord => "self"
  | superWord => "super"
  | nilWord => "nil"
  | trueWord => "true"
  | falseWord => "false"

/-- All reserved words. -/
def all : List ReservedWord := [selfWord, superWord, nilWord, trueWord, falseWord]

/-- The reserved word with the given spelling. -/
def ofText? (s : String) : Option ReservedWord :=
  all.find? (·.text == s)

end ReservedWord

/-- Marks that structure a text. -/
inductive Punctuation where
  | assign
  | caret
  | leftParen
  | rightParen
  | leftBracket
  | rightBracket
  | leftBrace
  | rightBrace
  | bar
  | dot
  deriving DecidableEq

/-- The spelling of a punctuation mark. -/
def Punctuation.text : Punctuation → String
  | assign => ":="
  | caret => "^"
  | leftParen => "("
  | rightParen => ")"
  | leftBracket => "["
  | rightBracket => "]"
  | leftBrace => "\x7b"
  | rightBrace => "\x7d"
  | bar => "|"
  | dot => "."

/-- What a token is, and what it stands for. -/
inductive TokenKind where
  /-- An integer literal. -/
  | integer (value : Int)
  /-- A floating-point literal, as the bits of a 64-bit number. -/
  | float (bits : UInt64)
  /-- A string literal; doubled quotes are single ones here. -/
  | string (value : String)
  /-- A character literal. -/
  | character (value : Char)
  /-- A name after `#`. -/
  | symbol (name : String)
  /-- A name. -/
  | identifier (name : String)
  /-- A name with the colon after it. -/
  | keyword (word : String)
  /-- A name after a colon. -/
  | blockArgument (name : String)
  /-- A binary selector; `|` alone is a punctuation mark. -/
  | operator (text : String)
  /-- A word that cannot be used as a name. -/
  | reserved (word : ReservedWord)
  /-- A mark that structures the text. -/
  | punctuation (mark : Punctuation)
  /-- A remark for human readers, without its quotes. -/
  | comment (text : String)
  /-- Nothing is left. -/
  | endOfInput
  /-- Malformed text. -/
  | error (message : String)
  deriving DecidableEq

/-- What messages call a token. -/
def TokenKind.name : TokenKind → String
  | integer _ => "integer"
  | float _ => "float"
  | string _ => "string"
  | character _ => "character"
  | symbol _ => "symbol"
  | identifier _ => "identifier"
  | keyword _ => "keyword"
  | blockArgument _ => "block parameter"
  | operator _ => "binary operator"
  | reserved word => "`" ++ word.text ++ "`"
  | punctuation mark => "`" ++ mark.text ++ "`"
  | comment _ => "comment"
  | endOfInput => "end of input"
  | error _ => "error"

/-- A token and where it stands. -/
structure Token where
  /-- What the token is. -/
  kind : TokenKind
  /-- Where it stands. -/
  span : Span := {}
  /-- The source text that it was read from. -/
  lexeme : String := ""
  deriving DecidableEq

namespace Token

/-- The token that stands for the end of a text at `p`. -/
def finish (p : Position) : Token := { kind := .endOfInput, span := .point p }

instance : Inhabited Token := ⟨finish {}⟩

/-- Whether the token stands for the end of a text. -/
def isFinish (t : Token) : Bool := t.kind = .endOfInput

/-- Whether the token is a comment. -/
def isComment (t : Token) : Bool :=
  match t.kind with
  | .comment _ => true
  | _ => false

end Token

end Smalltalk
