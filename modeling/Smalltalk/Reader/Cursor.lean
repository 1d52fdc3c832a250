import Smalltalk.Reader.Error
import Smalltalk.Tree.Definition

/-!
# Reading tokens

A cursor stands before a token and knows how many nodes have been numbered. It never moves beyond
the token for the end of the text. A step that fails leaves the cursor where it found the error, so
that reading can go on from there.
-/

namespace Smalltalk

/-- A place between tokens. -/
structure Cursor where
  /-- The tokens that are left. -/
  tokens : List Token
  /-- How many nodes have been numbered. -/
  nodes : Nat := 0

namespace Cursor

/-- A cursor before the first of some tokens. Comments are left out, and the end of the text is
added if it is missing. -/
def ofTokens (tokens : List Token) : Cursor :=
  let tokens := tokens.filter (!·.isComment)
  match tokens.getLast? with
  | none => ⟨[.finish {}], 0⟩
  | some last => if last.isFinish then ⟨tokens, 0⟩ else ⟨tokens ++ [.finish last.span.stop], 0⟩

/-- The token after the cursor. -/
def current (c : Cursor) : Token := c.tokens.headD default

/-- The token after the current one; at the last token, that one. -/
def following (c : Cursor) : Token := c.tokens.tail.headD c.current

/-- The cursor after the current token, unless this is the end of the text. -/
def next (c : Cursor) : Cursor :=
  if c.current.isFinish then c else { c with tokens := c.tokens.tail }

/-- Whether the current token is a given punctuation mark. -/
def isAt (c : Cursor) (mark : Punctuation) : Bool := c.current.kind = .punctuation mark

/-- Whether the current token ends a body. -/
def isAtEnd (c : Cursor) (close : BodyEnd) : Bool := c.current.kind = close.kind

end Cursor

/-- Steps that move a cursor, and may fail. -/
abbrev ReadM := EStateM SyntaxError Cursor

namespace ReadM

/-- Takes the current token. -/
def advance : ReadM Token := fun c => .ok c.current c.next

/-- Fails for a stated reason. -/
def fail {α : Type} (cause : SyntaxCause) (span : Span) : ReadM α := throw ⟨cause, span⟩

/-- Fails because the current token is not what is wanted. -/
def unexpected {α : Type} (wanted : Wanted) : ReadM α := do
  let token := (← get).current
  match token.kind with
  | .error message => fail (.malformed message) token.span
  | found => fail (.expected wanted found) token.span

/-- Whether the current token is a given punctuation mark. -/
def isAt (mark : Punctuation) : ReadM Bool := return (← get).isAt mark

/-- Takes a given punctuation mark. -/
def expect (mark : Punctuation) : ReadM Token := do
  if ← isAt mark then advance else unexpected (.mark mark)

/-- Takes a name. -/
def identifier : ReadM Ident := do
  match (← get).current.kind with
  | .identifier name => return ⟨name, (← advance).span⟩
  | _ => unexpected .identifier

/-- Numbers a new node. -/
def newNode (span : Span) : ReadM NodeInfo := fun c =>
  .ok ⟨c.nodes, span⟩ { c with nodes := c.nodes + 1 }

/-- Takes names up to a bar, after those in `done`; at most `n` of them. -/
def namesUpToBar : Nat → Array Ident → ReadM (List Ident)
  | 0, _ => unexpected .identifier
  | n + 1, done => do
    if ← isAt .bar then
      let _ ← advance
      return done.toList
    else
      let name ← identifier
      namesUpToBar n (done.push name)

/-- Takes a list of variables between bars, if there is one. -/
def variableList (n : Nat) : ReadM (List Ident) := do
  if ← isAt .bar then
    let _ ← advance
    namesUpToBar n #[]
  else return []

/-- Takes dots; at most `n` of them. -/
def skipDots : Nat → ReadM Unit
  | 0 => return
  | n + 1 => do
    if ← isAt .dot then
      let _ ← advance
      skipDots n

end ReadM

end Smalltalk
