import Smalltalk.Reader.Expression
import Smalltalk.Token.Tokens

/-!
# Reading definitions

A class definition that cannot be read is reported and passed over: reading resumes after the
bracket that closes it. So one run can report several classes.
-/

namespace Smalltalk

namespace Cursor

/-- Whether a class definition starts at the cursor. -/
def isAtClass (c : Cursor) : Bool :=
  (match c.current.kind with
    | .identifier _ | .reserved .nilWord => true
    | _ => false)
  && c.following.kind = .keyword "subclass:"

/-- The tokens after the bracket that closes the `depth` open ones. -/
def afterBrackets : Nat → List Token → List Token
  | _, [] => []
  | depth, token :: rest =>
    match token.kind with
    | .punctuation .leftBracket => afterBrackets (depth + 1) rest
    | .punctuation .rightBracket => if depth ≤ 1 then rest else afterBrackets (depth - 1) rest
    | .endOfInput => token :: rest
    | _ => afterBrackets depth rest

/-- Passes over the class definition at the cursor: to its first opening bracket, and on to the one
that closes it. -/
def skipClass (c : Cursor) : Cursor :=
  let isOpening (token : Token) : Bool := token.kind = .punctuation .leftBracket
  { c with
    tokens := afterBrackets 0 (c.tokens.dropWhile fun t => !isOpening t && !t.isFinish) }

end Cursor

namespace ReadM

/-- The keywords of a method with their parameters, after those in `word` and `params`. -/
def keywordHeader : Nat → Ident → Array Ident → ReadM (Ident × List Ident)
  | 0, word, params => return (word, params.toList)
  | n + 1, word, params => do
    match (← get).current.kind with
    | .keyword keyword =>
      let token ← advance
      let param ← identifier
      keywordHeader n ⟨word.name ++ keyword, word.span.merge token.span⟩ (params.push param)
    | _ => return (word, params.toList)

/-- The selector of a method and its parameters. -/
def methodHeader (n : Nat) : ReadM (Ident × List Ident) := do
  let token := (← get).current
  match token.kind with
  | .identifier name =>
    let _ ← advance
    return (⟨name, token.span⟩, [])
  | .operator _ | .punctuation .bar =>
    let _ ← advance
    let param ← identifier
    return (⟨token.lexeme, token.span⟩, [param])
  | .keyword _ => keywordHeader n ⟨"", token.span⟩ #[]
  | _ => unexpected .methodDefinition

/-- What a method does, and the mark that closes it. -/
def methodBody (n : Nat) : ReadM (MethodBody × Span) := do
  match (← get).current.kind with
  | .punctuation .leftBracket =>
    let _ ← advance
    let body ← body n (expressionWithin n) .bracket
    let close ← expect .rightBracket
    return (.code body, close.span)
  | .operator "<" =>
    let _ ← advance
    if (← get).current.kind = .keyword "primitive:" then
      let _ ← advance
    else unexpected .primitiveKeyword
    match (← get).current.kind with
    | .symbol name =>
      let token ← advance
      if (← get).current.kind = .operator ">" then
        let close ← advance
        return (.primitive ⟨name, token.span⟩, close.span)
      else unexpected .primitiveClose
    | _ => unexpected .primitiveName
  | _ => unexpected .methodBody

/-- Whether a token can follow the word that marks a method of the class side. -/
def startsMethod : TokenKind → Bool
  | .identifier _ | .keyword _ | .operator _ | .punctuation .bar => true
  | _ => false

/-- A method. The word `class` in front of a method puts it on the class side; in front of a body
it is a selector. -/
def method (n : Nat) : ReadM MethodDef := do
  let c ← get
  let start := c.current.span
  let classSide := c.current.kind = .identifier "class" && startsMethod c.following.kind
  if classSide then
    let _ ← advance
  let (selector, params) ← methodHeader n
  let (body, close) ← methodBody n
  return {
    selector := selector
    params := params
    classSide := classSide
    body := body
    span := start.merge close
    close := close }

/-- Methods up to a closing bracket or the end of the text, after those in `done`. -/
def methods (n : Nat) : Nat → Array MethodDef → ReadM (List MethodDef)
  | 0, done => return done.toList
  | k + 1, done => do
    let c ← get
    if c.isAt .rightBracket || c.current.isFinish then return done.toList
    else
      let m ← method n
      methods n k (done.push m)

/-- A class definition. -/
def classDef (n : Nat) : ReadM ClassDef := do
  let head ← advance
  let superclass := match head.kind with
    | .identifier name => some ⟨name, head.span⟩
    | _ => none
  let _ ← advance
  match (← get).current.kind with
  | .symbol name =>
    let token ← advance
    let _ ← expect .leftBracket
    let fields ← variableList n
    let methods ← methods n n #[]
    let close ← expect .rightBracket
    return {
      name := ⟨name, token.span⟩
      superclass := superclass
      fields := fields
      methods := methods
      span := head.span.merge close.span }
  | _ => unexpected .className

end ReadM

/-- Class definitions read so far, and the errors met. -/
structure ClassesRead where
  /-- The classes that could be read. -/
  classes : Array ClassDef := #[]
  /-- The errors in the others. -/
  errors : Array SyntaxError := #[]
  /-- Where reading stands. -/
  cursor : Cursor

/-- Reads class definitions, at most `k` of them. -/
def readClasses (n : Nat) : Nat → ClassesRead → ClassesRead
  | 0, r => r
  | k + 1, r =>
    if r.cursor.isAtClass then
      match ReadM.classDef n r.cursor with
      | .ok c cursor => readClasses n k { r with classes := r.classes.push c, cursor := cursor }
      | .error e cursor =>
        readClasses n k { r with
          errors := r.errors.push e
          cursor := { r.cursor with nodes := cursor.nodes }.skipClass }
    else r

/-- Reads class definitions and the main program after them, or reports all errors. -/
def SourceUnit.ofCursor (c : Cursor) : Except (List SyntaxError) SourceUnit :=
  let n := c.tokens.length
  let read := readClasses n n { cursor := c }
  match ReadM.body n (ReadM.expressionWithin n) .finish read.cursor with
  | .ok main cursor =>
    if read.errors.isEmpty then
      .ok {
        classes := read.classes.toList
        main := main
        finish := cursor.current.span
        nodeCount := cursor.nodes }
    else .error read.errors.toList
  | .error e _ => .error (read.errors.push e).toList

/-- Reads a source unit from tokens. -/
def SourceUnit.ofTokens (tokens : List Token) : Except (List SyntaxError) SourceUnit :=
  SourceUnit.ofCursor (.ofTokens tokens)

/-- Reads a source unit from a text. -/
def SourceUnit.ofSource (source : String) : Except (List SyntaxError) SourceUnit :=
  SourceUnit.ofTokens (tokens source)

/-- Reads `count` expressions one after the other, whether they succeed or not, and returns the
cursor after them. -/
def readExpressions : Nat → Cursor → List (Except SyntaxError Expr) × Cursor
  | 0, c => ([], c)
  | count + 1, c =>
    let (result, c) := match ReadM.expression c with
      | .ok e c => (.ok e, c)
      | .error e c => (.error e, c)
    let (results, c) := readExpressions count c
    (result :: results, c)

end Smalltalk
