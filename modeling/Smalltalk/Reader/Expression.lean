import Smalltalk.Number.Binary
import Smalltalk.Reader.Cursor

/-!
# Reading expressions

Messages bind in three levels: unary messages first, then binary ones from left to right, then
keyword messages. What stands between brackets, parentheses or braces is read by `inner`, the reader
for the next level of nesting.

Every round of a loop, and every level of nesting, takes a token. So the number of tokens that are
left bounds them all, and `n` is such a bound.
-/

namespace Smalltalk

open Number

/-- What stands where a receiver is expected. The word `super` becomes part of an expression only
with its message. -/
inductive Operand where
  /-- An expression. -/
  | expr (e : Expr)
  /-- The word `super`. -/
  | superWord (span : Span)

namespace Operand

/-- The place of an operand. -/
def span : Operand → Span
  | expr e => e.span
  | superWord span => span

/-- The operand as an expression without a further message. -/
def finish : Operand → ReadM Expr
  | expr e => return e
  | superWord span => .fail .superAlone span

/-- A message to the operand that ends where `last` does. -/
def send (operand : Operand) (selector : Selector) (arguments : List Expr) (last : Span) :
    ReadM Expr := do
  let info ← ReadM.newNode (operand.span.merge last)
  match operand with
  | expr receiver => return .send info receiver selector arguments
  | superWord _ => return .superSend info selector.ident arguments

end Operand

namespace ReadM

/-- An integer literal that has to fit in 32 bits. -/
def wordInteger (value : Int) (span : Span) : ReadM Atom :=
  if -2147483648 ≤ value ∧ value ≤ 2147483647 then return .integer (Int32.ofInt value)
  else fail .wideInteger span

/-- A number after a minus sign. -/
def negative : ReadM Expr := do
  let minus ← advance
  let token := (← get).current
  let span := minus.span.merge token.span
  let value ← match token.kind with
    | .integer v => wordInteger (-v) span
    | .float bits => pure (.float (narrow (negateDouble bits)))
    | _ => unexpected .number
  let _ ← advance
  return .atom (← newNode span) value

/-- A token that stands for a value by itself. -/
def atom (value : Atom) : ReadM Expr := do
  let token ← advance
  return .atom (← newNode token.span) value

/-- A statement; `inner` reads expressions. The target of an assignment is numbered before the
value is read. -/
def statement (inner : ReadM Expr) : ReadM Expr := do
  let c ← get
  if c.isAt .caret then
    let caret ← advance
    let value ← inner
    return .ret (← newNode (caret.span.merge value.span)) value
  else if c.following.kind = .punctuation .assign then
    let token ← advance
    match token.kind with
    | .identifier name =>
      let _ ← advance
      let target := Expr.name (← newNode token.span) name
      let value ← inner
      return .assign (← newNode (token.span.merge value.span)) target value
    | found => fail (.notAssignable found) token.span
  else inner

/-- Statements with dots between them, after those in `done`. -/
def statements (n : Nat) (inner : ReadM Expr) (close : BodyEnd) :
    Nat → Array Expr → ReadM (List Expr)
  | 0, done => return done.toList
  | k + 1, done => do
    skipDots n
    if (← get).isAtEnd close then return done.toList
    else
      let done := done.push (← statement inner)
      if ← isAt .dot then statements n inner close k done else return done.toList

/-- Local variables and statements up to, and without, the token that ends them. -/
def body (n : Nat) (inner : ReadM Expr) (close : BodyEnd) : ReadM Body := do
  let locals ← variableList n
  let statements ← statements n inner close n #[]
  if (← get).isAtEnd close then return ⟨locals, statements⟩
  else unexpected (.statementEnd close)

/-- The parameters of a block, after those in `done`. -/
def blockParams : Nat → Array Ident → ReadM (List Ident)
  | 0, done => return done.toList
  | n + 1, done => do
    match (← get).current.kind with
    | .blockArgument name =>
      let token ← advance
      blockParams n (done.push ⟨name, token.span⟩)
    | _ => return done.toList

/-- A block. A bar separates parameters from what follows, if anything does. -/
def block (n : Nat) (inner : ReadM Expr) : ReadM Expr := do
  let opening ← advance
  let params ← blockParams n #[]
  if !params.isEmpty then
    if !(← isAt .rightBracket) then
      let _ ← expect .bar
  let body ← body n inner .bracket
  let close ← expect .rightBracket
  let info ← newNode (opening.span.merge close.span)
  return .block info params body.locals body.statements close.span

/-- The elements of an array up to its closing brace, after those in `done`. -/
def elements (n : Nat) (inner : ReadM Expr) : Nat → Array Expr → ReadM (List Expr)
  | 0, _ => unexpected .elementEnd
  | k + 1, done => do
    skipDots n
    if ← isAt .rightBrace then return done.toList
    else
      let done := done.push (← inner)
      if (← isAt .dot) || (← isAt .rightBrace) then elements n inner k done
      else unexpected .elementEnd

/-- An array. -/
def array (n : Nat) (inner : ReadM Expr) : ReadM Expr := do
  let opening ← advance
  let items ← elements n inner n #[]
  let close ← advance
  return .array (← newNode (opening.span.merge close.span)) items

/-- An expression that is no message. -/
def primary (n : Nat) (inner : ReadM Expr) : ReadM Expr := do
  let token := (← get).current
  match token.kind with
  | .integer v =>
    let _ ← advance
    let value ← wordInteger v token.span
    return .atom (← newNode token.span) value
  | .character c =>
    let _ ← advance
    if 0xFFFF < c.toNat then fail .wideCharacter token.span
    else return .atom (← newNode token.span) (.character c)
  | .float bits => atom (.float (narrow bits))
  | .string s => atom (.string s)
  | .reserved .nilWord => atom .nilObject
  | .reserved .trueWord => atom .trueObject
  | .reserved .falseWord => atom .falseObject
  | .reserved .selfWord => atom .receiver
  | .identifier name =>
    let _ ← advance
    return .name (← newNode token.span) name
  | .operator op => if op = "-" then negative else unexpected .expression
  | .punctuation .leftParen =>
    let _ ← advance
    let e ← inner
    let _ ← expect .rightParen
    return e
  | .punctuation .leftBracket => block n inner
  | .punctuation .leftBrace => array n inner
  | .punctuation .caret => fail .misplacedReturn token.span
  | .symbol _ => fail .misplacedSymbol token.span
  | _ => unexpected .expression

/-- Unary messages to an operand. -/
def unaryMessages : Nat → Operand → ReadM Operand
  | 0, operand => return operand
  | n + 1, operand => do
    match (← get).current.kind with
    | .identifier name =>
      let token ← advance
      let e ← operand.send (.unary ⟨name, token.span⟩) [] token.span
      unaryMessages n (.expr e)
    | _ => return operand

/-- A primary expression or `super`, with unary messages. -/
def unaryOperand (n : Nat) (inner : ReadM Expr) : ReadM Operand := do
  if (← get).current.kind = .reserved .superWord then
    let token ← advance
    unaryMessages n (.superWord token.span)
  else
    let e ← primary n inner
    unaryMessages n (.expr e)

/-- Whether a token can be the operator of a binary message. -/
def isBinaryOperator : TokenKind → Bool
  | .operator _ | .punctuation .bar => true
  | _ => false

/-- Binary messages to an operand, from left to right. -/
def binaryMessages (n : Nat) (inner : ReadM Expr) : Nat → Operand → ReadM Operand
  | 0, operand => return operand
  | k + 1, operand => do
    if isBinaryOperator (← get).current.kind then
      let op ← advance
      let argument ← (← unaryOperand n inner).finish
      let e ← operand.send (.binary ⟨op.lexeme, op.span⟩) [argument] argument.span
      binaryMessages n inner k (.expr e)
    else return operand

/-- An operand with unary and binary messages. -/
def binaryOperand (n : Nat) (inner : ReadM Expr) : ReadM Operand := do
  let operand ← unaryOperand n inner
  binaryMessages n inner n operand

/-- Keywords with their arguments, after those in `parts` and `arguments`. -/
def keywordParts (n : Nat) (inner : ReadM Expr) :
    Nat → Array KeywordPart → Array Expr → ReadM (List KeywordPart × List Expr)
  | 0, parts, arguments => return (parts.toList, arguments.toList)
  | k + 1, parts, arguments => do
    match (← get).current.kind with
    | .keyword word =>
      let token ← advance
      let argument ← (← binaryOperand n inner).finish
      let part : KeywordPart := ⟨⟨word, token.span⟩, token.span.merge argument.span⟩
      keywordParts n inner k (parts.push part) (arguments.push argument)
    | _ => return (parts.toList, arguments.toList)

/-- An expression whose nested expressions are read by `inner`. -/
def expressionWith (n : Nat) (inner : ReadM Expr) : ReadM Expr := do
  let operand ← binaryOperand n inner
  let (parts, arguments) ← keywordParts n inner n #[] #[]
  match parts.getLast? with
  | none => operand.finish
  | some last => operand.send (.keyword parts) arguments last.span

/-- An expression with at most so many levels of nesting. -/
def expressionAt (n : Nat) : Nat → ReadM Expr
  | 0 => unexpected .expression
  | depth + 1 => expressionWith n (expressionAt n depth)

/-- An expression, where at most `n` tokens are left. -/
def expressionWithin (n : Nat) : ReadM Expr := expressionAt n (n + 1)

/-- An expression. -/
def expression : ReadM Expr := fun c => expressionWithin c.tokens.length c

end ReadM

end Smalltalk
