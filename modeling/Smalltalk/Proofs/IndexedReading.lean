import Mathlib
import Smalltalk.Reader.Unit

/-!
# Reading by an index

The readers of a text take tokens off a list, and their loops get a bound for the number of rounds. Here reading is
described as a machine does it. The tokens stand in an array, and an index says where reading is; the index is moved
on token by token, and only set back to pass over a class definition that could not be read. The places of nodes are
kept in an arena and looked up there by the numbers of the nodes.

Nothing in this says that the machine comes to a result. Every round of a loop and every nested call takes fuel, and
without fuel there is no result: a machine that does not end has none with any amount. There is no result either if an
access is out of range: to the tokens, to the arena, or to an element of a list that has to be there. Nor is there one
if a count of brackets would become negative, or if a negative number does not fit in 64 bits.
-/

namespace Smalltalk

namespace Indexed

open Number

/-! ## The machine -/

/-- What a machine does with its index, and with class definitions. -/
inductive Event where
  /-- The index is moved on to the token at `index`. -/
  | moved (index : Nat)
  /-- A class definition starts with the token at `header`. -/
  | classMet (header : Nat)
  /-- A class definition has been read. -/
  | classRead (header : Nat)
  /-- The index is set back to where a class definition starts. -/
  | setBack (header : Nat)
  /-- A class definition has been passed over. -/
  | classPassed (header : Nat)

/-- Where a machine stands. -/
structure State where
  /-- The tokens of the text. -/
  tokens : Array Token
  /-- The place of the token to be read next. -/
  index : Nat := 0
  /-- The places of the nodes that have been made. -/
  arena : Array Span := #[]
  /-- The errors that have been recorded. -/
  errors : Array SyntaxError := #[]
  /-- What has been done, in this order. -/
  log : List Event := []

/-- A machine set on some tokens. Comments are left out, and the end of the text is added if it is missing. -/
def State.ofTokens (tokens : List Token) : State := { tokens := (Cursor.ofTokens tokens).tokens.toArray }

/-- Steps of a machine. They fail with an error, or may come to no result at all. -/
abbrev IndexM := ExceptT SyntaxError (StateT State Option)

/-- There is no result. -/
def stuck {α : Type} : IndexM α := fun _ => none

/-- Something that has to be there. -/
def present {α : Type} (value : Option α) : IndexM α := fun s => value.map fun a => (.ok a, s)

/-- Fails for a stated reason. -/
def fail {α : Type} (cause : SyntaxCause) (span : Span) : IndexM α := throw ⟨cause, span⟩

/-- The machine after something has been noted. -/
def State.noted (s : State) (event : Event) : State := { s with log := s.log ++ [event] }

/-- Notes what is done. -/
def note (event : Event) : IndexM Unit := modify (State.noted · event)

/-! ## Tokens -/

/-- The token at so many places after the index, or the last one. -/
def peek (n : Nat) : IndexM Token := do
  let s ← get
  present s.tokens[min (s.index + n) (s.tokens.size - 1)]?

/-- The machine after its index has been moved on. -/
def State.movedOn (s : State) : State := { s with index := s.index + 1, log := s.log ++ [.moved (s.index + 1)] }

/-- The machine after its index has been set back. -/
def State.setBack (s : State) (header : Nat) : State := { s with index := header, log := s.log ++ [.setBack header] }

/-- Takes the current token. -/
def advance : IndexM Token := do
  let token ← peek 0
  if !token.isFinish then modify State.movedOn
  return token

/-- Fails because the current token is not what is wanted. -/
def unexpected {α : Type} (wanted : Wanted) : IndexM α := do
  let token ← peek 0
  match token.kind with
  | .error message => fail (.malformed message) token.span
  | found => fail (.expected wanted found) token.span

/-- Whether the current token is a given punctuation mark. -/
def isAt (mark : Punctuation) : IndexM Bool := return (← peek 0).kind = .punctuation mark

/-- Whether the current token ends a body. -/
def isAtEnd (close : BodyEnd) : IndexM Bool := return (← peek 0).kind = close.kind

/-- Takes a given punctuation mark. -/
def expect (mark : Punctuation) : IndexM Token := do
  if ← isAt mark then advance else unexpected (.mark mark)

/-- Takes a name. -/
def identifier : IndexM Ident := do
  match (← peek 0).kind with
  | .identifier name => return ⟨name, (← advance).span⟩
  | _ => unexpected .identifier

/-- Takes names up to a bar, after those in `done`. -/
def namesUpToBar : Nat → Array Ident → IndexM (List Ident)
  | 0, _ => stuck
  | fuel + 1, done => do
    if ← isAt .bar then
      let _ ← advance
      return done.toList
    else
      let name ← identifier
      namesUpToBar fuel (done.push name)

/-- Takes a list of variables between bars, if there is one. -/
def variableList (fuel : Nat) : IndexM (List Ident) := do
  if ← isAt .bar then
    let _ ← expect .bar
    namesUpToBar fuel #[]
  else return []

/-- Takes dots. -/
def skipDots : Nat → IndexM Unit
  | 0 => stuck
  | fuel + 1 => do
    if ← isAt .dot then
      let _ ← advance
      skipDots fuel

/-! ## Nodes -/

/-- Makes a new node. -/
def newNode (span : Span) : IndexM NodeInfo := do
  let s ← get
  set { s with arena := s.arena.push span }
  return ⟨s.arena.size, span⟩

/-- Looks up the place of a node. -/
def spanOf (e : Expr) : IndexM Span := do
  let s ← get
  present s.arena[e.id]?

/-- The place of an operand. -/
def spanOfOperand : Operand → IndexM Span
  | .expr e => spanOf e
  | .superWord span => return span

/-- An operand as an expression without a further message. -/
def finish : Operand → IndexM Expr
  | .expr e => return e
  | .superWord span => fail .superAlone span

/-- A message to an operand that ends where `last` does. -/
def send (operand : Operand) (selector : Selector) (arguments : List Expr) (last : Span) : IndexM Expr := do
  let first ← spanOfOperand operand
  let info ← newNode (first.merge last)
  match operand with
  | .expr receiver => return .send info receiver selector arguments
  | .superWord _ => return .superSend info selector.ident arguments

/-! ## Expressions -/

/-- The negative of a 64-bit number; of the least one there is none. -/
def negated (value : Int) : Option Int := if value = -9223372036854775808 then none else some (-value)

/-- An integer literal that has to fit in 32 bits. -/
def wordInteger (value : Int) (span : Span) : IndexM Atom :=
  if -2147483648 ≤ value ∧ value ≤ 2147483647 then return .integer (Int32.ofInt value)
  else fail .wideInteger span

/-- A number after a minus sign. -/
def negative : IndexM Expr := do
  let minus ← advance
  let token ← peek 0
  let span := minus.span.merge token.span
  let value ← match token.kind with
    | .integer v => do
      let v ← present (negated v)
      wordInteger v span
    | .float bits => pure (.float (narrow (negateDouble bits)))
    | _ => unexpected .number
  let _ ← advance
  return .atom (← newNode span) value

/-- A token that stands for a value by itself. -/
def atom (value : Atom) : IndexM Expr := do
  let token ← advance
  return .atom (← newNode token.span) value

/-- The parameters of a block, after those in `done`. -/
def blockParams : Nat → Array Ident → IndexM (List Ident)
  | 0, _ => stuck
  | fuel + 1, done => do
    match (← peek 0).kind with
    | .blockArgument name =>
      let token ← advance
      blockParams fuel (done.push ⟨name, token.span⟩)
    | _ => return done.toList

/-- Unary messages to an operand. -/
def unaryMessages : Nat → Operand → IndexM Operand
  | 0, _ => stuck
  | fuel + 1, operand => do
    match (← peek 0).kind with
    | .identifier name =>
      let token ← advance
      let e ← send operand (.unary ⟨name, token.span⟩) [] token.span
      unaryMessages fuel (.expr e)
    | _ => return operand

mutual

/-- An expression. -/
def expression : Nat → IndexM Expr
  | 0 => stuck
  | fuel + 1 => do
    let operand ← binaryOperand fuel
    match (← peek 0).kind with
    | .keyword _ =>
      let (parts, arguments) ← keywordParts fuel #[] #[]
      let _ ← present parts.head?
      let last ← present parts.getLast?
      send operand (.keyword parts) arguments last.span
    | _ => finish operand

/-- Keywords with their arguments, after those in `parts` and `arguments`. -/
def keywordParts : Nat → Array KeywordPart → Array Expr → IndexM (List KeywordPart × List Expr)
  | 0, _, _ => stuck
  | fuel + 1, parts, arguments => do
    match (← peek 0).kind with
    | .keyword word =>
      let token ← advance
      let operand ← binaryOperand fuel
      let argument ← finish operand
      let span ← spanOf argument
      keywordParts fuel (parts.push ⟨⟨word, token.span⟩, token.span.merge span⟩) (arguments.push argument)
    | _ => return (parts.toList, arguments.toList)

/-- An operand with unary and binary messages. -/
def binaryOperand : Nat → IndexM Operand
  | 0 => stuck
  | fuel + 1 => do
    let operand ← unaryOperand fuel
    binaryMessages fuel operand

/-- Binary messages to an operand, from left to right. -/
def binaryMessages : Nat → Operand → IndexM Operand
  | 0, _ => stuck
  | fuel + 1, operand => do
    if ReadM.isBinaryOperator (← peek 0).kind then
      let op ← advance
      let right ← unaryOperand fuel
      let argument ← finish right
      let span ← spanOf argument
      let e ← send operand (.binary ⟨op.lexeme, op.span⟩) [argument] span
      binaryMessages fuel (.expr e)
    else return operand

/-- A primary expression or `super`, with unary messages. -/
def unaryOperand : Nat → IndexM Operand
  | 0 => stuck
  | fuel + 1 => do
    if (← peek 0).kind = .reserved .superWord then
      let token ← advance
      unaryMessages fuel (.superWord token.span)
    else
      let e ← primary fuel
      unaryMessages fuel (.expr e)

/-- An expression that is no message. -/
def primary : Nat → IndexM Expr
  | 0 => stuck
  | fuel + 1 => do
    let token ← peek 0
    match token.kind with
    | .integer v =>
      let _ ← advance
      let value ← wordInteger v token.span
      return .atom (← newNode token.span) value
    | .character c =>
      let _ ← advance
      if 0xFFFF < c.toNat then fail .wideCharacter token.span
      else return .atom (← newNode token.span) (.character c)
    | .float bits => atom (.float (narrow bits))
    | .string s => atom (.string s)
    | .reserved word =>
      match word with
      | .nilWord => atom .nilObject
      | .trueWord => atom .trueObject
      | .falseWord => atom .falseObject
      | .selfWord => atom .receiver
      | .superWord => unexpected .expression
    | .identifier name =>
      let _ ← advance
      return .name (← newNode token.span) name
    | .operator op => if op = "-" then negative else unexpected .expression
    | .punctuation mark =>
      match mark with
      | .leftParen =>
        let _ ← advance
        let e ← expression fuel
        let _ ← expect .rightParen
        return e
      | .leftBracket => block fuel
      | .leftBrace => array fuel
      | .caret => fail .misplacedReturn token.span
      | _ => unexpected .expression
    | .symbol _ => fail .misplacedSymbol token.span
    | _ => unexpected .expression

/-- A block. -/
def block : Nat → IndexM Expr
  | 0 => stuck
  | fuel + 1 => do
    let opening ← advance
    let params ← blockParams fuel #[]
    if !params.isEmpty then
      if !(← isAt .rightBracket) then
        let _ ← expect .bar
    let body ← body fuel .bracket
    let close ← expect .rightBracket
    let info ← newNode (opening.span.merge close.span)
    return .block info params body.locals body.statements close.span

/-- An array. -/
def array : Nat → IndexM Expr
  | 0 => stuck
  | fuel + 1 => do
    let opening ← advance
    let items ← elements fuel #[]
    let close ← advance
    return .array (← newNode (opening.span.merge close.span)) items

/-- The elements of an array up to its closing brace, after those in `done`. -/
def elements : Nat → Array Expr → IndexM (List Expr)
  | 0, _ => stuck
  | fuel + 1, done => do
    skipDots fuel
    if ← isAt .rightBrace then return done.toList
    else
      let e ← expression fuel
      if (← isAt .dot) || (← isAt .rightBrace) then elements fuel (done.push e)
      else unexpected .elementEnd

/-- Local variables and statements up to, and without, the token that ends them. -/
def body : Nat → BodyEnd → IndexM Body
  | 0, _ => stuck
  | fuel + 1, close => do
    let locals ← variableList fuel
    let statements ← statements fuel close #[]
    if ← isAtEnd close then return ⟨locals, statements⟩
    else unexpected (.statementEnd close)

/-- Statements with dots between them, after those in `done`. -/
def statements : Nat → BodyEnd → Array Expr → IndexM (List Expr)
  | 0, _, _ => stuck
  | fuel + 1, close, done => do
    skipDots fuel
    if ← isAtEnd close then return done.toList
    else
      let e ← statement fuel
      if ← isAt .dot then statements fuel close (done.push e) else return (done.push e).toList

/-- A statement. -/
def statement : Nat → IndexM Expr
  | 0 => stuck
  | fuel + 1 => do
    if ← isAt .caret then
      let caret ← advance
      let value ← expression fuel
      let span ← spanOf value
      return .ret (← newNode (caret.span.merge span)) value
    else if (← peek 1).kind = .punctuation .assign then
      let token ← advance
      match token.kind with
      | .identifier name =>
        let _ ← advance
        let info ← newNode token.span
        let value ← expression fuel
        let span ← spanOf value
        return .assign (← newNode (token.span.merge span)) (.name info name) value
      | found => fail (.notAssignable found) token.span
    else expression fuel

end

/-! ## Definitions -/

/-- The keywords of a method with their parameters, after those in `word` and `params`. -/
def keywordHeader : Nat → Ident → Array Ident → IndexM (Ident × List Ident)
  | 0, _, _ => stuck
  | fuel + 1, word, params => do
    match (← peek 0).kind with
    | .keyword keyword =>
      let token ← advance
      let param ← identifier
      keywordHeader fuel ⟨word.name ++ keyword, word.span.merge token.span⟩ (params.push param)
    | _ => return (word, params.toList)

/-- The selector of a method and its parameters. -/
def methodHeader (fuel : Nat) : IndexM (Ident × List Ident) := do
  let token ← peek 0
  match token.kind with
  | .identifier name =>
    let _ ← advance
    return (⟨name, token.span⟩, [])
  | .operator _ | .punctuation .bar =>
    let _ ← advance
    let param ← identifier
    return (⟨token.lexeme, token.span⟩, [param])
  | .keyword _ => keywordHeader fuel ⟨"", token.span⟩ #[]
  | _ => unexpected .methodDefinition

/-- What a method does, and the mark that closes it. -/
def methodBody (fuel : Nat) : IndexM (MethodBody × Span) := do
  match (← peek 0).kind with
  | .punctuation .leftBracket =>
    let _ ← advance
    let body ← body fuel .bracket
    let close ← expect .rightBracket
    return (.code body, close.span)
  | .operator "<" =>
    let _ ← advance
    if (← peek 0).kind = .keyword "primitive:" then
      let _ ← advance
    else unexpected .primitiveKeyword
    match (← peek 0).kind with
    | .symbol name =>
      let token ← advance
      if (← peek 0).kind = .operator ">" then
        let close ← advance
        return (.primitive ⟨name, token.span⟩, close.span)
      else unexpected .primitiveClose
    | _ => unexpected .primitiveName
  | _ => unexpected .methodBody

/-- A method. -/
def method (fuel : Nat) : IndexM MethodDef := do
  let current ← peek 0
  let following ← peek 1
  let classSide := current.kind = .identifier "class" && ReadM.startsMethod following.kind
  if classSide then
    let _ ← advance
  let (selector, params) ← methodHeader fuel
  let (body, close) ← methodBody fuel
  return {
    selector := selector
    params := params
    classSide := classSide
    body := body
    span := current.span.merge close
    close := close }

/-- Methods up to a closing bracket or the end of the text, after those in `done`. -/
def methods : Nat → Array MethodDef → IndexM (List MethodDef)
  | 0, _ => stuck
  | fuel + 1, done => do
    let token ← peek 0
    if token.kind = .punctuation .rightBracket || token.isFinish then return done.toList
    else
      let m ← method fuel
      methods fuel (done.push m)

/-- A class definition. -/
def classDef (fuel : Nat) : IndexM ClassDef := do
  let head ← advance
  let superclass := match head.kind with
    | .identifier name => some ⟨name, head.span⟩
    | _ => none
  let _ ← advance
  match (← peek 0).kind with
  | .symbol name =>
    let token ← advance
    let _ ← expect .leftBracket
    let fields ← variableList fuel
    let methods ← methods fuel #[]
    let close ← expect .rightBracket
    return {
      name := ⟨name, token.span⟩
      superclass := superclass
      fields := fields
      methods := methods
      span := head.span.merge close.span }
  | _ => unexpected .className

/-! ## Whole texts -/

/-- Whether a class definition starts at the index. -/
def isAtClass : IndexM Bool := do
  let current ← peek 0
  let following ← peek 1
  return (match current.kind with
      | .identifier _ | .reserved .nilWord => true
      | _ => false)
    && following.kind = .keyword "subclass:"

/-- Takes tokens up to an opening bracket or the end of the text. -/
def skipToBracket : Nat → IndexM Unit
  | 0 => stuck
  | fuel + 1 => do
    let token ← peek 0
    if token.kind ≠ .punctuation .leftBracket && !token.isFinish then
      let _ ← advance
      skipToBracket fuel

/-- One bracket less is open, if there was one. -/
def oneLess : Nat → Option Nat
  | 0 => none
  | depth + 1 => some depth

/-- Takes tokens up to the bracket that closes the `depth` open ones. -/
def skipBrackets : Nat → Nat → IndexM Unit
  | 0, _ => stuck
  | fuel + 1, depth => do
    let token ← advance
    match token.kind with
    | .punctuation .leftBracket => skipBrackets fuel (depth + 1)
    | .punctuation .rightBracket =>
      let depth ← present (oneLess depth)
      if depth ≠ 0 then skipBrackets fuel depth
    | .endOfInput => return
    | _ => skipBrackets fuel depth

/-- Passes over the class definition that starts with the token at `header`. -/
def skipClass (fuel header : Nat) : IndexM Unit := do
  modify (State.setBack · header)
  skipToBracket fuel
  skipBrackets fuel 0

/-- Takes a step and returns its error, if there is one. -/
def attempt {α : Type} (step : IndexM α) : IndexM (Except SyntaxError α) :=
  fun s => (step s).map fun result => (.ok result.1, result.2)

/-- The machine after an error has been recorded. -/
def State.recorded (s : State) (e : SyntaxError) : State := { s with errors := s.errors.push e }

/-- Records an error. -/
def record (e : SyntaxError) : IndexM Unit := modify (State.recorded · e)

/-- Class definitions, after those in `done`. -/
def classes : Nat → Array ClassDef → IndexM (Array ClassDef)
  | 0, _ => stuck
  | fuel + 1, done => do
    if ← isAtClass then
      let header := (← get).index
      note (.classMet header)
      match ← attempt (classDef fuel) with
      | .ok c =>
        note (.classRead header)
        classes fuel (done.push c)
      | .error e =>
        record e
        skipClass fuel header
        note (.classPassed header)
        classes fuel done
    else return done

/-- The main program, or an empty one after its error has been recorded. -/
def mainProgram (fuel : Nat) : IndexM Body := do
  match ← attempt (body fuel .finish) with
  | .ok main => return main
  | .error e =>
    record e
    return {}

/-- What has been read, or all errors that have been recorded. -/
def conclude (classes : Array ClassDef) (main : Body) : IndexM (Except (List SyntaxError) SourceUnit) := do
  let s ← get
  if s.errors.isEmpty then
    let token ← peek 0
    return .ok {
      classes := classes.toList
      main := main
      finish := token.span
      nodeCount := s.arena.size }
  else return .error s.errors.toList

/-- Class definitions and the main program after them, or all errors. -/
def unit (fuel : Nat) : IndexM (Except (List SyntaxError) SourceUnit) := do
  let classes ← classes fuel #[]
  let main ← mainProgram fuel
  conclude classes main

/-- So many expressions one after the other, whether they can be read or not. -/
def expressions (fuel : Nat) : Nat → IndexM (List (Except SyntaxError Expr))
  | 0 => return []
  | count + 1 => do
    let result ← attempt (expression fuel)
    let results ← expressions fuel count
    return result :: results

/-- So many expressions, and then a whole text. -/
def session (fuel count : Nat) :
    IndexM (List (Except SyntaxError Expr) × Except (List SyntaxError) SourceUnit) := do
  let results ← expressions fuel count
  let read ← unit fuel
  return (results, read)

end Indexed

end Smalltalk
