import Mathlib
import Smalltalk.Number.Binary
import Smalltalk.Reader.Cursor

/-!
# The grammar of statements and expressions

A grammar relates the tokens of a phrase to the tree that the phrase stands for. `P ts a rest` says
that the tokens `ts` start with a phrase of the kind `P`, that the phrase stands for `a`, and that
the tokens `rest` follow it; nothing is asked of `rest`.

Trees of the grammar are bare: their nodes have no numbers and no places. In the comments, capitals
stand for single tokens, `*` for any number of phrases, `+` for at least one and `?` for at most one.
-/

namespace Smalltalk

open Number

/-! ## Bare trees -/

/-- The name by itself. -/
def Ident.bare (i : Ident) : Ident := ⟨i.name, {}⟩

def KeywordPart.bare (p : KeywordPart) : KeywordPart := ⟨p.keyword.bare, {}⟩

def Selector.bare : Selector → Selector
  | unary word => unary word.bare
  | binary operator => binary operator.bare
  | keyword parts => keyword (parts.map KeywordPart.bare)

/-- Neither a number nor a place. -/
def NodeInfo.none : NodeInfo := ⟨0, {}⟩

namespace Expr

mutual

/-- A tree without numbers and places. -/
def bare : Expr → Expr
  | atom _ value => atom .none value
  | name _ x => name .none x
  | array _ items => array .none (bareAll items)
  | block _ params locals statements _ =>
    block .none (params.map Ident.bare) (locals.map Ident.bare) (bareAll statements) {}
  | send _ receiver selector arguments => send .none receiver.bare selector.bare (bareAll arguments)
  | superSend _ selector arguments => superSend .none selector.bare (bareAll arguments)
  | assign _ target value => assign .none target.bare value.bare
  | ret _ value => ret .none value.bare

def bareAll : List Expr → List Expr
  | [] => []
  | e :: es => e.bare :: bareAll es

end

theorem bareAll_eq_map (es : List Expr) : bareAll es = es.map bare := by
  induction es with
  | nil => rfl
  | cons e es ih => rw [bareAll, ih, List.map_cons]

end Expr

def Body.bare (b : Body) : Body := ⟨b.locals.map Ident.bare, b.statements.map Expr.bare⟩

/-! ## Phrases -/

namespace Grammar

/-- Phrases one after the other: `P*` -/
inductive Many {α : Type} (P : List Token → α → List Token → Prop) :
    List Token → List α → List Token → Prop
  | nil {ts : List Token} : Many P ts [] ts
  | cons {ts us rest : List Token} {a : α} {as : List α} (head : P ts a us) (tail : Many P us as rest) :
    Many P ts (a :: as) rest

/-- Phrases with dots between them: `'.'* (P ('.'+ P)* '.'*)?` -/
inductive Separated {α : Type} (P : List Token → α → List Token → Prop) :
    List Token → List α → List Token → Prop
  | none {ts : List Token} : Separated P ts [] ts
  | dot {t : Token} {ts rest : List Token} {as : List α} (dot : t.kind = .punctuation .dot)
    (tail : Separated P ts as rest) : Separated P (t :: ts) as rest
  | last {ts rest : List Token} {a : α} (item : P ts a rest) : Separated P ts [a] rest
  | item {t : Token} {ts us rest : List Token} {a : α} {as : List α} (item : P ts a (t :: us))
    (dot : t.kind = .punctuation .dot) (tail : Separated P us as rest) : Separated P ts (a :: as) rest

inductive Name : List Token → Ident → List Token → Prop
  | mk {t : Token} {rest : List Token} {x : String} (token : t.kind = .identifier x) :
    Name (t :: rest) ⟨x, {}⟩ rest

/-- Variables: `('|' ID* '|')?` -/
inductive Variables : List Token → List Ident → List Token → Prop
  | none {ts : List Token} : Variables ts [] ts
  | some {t t' : Token} {ts rest : List Token} {xs : List Ident} (opening : t.kind = .punctuation .bar)
    (names : Many Name ts xs (t' :: rest)) (closing : t'.kind = .punctuation .bar) :
    Variables (t :: ts) xs rest

inductive BlockArgument : List Token → Ident → List Token → Prop
  | mk {t : Token} {rest : List Token} {x : String} (token : t.kind = .blockArgument x) :
    BlockArgument (t :: rest) ⟨x, {}⟩ rest

/-- Whether a token is a binary selector. -/
def IsOperator (t : Token) : Prop := (∃ op, t.kind = .operator op) ∨ t.kind = .punctuation .bar

/-- A value of 32 bits with a sign. -/
def IsWord (v : Int) : Prop := -2147483648 ≤ v ∧ v ≤ 2147483647

/-- Literals: `NUMBER | '-' NUMBER | CHAR | STRING | nil | self | true | false` -/
inductive Literal : List Token → Atom → List Token → Prop
  | integer {t : Token} {rest : List Token} {v : Int} (token : t.kind = .integer v) (word : IsWord v) :
    Literal (t :: rest) (.integer (Int32.ofInt v)) rest
  | negativeInteger {minus t : Token} {rest : List Token} {v : Int} (sign : minus.kind = .operator "-")
    (token : t.kind = .integer v) (word : IsWord (-v)) :
    Literal (minus :: t :: rest) (.integer (Int32.ofInt (-v))) rest
  | float {t : Token} {rest : List Token} {bits : UInt64} (token : t.kind = .float bits) :
    Literal (t :: rest) (.float (narrow bits)) rest
  | negativeFloat {minus t : Token} {rest : List Token} {bits : UInt64}
    (sign : minus.kind = .operator "-") (token : t.kind = .float bits) :
    Literal (minus :: t :: rest) (.float (narrow (negateDouble bits))) rest
  | character {t : Token} {rest : List Token} {c : Char} (token : t.kind = .character c)
    (narrow : c.toNat ≤ 0xFFFF) : Literal (t :: rest) (.character c) rest
  | string {t : Token} {rest : List Token} {s : String} (token : t.kind = .string s) :
    Literal (t :: rest) (.string s) rest
  | nilObject {t : Token} {rest : List Token} (token : t.kind = .reserved .nilWord) :
    Literal (t :: rest) .nilObject rest
  | receiver {t : Token} {rest : List Token} (token : t.kind = .reserved .selfWord) :
    Literal (t :: rest) .receiver rest
  | trueObject {t : Token} {rest : List Token} (token : t.kind = .reserved .trueWord) :
    Literal (t :: rest) .trueObject rest
  | falseObject {t : Token} {rest : List Token} (token : t.kind = .reserved .falseWord) :
    Literal (t :: rest) .falseObject rest

/-! ## Messages -/

def sendUnary (receiver : Expr) (word : Ident) : Expr := .send .none receiver (.unary word) []

/-- An operator and its argument. -/
abbrev BinaryPart := Ident × Expr

def sendBinary (receiver : Expr) (part : BinaryPart) : Expr :=
  .send .none receiver (.binary part.1) [part.2]

def keywordSelector (parts : List (Ident × Expr)) : Selector :=
  .keyword (parts.map fun part => ⟨part.1, {}⟩)

theorem bare_keyword {parts : List KeywordPart} {new : List (Ident × Expr)}
    (h : parts.map (·.keyword.bare) = new.map (·.1)) : (Selector.keyword parts).bare = keywordSelector new := by
  have hparts : parts.map KeywordPart.bare = (parts.map (·.keyword.bare)).map (⟨·, {}⟩) := by
    rw [List.map_map]
    rfl
  rw [Selector.bare, hparts, h, List.map_map]
  rfl

/-- The name of a keyword selector depends on its words alone. -/
theorem bare_keyword_ident {parts : List KeywordPart} {new : List (Ident × Expr)}
    (h : parts.map (·.keyword.bare) = new.map (·.1)) :
    (Selector.keyword parts).ident.bare = (keywordSelector new).ident.bare := by
  have hwords : parts.map (·.keyword.name) = new.map (·.1.name) := by
    simpa [Function.comp_def, Ident.bare] using congrArg (List.map Ident.name) h
  simp [Selector.ident, Ident.bare, keywordSelector, Selector.joined, Function.comp_def, hwords]

mutual

/-- Expressions: `binary | (binary | super) (KEYWORD binary)+` -/
inductive Expression : List Token → Expr → List Token → Prop
  | plain {ts rest : List Token} {e : Expr} (operand : Binary ts e rest) : Expression ts e rest
  | keywords {ts us rest : List Token} {e : Expr} {part : Ident × Expr} {parts : List (Ident × Expr)}
    (operand : Binary ts e us) (messages : Many KeywordArgument us (part :: parts) rest) :
    Expression ts (.send .none e (keywordSelector (part :: parts)) ((part :: parts).map (·.2))) rest
  | superKeywords {t : Token} {ts rest : List Token} {part : Ident × Expr} {parts : List (Ident × Expr)}
    (word : t.kind = .reserved .superWord) (messages : Many KeywordArgument ts (part :: parts) rest) :
    Expression (t :: ts)
      (.superSend .none (keywordSelector (part :: parts)).ident.bare ((part :: parts).map (·.2))) rest

inductive KeywordArgument : List Token → Ident × Expr → List Token → Prop
  | mk {t : Token} {ts rest : List Token} {word : String} {e : Expr} (token : t.kind = .keyword word)
    (argument : Binary ts e rest) : KeywordArgument (t :: ts) (⟨word, {}⟩, e) rest

/-- Operands of keyword messages: `(unary | super BINOP unary) (BINOP unary)*` -/
inductive Binary : List Token → Expr → List Token → Prop
  | plain {ts us rest : List Token} {e : Expr} {parts : List BinaryPart} (operand : Unary ts e us)
    (messages : Many BinaryArgument us parts rest) : Binary ts (parts.foldl sendBinary e) rest
  | super {t : Token} {ts us rest : List Token} {part : BinaryPart} {parts : List BinaryPart}
    (word : t.kind = .reserved .superWord) (first : BinaryArgument ts part us)
    (messages : Many BinaryArgument us parts rest) :
    Binary (t :: ts) (parts.foldl sendBinary (.superSend .none part.1 [part.2])) rest

inductive BinaryArgument : List Token → BinaryPart → List Token → Prop
  | mk {t : Token} {ts rest : List Token} {e : Expr} (operator : IsOperator t)
    (argument : Unary ts e rest) : BinaryArgument (t :: ts) (⟨t.lexeme, {}⟩, e) rest

/-- Operands of binary messages: `primary ID* | super ID+` -/
inductive Unary : List Token → Expr → List Token → Prop
  | plain {ts us rest : List Token} {e : Expr} {words : List Ident} (operand : Primary ts e us)
    (messages : Many Name us words rest) : Unary ts (words.foldl sendUnary e) rest
  | super {t : Token} {ts rest : List Token} {first : Ident} {words : List Ident}
    (word : t.kind = .reserved .superWord) (messages : Many Name ts (first :: words) rest) :
    Unary (t :: ts) (words.foldl sendUnary (.superSend .none first [])) rest

/-- A literal, or `ID | '[' body ']' | '[' BLOCKARG+ '|' body ']' | '[' BLOCKARG+ ']' | '(' expr ')'
| '{' '.'* (expr ('.'+ expr)* '.'*)? '}'` -/
inductive Primary : List Token → Expr → List Token → Prop
  | literal {ts rest : List Token} {value : Atom} (token : Literal ts value rest) :
    Primary ts (.atom .none value) rest
  | name {t : Token} {rest : List Token} {x : String} (token : t.kind = .identifier x) :
    Primary (t :: rest) (.name .none x) rest
  | block {t t' : Token} {ts rest : List Token} {b : Body} (opening : t.kind = .punctuation .leftBracket)
    (body : BodyPhrase ts b (t' :: rest)) (closing : t'.kind = .punctuation .rightBracket) :
    Primary (t :: ts) (.block .none [] b.locals b.statements {}) rest
  | blockWithParameters {t bar t' : Token} {ts us rest : List Token} {x : Ident} {xs : List Ident}
    {b : Body} (opening : t.kind = .punctuation .leftBracket)
    (params : Many BlockArgument ts (x :: xs) (bar :: us)) (separator : bar.kind = .punctuation .bar)
    (body : BodyPhrase us b (t' :: rest)) (closing : t'.kind = .punctuation .rightBracket) :
    Primary (t :: ts) (.block .none (x :: xs) b.locals b.statements {}) rest
  | blockOfParameters {t t' : Token} {ts rest : List Token} {x : Ident} {xs : List Ident}
    (opening : t.kind = .punctuation .leftBracket) (params : Many BlockArgument ts (x :: xs) (t' :: rest))
    (closing : t'.kind = .punctuation .rightBracket) :
    Primary (t :: ts) (.block .none (x :: xs) [] [] {}) rest
  | parentheses {t t' : Token} {ts rest : List Token} {e : Expr}
    (opening : t.kind = .punctuation .leftParen) (inner : Expression ts e (t' :: rest))
    (closing : t'.kind = .punctuation .rightParen) : Primary (t :: ts) e rest
  | array {t t' : Token} {ts rest : List Token} {items : List Expr}
    (opening : t.kind = .punctuation .leftBrace) (elements : Separated Expression ts items (t' :: rest))
    (closing : t'.kind = .punctuation .rightBrace) : Primary (t :: ts) (.array .none items) rest

/-- Statements: `ID ':=' expr | '^' expr | expr` -/
inductive Statement : List Token → Expr → List Token → Prop
  | assign {t t' : Token} {ts rest : List Token} {x : String} {e : Expr} (target : t.kind = .identifier x)
    (mark : t'.kind = .punctuation .assign) (value : Expression ts e rest) :
    Statement (t :: t' :: ts) (.assign .none (.name .none x) e) rest
  | ret {t : Token} {ts rest : List Token} {e : Expr} (mark : t.kind = .punctuation .caret)
    (value : Expression ts e rest) : Statement (t :: ts) (.ret .none e) rest
  | expression {ts rest : List Token} {e : Expr} (value : Expression ts e rest) : Statement ts e rest

/-- Bodies: `('|' ID* '|')? '.'* (stat ('.'+ stat)* '.'*)?` -/
inductive BodyPhrase : List Token → Body → List Token → Prop
  | mk {ts us rest : List Token} {xs : List Ident} {es : List Expr} (locals : Variables ts xs us)
    (statements : Separated Statement us es rest) : BodyPhrase ts ⟨xs, es⟩ rest

end

theorem Many.rest_eq {α : Type} {P : List Token → α → List Token → Prop} {ts rest : List Token}
    (h : Many P ts [] rest) : rest = ts := by
  cases h
  rfl

/-! ## How phrases start

What a phrase starts with never depends on what is nested in it, so no induction is needed here.
-/

/-- What the first of some tokens is. -/
def headKind (ts : List Token) : TokenKind := (ts.headD default).kind

/-- What an expression can start with. -/
def startsExpression : TokenKind → Bool
  | .integer _ | .float _ | .character _ | .string _ | .identifier _ | .reserved _
  | .punctuation .leftBracket | .punctuation .leftParen | .punctuation .leftBrace => true
  | .operator op => op = "-"
  | _ => false

/-- What a statement can start with. -/
def startsStatement (kind : TokenKind) : Bool := startsExpression kind || kind = .punctuation .caret

@[simp]
theorem headKind_cons (t : Token) (ts : List Token) : headKind (t :: ts) = t.kind := rfl

section Heads

variable {ts rest : List Token} {e : Expr}

theorem startsExpression_of_eq {t : Token} {ts : List Token} {kind : TokenKind} (h : t.kind = kind)
    (hkind : startsExpression kind = true) : startsExpression (headKind (t :: ts)) = true := by
  rw [headKind_cons, h, hkind]

theorem Name.headKind {x : Ident} (h : Name ts x rest) : headKind ts = .identifier x.name := by
  cases h with
  | mk token => exact token

theorem Literal.startsExpression {value : Atom} (h : Literal ts value rest) :
    startsExpression (headKind ts) = true := by
  cases h with
  | negativeInteger sign | negativeFloat sign => exact startsExpression_of_eq sign rfl
  | integer token | float token | character token | string token | nilObject token | receiver token
  | trueObject token | falseObject token => exact startsExpression_of_eq token rfl

theorem Primary.startsExpression (h : Primary ts e rest) : startsExpression (headKind ts) = true := by
  cases h with
  | literal token => exact token.startsExpression
  | name token => exact startsExpression_of_eq token rfl
  | block opening | blockWithParameters opening | blockOfParameters opening | parentheses opening
  | array opening => exact startsExpression_of_eq opening rfl

theorem Primary.ne_super (h : Primary ts e rest) : headKind ts ≠ .reserved .superWord := by
  cases h with
  | literal token => cases token <;> simp_all
  | name token => simp [token]
  | block opening | blockWithParameters opening | blockOfParameters opening | parentheses opening
  | array opening => simp [opening]

theorem Unary.startsExpression (h : Unary ts e rest) : startsExpression (headKind ts) = true := by
  cases h with
  | plain operand _ => exact operand.startsExpression
  | super word _ => exact startsExpression_of_eq word rfl

theorem Binary.startsExpression (h : Binary ts e rest) : startsExpression (headKind ts) = true := by
  cases h with
  | plain operand _ => exact operand.startsExpression
  | super word _ _ => exact startsExpression_of_eq word rfl

theorem Expression.startsExpression (h : Expression ts e rest) :
    startsExpression (headKind ts) = true := by
  cases h with
  | plain operand => exact operand.startsExpression
  | keywords operand _ => exact operand.startsExpression
  | superKeywords word _ => exact startsExpression_of_eq word rfl

theorem Statement.startsStatement (h : Statement ts e rest) : startsStatement (headKind ts) = true := by
  cases h with
  | assign target _ _ => rw [headKind_cons, target]; rfl
  | ret mark _ => rw [headKind_cons, mark]; rfl
  | expression value => rw [Grammar.startsStatement, value.startsExpression]; rfl

/-- A list of separated items starts with a dot or an item, unless it is empty. -/
theorem Separated.headKind_cases {α : Type} {P : List Token → α → List Token → Prop} {as : List α}
    (h : Separated P ts as rest) :
    (as = [] ∧ rest = ts) ∨ headKind ts = .punctuation .dot ∨ ∃ a us, P ts a us := by
  cases h with
  | none => exact .inl ⟨rfl, rfl⟩
  | dot dot _ => exact .inr (.inl dot)
  | last item => exact .inr (.inr ⟨_, _, item⟩)
  | item item _ _ => exact .inr (.inr ⟨_, _, item⟩)

/-- Where no item starts with a dot, a dot in front of separated items is one of the separators. -/
theorem Separated.of_dot {α : Type} {P : List Token → α → List Token → Prop} {as : List α} {t : Token}
    (h : Separated P (t :: ts) as rest) (hP : ∀ a us, ¬ P (t :: ts) a us) :
    (as = [] ∧ rest = t :: ts) ∨ Separated P ts as rest := by
  cases h with
  | none => exact .inl ⟨rfl, rfl⟩
  | dot _ tail => exact .inr tail
  | last item => exact absurd item (hP _ _)
  | item item _ _ => exact absurd item (hP _ _)

theorem not_expression_of_dot {t : Token} (hdot : t.kind = .punctuation .dot) (e : Expr)
    (rest : List Token) : ¬ Expression (t :: ts) e rest := by
  intro h
  have hstart := h.startsExpression
  rw [headKind_cons, hdot] at hstart
  cases hstart

theorem not_statement_of_dot {t : Token} (hdot : t.kind = .punctuation .dot) (e : Expr)
    (rest : List Token) : ¬ Statement (t :: ts) e rest := by
  intro h
  have hstart := h.startsStatement
  rw [headKind_cons, hdot] at hstart
  cases hstart

/-- What a body starts with, unless nothing is in it. -/
theorem BodyPhrase.headKind_cases {b : Body} (h : BodyPhrase ts b rest) :
    rest = ts ∨ headKind ts = .punctuation .bar ∨ headKind ts = .punctuation .dot ∨
      startsStatement (headKind ts) = true := by
  cases h with
  | mk locals statements =>
    cases locals with
    | none =>
      rcases statements.headKind_cases with ⟨-, rfl⟩ | hdot | ⟨_, _, hstatement⟩
      · exact .inl rfl
      · exact .inr (.inr (.inl hdot))
      · exact .inr (.inr (.inr hstatement.startsStatement))
    | some opening _ _ => exact .inr (.inl opening)

/-- What can follow an expression. -/
def followsExpression : TokenKind → Bool
  | .endOfInput | .punctuation .dot | .punctuation .rightBracket | .punctuation .rightParen
  | .punctuation .rightBrace => true
  | _ => false

theorem ne_of_followsExpression {kind kind' : TokenKind} (h : followsExpression kind = true)
    (h' : followsExpression kind' = false) : kind ≠ kind' := by
  rintro rfl
  rw [h] at h'
  cases h'

/-- What can follow the operand of a keyword message. -/
def followsBinary : TokenKind → Bool
  | .keyword _ => true
  | kind => followsExpression kind

/-- What can follow the operand of a binary message. -/
def followsUnary : TokenKind → Bool
  | .operator _ | .punctuation .bar => true
  | kind => followsBinary kind

theorem followsBinary_of_followsExpression {kind : TokenKind} (h : followsExpression kind = true) :
    followsBinary kind = true := by
  unfold followsBinary
  split
  · rfl
  · exact h

theorem followsUnary_of_followsBinary {kind : TokenKind} (h : followsBinary kind = true) :
    followsUnary kind = true := by
  unfold followsUnary
  split
  · rfl
  · rfl
  · exact h

theorem ne_identifier_of_followsUnary {kind : TokenKind} (h : followsUnary kind = true) (x : String) :
    kind ≠ .identifier x := by
  rintro rfl
  cases h

theorem IsOperator.followsUnary {t : Token} (h : IsOperator t) : followsUnary t.kind = true := by
  rcases h with ⟨op, hop⟩ | hbar
  · rw [hop]
    rfl
  · rw [hbar]
    rfl

theorem IsOperator.ne_finish {t : Token} (h : IsOperator t) : t.kind ≠ .endOfInput := by
  rcases h with ⟨op, hop⟩ | hbar
  · simp [hop]
  · simp [hbar]

/-- The operand of a binary message is followed by an operator or by what follows the message. -/
theorem Many.followsUnary {parts : List BinaryPart} (h : Many BinaryArgument ts parts rest)
    (hrest : followsUnary (headKind rest) = true) : followsUnary (headKind ts) = true := by
  cases h with
  | nil => exact hrest
  | cons head _ =>
    cases head with
    | mk operator _ => exact operator.followsUnary

theorem Many.followsBinary {parts : List (Ident × Expr)} (h : Many KeywordArgument ts parts rest)
    (hrest : followsBinary (headKind rest) = true) : followsBinary (headKind ts) = true := by
  cases h with
  | nil => exact hrest
  | cons head _ =>
    cases head with
    | mk token _ =>
      rw [headKind_cons, token]
      rfl

theorem Many.headKind_ne {α : Type} {P : List Token → α → List Token → Prop} {as : List α}
    {kind : TokenKind} (h : Many P ts as rest) (hP : ∀ a us, P ts a us → headKind ts ≠ kind)
    (hrest : headKind rest ≠ kind) : headKind ts ≠ kind := by
  cases h with
  | nil => exact hrest
  | cons head _ => exact hP _ _ head

/-- A body between brackets does not start with a parameter. -/
theorem BodyPhrase.ne_blockArgument {b : Body} {t : Token} (h : BodyPhrase ts b (t :: rest))
    (ht : t.kind = .punctuation .rightBracket) (x : String) : headKind ts ≠ .blockArgument x := by
  rcases h.headKind_cases with rfl | hbar | hdot | hstart
  · simp [ht]
  · simp [hbar]
  · simp [hdot]
  · intro hargument
    rw [hargument] at hstart
    cases hstart

/-! The second token of an expression is no assignment mark, which tells it from an assignment. -/

theorem ne_assign_of_eq {kind kind' : TokenKind} (h : kind = kind')
    (hkind : kind' ≠ .punctuation .assign) : kind ≠ .punctuation .assign := h ▸ hkind

theorem ne_assign_of_starts {kind : TokenKind} (h : Grammar.startsExpression kind = true) :
    kind ≠ .punctuation .assign := by
  rintro rfl
  cases h

theorem Many.ne_assign_of_names {words : List Ident} (h : Many Name ts words rest)
    (hrest : headKind rest ≠ .punctuation .assign) : headKind ts ≠ .punctuation .assign :=
  h.headKind_ne (fun _ _ name => ne_assign_of_eq name.headKind TokenKind.noConfusion) hrest

theorem Separated.ne_assign_of_expressions {es : List Expr} (h : Separated Expression ts es rest)
    (hrest : headKind rest ≠ .punctuation .assign) : headKind ts ≠ .punctuation .assign := by
  rcases h.headKind_cases with ⟨-, rfl⟩ | hdot | ⟨_, _, item⟩
  · exact hrest
  · exact ne_assign_of_eq hdot (by simp)
  · exact ne_assign_of_starts item.startsExpression

theorem BodyPhrase.ne_assign {b : Body} (h : BodyPhrase ts b rest)
    (hrest : headKind rest ≠ .punctuation .assign) : headKind ts ≠ .punctuation .assign := by
  rcases h.headKind_cases with rfl | hbar | hdot | hstart
  · exact hrest
  · exact ne_assign_of_eq hbar (by simp)
  · exact ne_assign_of_eq hdot (by simp)
  · rintro hassign
    rw [hassign] at hstart
    cases hstart

theorem Primary.second_ne_assign (h : Primary ts e rest) (hrest : headKind rest ≠ .punctuation .assign) :
    headKind ts.tail ≠ .punctuation .assign := by
  cases h with
  | literal token =>
    cases token with
    | negativeInteger _ token | negativeFloat _ token => exact ne_assign_of_eq token TokenKind.noConfusion
    | _ => exact hrest
  | name token => exact hrest
  | block _ body closing => exact body.ne_assign (ne_assign_of_eq closing (by simp))
  | blockWithParameters _ params _ _ _ | blockOfParameters _ params _ =>
    cases params with
    | cons head _ =>
      cases head with
      | mk token => exact ne_assign_of_eq token TokenKind.noConfusion
  | parentheses _ inner _ => exact ne_assign_of_starts inner.startsExpression
  | array _ elements closing => exact elements.ne_assign_of_expressions (ne_assign_of_eq closing (by simp))

theorem Unary.second_ne_assign (h : Unary ts e rest) (hrest : headKind rest ≠ .punctuation .assign) :
    headKind ts.tail ≠ .punctuation .assign := by
  cases h with
  | plain operand messages => exact operand.second_ne_assign (messages.ne_assign_of_names hrest)
  | super _ messages => exact messages.ne_assign_of_names hrest

theorem BinaryArgument.ne_assign {part : BinaryPart} (h : BinaryArgument ts part rest) :
    headKind ts ≠ .punctuation .assign := by
  cases h with
  | mk operator _ =>
    rcases operator with ⟨op, hop⟩ | hbar
    · exact ne_assign_of_eq hop TokenKind.noConfusion
    · exact ne_assign_of_eq hbar (by simp)

theorem Binary.second_ne_assign (h : Binary ts e rest) (hrest : headKind rest ≠ .punctuation .assign) :
    headKind ts.tail ≠ .punctuation .assign := by
  cases h with
  | plain operand messages =>
    exact operand.second_ne_assign (messages.headKind_ne (fun _ _ part => part.ne_assign) hrest)
  | super _ first _ => exact first.ne_assign

theorem KeywordArgument.ne_assign {part : Ident × Expr} (h : KeywordArgument ts part rest) :
    headKind ts ≠ .punctuation .assign := by
  cases h with
  | mk token _ => exact ne_assign_of_eq token TokenKind.noConfusion

theorem Expression.second_ne_assign (h : Expression ts e rest)
    (hrest : headKind rest ≠ .punctuation .assign) : headKind ts.tail ≠ .punctuation .assign := by
  cases h with
  | plain operand => exact operand.second_ne_assign hrest
  | keywords operand messages =>
    exact operand.second_ne_assign (messages.headKind_ne (fun _ _ part => part.ne_assign) hrest)
  | superKeywords _ messages => exact messages.headKind_ne (fun _ _ part => part.ne_assign) hrest

end Heads

/-! ## What a phrase takes -/

/-- The tokens `ts` are those of a phrase, at least `k` of them, and then `rest`. The end of the text
is in no phrase. -/
def Leaves (k : Nat) (ts rest : List Token) : Prop :=
  ∃ phrase, ts = phrase ++ rest ∧ k ≤ phrase.length ∧ ∀ t ∈ phrase, t.kind ≠ .endOfInput

section Leaves

variable {j k n : Nat} {t : Token} {kind : TokenKind} {ts us rest : List Token}

theorem Leaves.refl : Leaves 0 ts ts := ⟨[], rfl, le_rfl, by simp⟩

theorem Leaves.mono (h : Leaves k ts rest) (hj : j ≤ k) : Leaves j ts rest := by
  obtain ⟨phrase, hts, hk, hphrase⟩ := h
  exact ⟨phrase, hts, hj.trans hk, hphrase⟩

theorem Leaves.cons (h : Leaves k ts rest) (ht : t.kind = kind) (hkind : kind ≠ .endOfInput) :
    Leaves (k + 1) (t :: ts) rest := by
  obtain ⟨phrase, rfl, hk, hphrase⟩ := h
  exact ⟨t :: phrase, rfl, Nat.succ_le_succ hk, List.forall_mem_cons.mpr ⟨ht ▸ hkind, hphrase⟩⟩

theorem Leaves.trans (h : Leaves j ts us) (h' : Leaves k us rest) : Leaves (j + k) ts rest := by
  obtain ⟨phrase, rfl, hj, hphrase⟩ := h
  obtain ⟨phrase', rfl, hk, hphrase'⟩ := h'
  refine ⟨phrase ++ phrase', by simp, by rw [List.length_append]; omega, ?_⟩
  exact List.forall_mem_append.mpr ⟨hphrase, hphrase'⟩

theorem Leaves.tail (h : Leaves k ts (t :: rest)) (ht : t.kind = kind) (hkind : kind ≠ .endOfInput) :
    Leaves (k + 1) ts rest := h.trans (Leaves.refl.cons ht hkind)

theorem Leaves.length_add_le (h : Leaves k ts rest) : rest.length + k ≤ ts.length := by
  obtain ⟨phrase, rfl, hk, -⟩ := h
  rw [List.length_append]
  omega

theorem Leaves.length_le (h : Leaves k ts rest) : rest.length ≤ ts.length := by
  have := h.length_add_le
  omega

/-- What is left where a text ends is its end. -/
theorem Leaves.eq_of_finish {finish : Token} (h : Leaves k (ts ++ [finish]) rest)
    (hts : ∀ t ∈ ts, t.kind ≠ .endOfInput) (hfinish : finish.kind = .endOfInput)
    (hrest : headKind rest = .endOfInput) : rest = [finish] := by
  obtain ⟨phrase, hphrase, -, hkinds⟩ := h
  rcases List.append_eq_append_iff.mp hphrase with ⟨us, rfl, hus⟩ | ⟨us, rfl, hus⟩
  · cases us with
    | nil => exact hus.symm
    | cons u us =>
      obtain ⟨rfl, -⟩ := List.cons.inj hus
      exact absurd hfinish (hkinds finish (by simp))
  · cases us with
    | nil => exact hus
    | cons u us =>
      rw [hus] at hrest
      exact absurd hrest (hts u (by simp))

variable {α : Type} {P : List Token → α → List Token → Prop}

/-- Phrases one after the other leave as much as each of them does. Here, and below, what a single
phrase leaves need only be known for few tokens. -/
theorem Many.leaves {as : List α} (h : Many P ts as rest)
    (hP : ∀ ts a rest, ts.length ≤ n → P ts a rest → Leaves 1 ts rest) (hn : ts.length ≤ n) :
    Leaves as.length ts rest := by
  induction h with
  | nil => exact .refl
  | cons head _ ih =>
    have hhead := hP _ _ _ hn head
    have htail := ih (hhead.length_le.trans hn)
    rw [List.length_cons, Nat.add_comm]
    exact hhead.trans htail

theorem Separated.leaves {as : List α} (h : Separated P ts as rest)
    (hP : ∀ ts a rest, ts.length ≤ n → P ts a rest → Leaves 1 ts rest) (hn : ts.length ≤ n) :
    Leaves as.length ts rest := by
  induction h with
  | none => exact .refl
  | dot dot _ ih =>
    rw [List.length_cons] at hn
    exact ((ih (by omega)).cons dot TokenKind.noConfusion).mono (by omega)
  | last item => exact hP _ _ _ hn item
  | item item dot _ ih =>
    have hitem := (hP _ _ _ hn item).tail dot TokenKind.noConfusion
    have htail := ih (hitem.length_le.trans hn)
    exact (hitem.trans htail).mono (by rw [List.length_cons]; omega)

theorem Name.leaves {x : Ident} (h : Name ts x rest) : Leaves 1 ts rest := by
  cases h with
  | mk token => exact Leaves.refl.cons token TokenKind.noConfusion

theorem BlockArgument.leaves {x : Ident} (h : BlockArgument ts x rest) : Leaves 1 ts rest := by
  cases h with
  | mk token => exact Leaves.refl.cons token TokenKind.noConfusion

theorem Variables.leaves {xs : List Ident} (h : Variables ts xs rest) : Leaves xs.length ts rest := by
  cases h with
  | none => exact .refl
  | some opening names closing =>
    have hnames := (names.leaves (fun _ _ _ _ => Name.leaves) le_rfl).tail closing TokenKind.noConfusion
    exact (hnames.cons opening TokenKind.noConfusion).mono (by omega)

theorem Literal.leaves {value : Atom} (h : Literal ts value rest) : Leaves 1 ts rest := by
  cases h with
  | negativeInteger sign token | negativeFloat sign token =>
    exact ((Leaves.refl.cons token TokenKind.noConfusion).cons sign TokenKind.noConfusion).mono (by omega)
  | integer token | float token | character token | string token | nilObject token | receiver token
  | trueObject token | falseObject token => exact Leaves.refl.cons token TokenKind.noConfusion

section Nested

-- Inside of a phrase there are only phrases of fewer tokens, about which this is known.
variable (hnested : ∀ ts e rest, ts.length < n → Expression ts e rest → Leaves 1 ts rest)

include hnested

theorem Statement.leaves_of_lt {e : Expr} (h : Statement ts e rest) (hn : ts.length < n) :
    Leaves 1 ts rest := by
  cases h with
  | assign target mark value =>
    simp only [List.length_cons] at hn
    have hvalue := hnested _ _ _ (by omega) value
    exact ((hvalue.cons mark TokenKind.noConfusion).cons target TokenKind.noConfusion).mono (by omega)
  | ret mark value =>
    rw [List.length_cons] at hn
    exact ((hnested _ _ _ (by omega) value).cons mark TokenKind.noConfusion).mono (by omega)
  | expression value => exact hnested _ _ _ hn value

theorem BodyPhrase.leaves_of_lt {b : Body} (h : BodyPhrase ts b rest) (hn : ts.length < n) :
    Leaves (b.locals.length + b.statements.length) ts rest := by
  cases h with
  | mk locals statements =>
    have hlocals := locals.leaves
    have hlength := hlocals.length_le
    exact hlocals.trans (statements.leaves (n := n - 1)
      (fun ts e rest hts h => h.leaves_of_lt hnested (by omega)) (by omega))

theorem Primary.leaves_of_le {e : Expr} (h : Primary ts e rest) (hn : ts.length ≤ n) :
    Leaves 1 ts rest := by
  cases h with
  | literal token => exact token.leaves
  | name token => exact Leaves.refl.cons token TokenKind.noConfusion
  | block opening body closing =>
    rw [List.length_cons] at hn
    have hbody := (body.leaves_of_lt hnested (by omega)).tail closing TokenKind.noConfusion
    exact (hbody.cons opening TokenKind.noConfusion).mono (by omega)
  | blockWithParameters opening params separator body closing =>
    rw [List.length_cons] at hn
    have hparams :=
      (params.leaves (fun _ _ _ _ => BlockArgument.leaves) le_rfl).tail separator TokenKind.noConfusion
    have hlength := hparams.length_le
    have hbody := (body.leaves_of_lt hnested (by omega)).tail closing TokenKind.noConfusion
    exact ((hparams.trans hbody).cons opening TokenKind.noConfusion).mono (by omega)
  | blockOfParameters opening params closing =>
    have hparams :=
      (params.leaves (fun _ _ _ _ => BlockArgument.leaves) le_rfl).tail closing TokenKind.noConfusion
    exact (hparams.cons opening TokenKind.noConfusion).mono (by omega)
  | parentheses opening inner closing =>
    rw [List.length_cons] at hn
    have hinner := (hnested _ _ _ (by omega) inner).tail closing TokenKind.noConfusion
    exact (hinner.cons opening TokenKind.noConfusion).mono (by omega)
  | array opening elements closing =>
    rw [List.length_cons] at hn
    have helements := elements.leaves (n := n - 1) (fun ts e rest hts => hnested ts e rest (by omega))
      (by omega)
    exact ((helements.tail closing TokenKind.noConfusion).cons opening TokenKind.noConfusion).mono
      (by omega)

theorem Unary.leaves_of_le {e : Expr} (h : Unary ts e rest) (hn : ts.length ≤ n) :
    Leaves 1 ts rest := by
  cases h with
  | plain operand messages =>
    have hmessages := messages.leaves (fun _ _ _ _ => Name.leaves) le_rfl
    exact ((operand.leaves_of_le hnested hn).trans hmessages).mono (by omega)
  | super word messages =>
    have hmessages := messages.leaves (fun _ _ _ _ => Name.leaves) le_rfl
    exact (hmessages.cons word TokenKind.noConfusion).mono (by omega)

theorem BinaryArgument.leaves_of_le {part : BinaryPart} (h : BinaryArgument ts part rest)
    (hn : ts.length ≤ n) : Leaves 1 ts rest := by
  cases h with
  | mk operator argument =>
    rw [List.length_cons] at hn
    exact ((argument.leaves_of_le hnested (by omega)).cons rfl operator.ne_finish).mono (by omega)

theorem Binary.leaves_of_le {e : Expr} (h : Binary ts e rest) (hn : ts.length ≤ n) :
    Leaves 1 ts rest := by
  have hparts : ∀ ts part rest, ts.length ≤ n → BinaryArgument ts part rest → Leaves 1 ts rest :=
    fun _ _ _ hts h => h.leaves_of_le hnested hts
  cases h with
  | plain operand messages =>
    have hoperand := operand.leaves_of_le hnested hn
    exact (hoperand.trans (messages.leaves hparts (hoperand.length_le.trans hn))).mono (by omega)
  | super word first messages =>
    rw [List.length_cons] at hn
    have hfirst := hparts _ _ _ (by omega) first
    have hlength := hfirst.length_le
    have hmessages := hfirst.trans (messages.leaves hparts (by omega))
    exact (hmessages.cons word TokenKind.noConfusion).mono (by omega)

theorem KeywordArgument.leaves_of_le {part : Ident × Expr} (h : KeywordArgument ts part rest)
    (hn : ts.length ≤ n) : Leaves 1 ts rest := by
  cases h with
  | mk token argument =>
    rw [List.length_cons] at hn
    exact ((argument.leaves_of_le hnested (by omega)).cons token TokenKind.noConfusion).mono (by omega)

theorem Expression.leaves_of_le {e : Expr} (h : Expression ts e rest) (hn : ts.length ≤ n) :
    Leaves 1 ts rest := by
  have hparts : ∀ ts part rest, ts.length ≤ n → KeywordArgument ts part rest → Leaves 1 ts rest :=
    fun _ _ _ hts h => h.leaves_of_le hnested hts
  cases h with
  | plain operand => exact operand.leaves_of_le hnested hn
  | keywords operand messages =>
    have hoperand := operand.leaves_of_le hnested hn
    exact (hoperand.trans (messages.leaves hparts (hoperand.length_le.trans hn))).mono (by omega)
  | superKeywords word messages =>
    rw [List.length_cons] at hn
    exact ((messages.leaves hparts (by omega)).cons word TokenKind.noConfusion).mono (by omega)

end Nested

/-- An expression takes a token at least. -/
theorem Expression.leaves {e : Expr} (h : Expression ts e rest) : Leaves 1 ts rest := by
  have hbounded : ∀ n ts e rest, ts.length < n → Expression ts e rest → Leaves 1 ts rest := by
    intro n
    induction n with
    | zero => exact fun _ _ _ hn => absurd hn (Nat.not_lt_zero _)
    | succ n ih => exact fun _ _ _ hn h => h.leaves_of_le ih (by omega)
  exact hbounded _ _ _ _ (Nat.lt_succ_self _) h

theorem Primary.leaves {e : Expr} (h : Primary ts e rest) : Leaves 1 ts rest :=
  h.leaves_of_le (fun _ _ _ _ => Expression.leaves) le_rfl

theorem Unary.leaves {e : Expr} (h : Unary ts e rest) : Leaves 1 ts rest :=
  h.leaves_of_le (fun _ _ _ _ => Expression.leaves) le_rfl

theorem BinaryArgument.leaves {part : BinaryPart} (h : BinaryArgument ts part rest) : Leaves 1 ts rest :=
  h.leaves_of_le (fun _ _ _ _ => Expression.leaves) le_rfl

theorem Binary.leaves {e : Expr} (h : Binary ts e rest) : Leaves 1 ts rest :=
  h.leaves_of_le (fun _ _ _ _ => Expression.leaves) le_rfl

theorem KeywordArgument.leaves {part : Ident × Expr} (h : KeywordArgument ts part rest) :
    Leaves 1 ts rest := h.leaves_of_le (fun _ _ _ _ => Expression.leaves) le_rfl

theorem Statement.leaves {e : Expr} (h : Statement ts e rest) : Leaves 1 ts rest :=
  h.leaves_of_lt (fun _ _ _ _ => Expression.leaves) (Nat.lt_succ_self _)

theorem BodyPhrase.leaves {b : Body} (h : BodyPhrase ts b rest) :
    Leaves (b.locals.length + b.statements.length) ts rest :=
  h.leaves_of_lt (fun _ _ _ _ => Expression.leaves) (Nat.lt_succ_self _)

/-- Nothing is in a body that starts with a closing bracket. -/
theorem BodyPhrase.eq_empty {b : Body} (h : BodyPhrase ts b rest)
    (hhead : headKind ts = .punctuation .rightBracket) : b = {} ∧ rest = ts := by
  rcases h.headKind_cases with rfl | hbar | hdot | hstart
  · have hleaves := h.leaves.length_add_le
    obtain ⟨locals, statements⟩ := b
    have hlocals : locals = [] := List.length_eq_zero_iff.mp (by simp only at hleaves; omega)
    have hstatements : statements = [] := List.length_eq_zero_iff.mp (by simp only at hleaves; omega)
    rw [hlocals, hstatements]
    exact ⟨rfl, rfl⟩
  · simp [hhead] at hbar
  · simp [hhead] at hdot
  · rw [hhead] at hstart
    cases hstart

end Leaves

end Grammar

end Smalltalk
