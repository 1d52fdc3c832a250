import Mathlib
import Smalltalk.Proofs.ReadSteps

/-!
# What is read is in the grammar

A reader that succeeds has gone over a phrase: the tokens before and after it, and the bare tree of
its result, are related by the grammar. As in the proof that trees are well-formed, all that is known
of the reader for nested expressions is that it does so too.
-/

namespace Smalltalk

open Grammar

namespace ReadM

variable {c c' : Cursor}

/-! ## Names and dots -/

theorem name_of_isName {x : Ident} (h : c.current.IsName x) : Name c.tokens x.bare c.next.tokens := by
  rw [Cursor.tokens_of_kind h.1 (by simp)]
  exact .mk h.1

theorem blockArgument_of_isParameter {x : Ident} (h : c.current.IsParameter x) :
    BlockArgument c.tokens x.bare c.next.tokens := by
  rw [Cursor.tokens_of_kind h.1 (by simp)]
  exact .mk h.1

theorem EachTaken.many {P : Token → Ident → Prop} {Q : List Token → Ident → List Token → Prop} {xs : List Ident}
    (hP : ∀ (c : Cursor) x, P c.current x → Q c.tokens x.bare c.next.tokens) (h : EachTaken P c xs c') :
    Many Q c.tokens (xs.map Ident.bare) c'.tokens := by
  induction h with
  | nil => exact .nil
  | cons head _ ih => exact .cons (hP _ _ head) ih

theorem VariablesRead.phrase {n : Nat} {xs : List Ident} (h : VariablesRead n c xs c') :
    Variables c.tokens (xs.map Ident.bare) c'.tokens := by
  cases h with
  | none => exact .none
  | some opening names closing =>
    obtain ⟨hopening, htokens⟩ := Cursor.tokens_of_isAt opening
    obtain ⟨hclosing, hrest⟩ := Cursor.tokens_of_isAt closing
    have hnames := names.many fun _ _ => name_of_isName
    rw [hrest] at hnames
    rw [htokens]
    exact .some hopening hnames hclosing

/-- Dots may stand in front of separated items. -/
theorem DotsPassed.separated {α : Type} {P : List Token → α → List Token → Prop} {as : List α}
    {n : Nat} {rest : List Token} (h : DotsPassed n c c') (hitems : Separated P c'.tokens as rest) :
    Separated P c.tokens as rest := by
  induction h with
  | stop => exact hitems
  | dot dot _ ih =>
    obtain ⟨hdot, htokens⟩ := Cursor.tokens_of_isAt dot
    rw [htokens]
    exact .dot hdot (ih hitems)

/-! ## Literals and messages -/

section Nested

variable {n : Nat} {inner : ReadM Expr} {e : Expr}

theorem StandsFor.literal {value : Atom} (h : StandsFor c.current.kind value) :
    Literal c.tokens value c.next.tokens := by
  generalize hkind : c.current.kind = kind at h
  have htokens : kind ≠ .endOfInput → c.tokens = c.current :: c.next.tokens := Cursor.tokens_of_kind hkind
  cases h with rw [htokens (by simp)]
  | integer word => exact .integer hkind word
  | character narrow => exact .character hkind narrow
  | float => exact .float hkind
  | string => exact .string hkind
  | nilObject => exact .nilObject hkind
  | trueObject => exact .trueObject hkind
  | falseObject => exact .falseObject hkind
  | receiver => exact .receiver hkind

theorem StandsForNegative.literal {value : Atom} (hminus : c.current.kind = .operator "-")
    (h : StandsForNegative c.next.current.kind value) : Literal c.tokens value c.next.next.tokens := by
  rw [Cursor.tokens_of_kind hminus (by simp)]
  generalize hkind : c.next.current.kind = kind at h
  have htokens : kind ≠ .endOfInput → c.next.tokens = c.next.current :: c.next.next.tokens :=
    Cursor.tokens_of_kind hkind
  cases h with rw [htokens (by simp)]
  | integer word => exact .negativeInteger hminus hkind word
  | float => exact .negativeFloat hminus hkind

theorem bare_message_expr (receiver : Expr) (info : NodeInfo) (selector : Selector) (arguments : List Expr) :
    ((Operand.expr receiver).message info selector arguments).bare
      = .send .none receiver.bare selector.bare (arguments.map Expr.bare) := by
  rw [Operand.message, Expr.bare, Expr.bareAll_eq_map]

theorem bare_message_super (span : Span) (info : NodeInfo) (selector : Selector) (arguments : List Expr) :
    ((Operand.superWord span).message info selector arguments).bare
      = .superSend .none selector.ident.bare (arguments.map Expr.bare) := by
  rw [Operand.message, Expr.bare, Expr.bareAll_eq_map]

/-- An operand is a phrase of its level, or `super` without a message. -/
def IsOperand (P : List Token → Expr → List Token → Prop) (ts : List Token) (operand : Operand)
    (rest : List Token) : Prop :=
  match operand with
  | .expr e => P ts e.bare rest
  | .superWord _ => ∃ t, t.kind = .reserved .superWord ∧ ts = t :: rest

/-- Unary messages have been sent one to the other, from left to right. -/
theorem UnaryMessagesRead.many {k : Nat} {result : Operand} (h : UnaryMessagesRead k c (.expr e) result c') :
    ∃ e' words, result = .expr e' ∧ Many Name c.tokens words c'.tokens ∧
      e'.bare = words.foldl sendUnary e.bare := by
  generalize hoperand : Operand.expr e = operand at h
  induction h generalizing e with
  | stop => exact ⟨e, [], hoperand.symm, .nil, rfl⟩
  | @message _ c _ _ _ x word _ ih =>
    subst hoperand
    obtain ⟨e', words, rfl, hwords, he'⟩ := ih rfl
    refine ⟨e', ⟨x, {}⟩ :: words, rfl, .cons ?_ hwords, ?_⟩
    · rw [Cursor.tokens_of_kind word (by simp)]
      exact .mk word
    · rw [he', bare_message_expr]
      rfl

theorem isOperator_of_isBinaryOperator {t : Token} (h : isBinaryOperator t.kind = true) :
    IsOperator t := by
  unfold isBinaryOperator at h
  split at h
  · next op hkind => exact .inl ⟨op, hkind⟩
  · next hkind => exact .inr hkind
  · cases h

/-! ## Statements and bodies -/

/-- A step that goes over an expression. -/
def ReadsExpression (m : ReadM Expr) : Prop :=
  ∀ c e c', m c = .ok e c' → Expression c.tokens e.bare c'.tokens

variable (hinner : ReadsExpression inner)

include hinner

/-- What has been read as a statement is a statement. -/
theorem StatementRead.phrase (h : StatementRead inner c e c') :
    Statement c.tokens e.bare c'.tokens := by
  cases h with
  | ret caret value =>
    obtain ⟨hcaret, htokens⟩ := Cursor.tokens_of_isAt caret
    have hvalue := hinner _ _ _ value
    rw [htokens]
    exact .ret hcaret hvalue
  | assign target mark value =>
    have hmark : c.next.current.kind = .punctuation .assign := by
      rw [Cursor.current_next (by simp [target]) (by simp [target, mark]), mark]
    have hvalue := hinner _ _ _ value
    rw [Cursor.tokens_of_kind target (by simp), Cursor.tokens_of_kind hmark (by simp)]
    exact .assign target hmark hvalue
  | expression value => exact .expression (hinner _ _ _ value)

theorem StatementsRead.separated {close : BodyEnd} {k : Nat} {es : List Expr}
    (h : StatementsRead n inner close k c es c') : Separated Statement c.tokens (es.map Expr.bare) c'.tokens := by
  induction h with
  | out => exact .none
  | finish dots => exact dots.separated .none
  | last dots head => exact dots.separated (.last (head.phrase hinner))
  | cons dots head _ dot _ ih =>
    refine dots.separated ?_
    have hitem := head.phrase hinner
    obtain ⟨hdot, htokens⟩ := Cursor.tokens_of_isAt dot
    rw [htokens] at hitem ih
    rcases ih.of_dot (not_statement_of_dot hdot) with ⟨hnil, hrest⟩ | htail
    · rw [List.map_cons, hnil, hrest]
      exact .last hitem
    · exact .item hitem hdot htail

/-- What has been read as a body is a body. -/
theorem BodyRead.phrase {close : BodyEnd} {b : Body}
    (h : BodyRead n inner close c b c') : BodyPhrase c.tokens b.bare c'.tokens := by
  cases h with
  | mk locals statements => exact .mk locals.phrase (statements.separated hinner)

/-! ## Primary expressions -/

/-- What has been read as a block is one of the three forms of blocks. -/
theorem BlockRead.phrase (hopening : c.isAt .leftBracket = true)
    (h : BlockRead n inner c e c') : Primary c.tokens e.bare c'.tokens := by
  cases h with
  | @mk xs b c₁ c₂ c₃ params bar body closing =>
    obtain ⟨hopening, htokens⟩ := Cursor.tokens_of_isAt hopening
    obtain ⟨hclosing, hrest⟩ := Cursor.tokens_of_isAt closing
    have hparams := params.taken.many fun _ _ => blockArgument_of_isParameter
    have hbody := body.phrase hinner
    rw [hrest] at hbody
    rw [htokens, Expr.bare, Expr.bareAll_eq_map]
    cases bar with
    | none =>
      rw [hparams.rest_eq] at hbody
      exact .block (b := b.bare) hopening hbody hclosing
    | closed hclosed =>
      obtain ⟨hempty, hsame⟩ := hbody.eq_empty (of_decide_eq_true hclosed)
      obtain ⟨hlocals, hstatements⟩ := Body.mk.inj hempty
      rw [← hsame] at hparams
      rw [hlocals, hstatements]
      exact .blockOfParameters hopening hparams hclosing
    | bar bar =>
      obtain ⟨hbar, hbarTokens⟩ := Cursor.tokens_of_isAt bar
      rw [hbarTokens] at hparams
      exact .blockWithParameters (b := b.bare) hopening hparams hbar hbody hclosing

theorem ElementsRead.separated {k : Nat} {es : List Expr}
    (h : ElementsRead n inner k c es c') : Separated Expression c.tokens (es.map Expr.bare) c'.tokens := by
  induction h with
  | finish dots => exact dots.separated .none
  | cons dots head _ follows _ ih =>
    refine dots.separated ?_
    have hitem := hinner _ _ _ head
    rw [List.map_cons]
    rcases follows with hdot | hbrace
    · obtain ⟨hdot, htokens⟩ := Cursor.tokens_of_isAt hdot
      rw [htokens] at hitem ih
      rcases ih.of_dot (not_expression_of_dot hdot) with ⟨hnil, hrest⟩ | htail
      · rw [hnil, hrest]
        exact .last hitem
      · exact .item hitem hdot htail
    · -- no element starts with the brace, so the loop has ended before it
      have hkind := of_decide_eq_true hbrace
      rcases ih.headKind_cases with ⟨hnil, hrest⟩ | hdot | ⟨_, _, hexpression⟩
      · rw [hnil, hrest]
        exact .last hitem
      · exact absurd (hdot.symm.trans hkind) (by simp)
      · have hstart := hexpression.startsExpression.symm.trans (congrArg startsExpression hkind)
        cases hstart

theorem ArrayRead.phrase (hopening : c.isAt .leftBrace = true)
    (h : ArrayRead n inner c e c') : Primary c.tokens e.bare c'.tokens := by
  cases h with
  | mk items =>
    obtain ⟨hopening, htokens⟩ := Cursor.tokens_of_isAt hopening
    obtain ⟨hclosing, hrest⟩ := Cursor.tokens_of_isAt items.isAt
    have hitems := items.separated hinner
    rw [hrest] at hitems
    rw [htokens, Expr.bare, Expr.bareAll_eq_map]
    exact .array hopening hitems hclosing

/-- What has been read as a primary expression is one. -/
theorem PrimaryRead.phrase (h : PrimaryRead n inner c e c') :
    Primary c.tokens e.bare c'.tokens := by
  cases h with
  | literal token => exact .literal token.literal
  | negative minus number => exact .literal (number.literal minus)
  | name token =>
    rw [Cursor.tokens_of_kind token (by simp)]
    exact .name token
  | parentheses opening nested closing =>
    obtain ⟨hopening, htokens⟩ := Cursor.tokens_of_isAt opening
    obtain ⟨hclosing, hrest⟩ := Cursor.tokens_of_isAt closing
    have hnested := hinner _ _ _ nested
    rw [hrest] at hnested
    rw [htokens]
    exact .parentheses hopening hnested hclosing
  | block opening block => exact block.phrase hinner opening
  | array opening array => exact array.phrase hinner opening

/-! ## Messages -/

theorem UnaryOperandRead.isOperand {operand : Operand}
    (h : UnaryOperandRead n inner c operand c') : IsOperand Unary c.tokens operand c'.tokens := by
  cases h with
  | super word messages =>
    have htokens := Cursor.tokens_of_kind word (by simp)
    cases messages with
    | stop => exact ⟨c.current, word, htokens⟩
    | message first rest =>
      obtain ⟨e', words, rfl, hwords, he'⟩ := rest.many
      simp only [IsOperand, htokens, he', bare_message_super]
      refine .super word (.cons ?_ hwords)
      rw [Cursor.tokens_of_kind first (by simp)]
      exact .mk first
  | primary head messages =>
    obtain ⟨e', words, rfl, hwords, he'⟩ := messages.many
    simp only [IsOperand, he']
    exact .plain (head.phrase hinner) hwords

/-- An operator and its argument. -/
theorem UnaryOperandRead.binaryArgument (hoperator : isBinaryOperator c.current.kind = true)
    (h : UnaryOperandRead n inner c.next (.expr e) c') :
    BinaryArgument c.tokens (⟨c.current.lexeme, {}⟩, e.bare) c'.tokens := by
  have hne : c.current.kind ≠ .endOfInput := by
    intro hfinish
    rw [hfinish] at hoperator
    cases hoperator
  rw [Cursor.tokens_eq_cons hne]
  exact .mk (isOperator_of_isBinaryOperator hoperator) (h.isOperand hinner)

theorem BinaryMessagesRead.many {k : Nat} {result : Operand}
    (h : BinaryMessagesRead n inner k c (.expr e) result c') :
    ∃ e' parts, result = .expr e' ∧ Many BinaryArgument c.tokens parts c'.tokens ∧
      e'.bare = parts.foldl sendBinary e.bare := by
  generalize hoperand : Operand.expr e = operand at h
  induction h generalizing e with
  | stop => exact ⟨e, [], hoperand.symm, .nil, rfl⟩
  | message operator argument _ ih =>
    subst hoperand
    obtain ⟨e', parts, rfl, hparts, he'⟩ := ih rfl
    refine ⟨e', _ :: parts, rfl, .cons (argument.binaryArgument hinner operator) hparts, ?_⟩
    rw [he', bare_message_expr]
    rfl

theorem BinaryOperandRead.isOperand {operand : Operand}
    (h : BinaryOperandRead n inner c operand c') : IsOperand Binary c.tokens operand c'.tokens := by
  cases h with
  | @mk operand₁ _ _ _ head messages =>
    have hhead := head.isOperand hinner
    cases operand₁ with
    | expr e =>
      obtain ⟨e', parts, rfl, hparts, he'⟩ := messages.many hinner
      simp only [IsOperand, he']
      exact .plain hhead hparts
    | superWord span =>
      obtain ⟨t, hword, htokens⟩ := hhead
      cases messages with
      | stop => exact ⟨t, hword, htokens⟩
      | message operator argument rest =>
        obtain ⟨e', parts, rfl, hparts, he'⟩ := rest.many hinner
        simp only [IsOperand, htokens, he', bare_message_super]
        exact .super hword (argument.binaryArgument hinner operator) hparts

theorem KeywordPartsRead.many {k : Nat} {parts : List (KeywordPart × Expr)}
    (h : KeywordPartsRead n inner k c parts c') :
    Many KeywordArgument c.tokens (parts.map fun p => (p.1.keyword.bare, p.2.bare)) c'.tokens := by
  induction h with
  | nil => exact .nil
  | cons keyword argument _ ih =>
    refine .cons ?_ ih
    rw [Cursor.tokens_of_kind keyword (by simp)]
    exact .mk keyword (argument.isOperand hinner)

/-- What has been read as an expression is one, if this is so of what is nested in it. -/
theorem ExpressionRead.phrase (h : ExpressionRead n inner c e c') :
    Expression c.tokens e.bare c'.tokens := by
  cases h with
  | plain head => exact .plain (head.isOperand hinner)
  | @keywords operand parts last c₁ c₂ head messages isLast =>
    have hmany := messages.many hinner
    have hhead := head.isOperand hinner
    cases parts with
    | nil => cases isLast
    | cons part parts =>
      have hwords : ((part :: parts).map (·.1)).map (·.keyword.bare)
          = ((part :: parts).map fun p => (p.1.keyword.bare, p.2.bare)).map (·.1) := by
        simp [Function.comp_def]
      cases operand with
      | expr receiver =>
        rw [bare_message_expr, bare_keyword hwords]
        simpa [Function.comp_def] using Expression.keywords hhead hmany
      | superWord span =>
        obtain ⟨t, hword, htokens⟩ := hhead
        rw [bare_message_super, bare_keyword_ident hwords, htokens]
        simpa [Function.comp_def] using Expression.superKeywords hword hmany

end Nested

/-- Whatever is read as an expression is one, at any level of nesting. -/
theorem readsExpression_expressionAt (n depth : Nat) : ReadsExpression (expressionAt n depth) := by
  induction depth with
  | zero => exact fun c e c' h => absurd h unexpected_ne_ok
  | succ depth ih => exact fun c e c' h => (expressionWith_eq_ok_iff.mp h).phrase ih

end ReadM

end Smalltalk
