import Mathlib
import Smalltalk.Proofs.Derivation

/-!
# What is in the grammar is read

On the tokens of a phrase a reader succeeds, stops right after the phrase and returns the tree that
the phrase stands for, provided that the next token cannot go on with the phrase. Readers are greedy,
so this proviso is what makes them stop; in the grammar, the next token of every phrase is one that
cannot go on with it.

A reader need only be good for phrases up to some number of tokens. Nested expressions have fewer
tokens than what they are nested in, so that induction on this number gives the statement for all.

No reader is opened here. That it succeeds is shown by a case of its relation.
-/

namespace Smalltalk

open Grammar Number

namespace Cursor

variable {c : Cursor} {t : Token} {ts : List Token}

theorem current_of_tokens (h : c.tokens = t :: ts) : c.current = t := by
  rw [current, h]
  rfl

/-- What a cursor sees of the tokens before it, and what is left after the first of them. -/
theorem of_tokens_cons {kind : TokenKind} (h : c.tokens = t :: ts) (ht : t.kind = kind)
    (hne : kind ≠ .endOfInput) : c.current.kind = kind ∧ c.next.tokens = ts := by
  have hkind : c.current.kind = kind := by rw [current_of_tokens h, ht]
  have htokens := tokens_of_kind hkind hne
  rw [h] at htokens
  exact ⟨hkind, (List.cons.inj htokens).2.symm⟩

theorem of_tokens_mark {mark : Punctuation} (h : c.tokens = t :: ts) (ht : t.kind = .punctuation mark) :
    c.isAt mark = true ∧ c.next.tokens = ts := by
  obtain ⟨hkind, hnext⟩ := of_tokens_cons h ht (by simp)
  exact ⟨decide_eq_true hkind, hnext⟩

/-- A mark does not stand at the cursor if the tokens start with something else. -/
theorem isAt_eq_false {mark : Punctuation} (h : c.tokens = ts) (hts : headKind ts ≠ .punctuation mark) :
    c.isAt mark = false := by
  subst h
  exact decide_eq_false hts

end Cursor

namespace ReadM

variable {α β : Type}

/-- From any cursor before `ts`, a reader succeeds and leaves `rest`, where `R` says when it succeeds;
`view` of its result is `b`. -/
def Takes (R : Cursor → α → Cursor → Prop) (view : α → β) (ts : List Token) (b : β)
    (rest : List Token) : Prop :=
  ∀ c, c.tokens = ts → ∃ a c', R c a c' ∧ c'.tokens = rest ∧ view a = b

/-! ## Names and dots -/

section Names

variable {ts us rest : List Token} {n : Nat}

theorem takes_name {x : Ident} (h : Name ts x rest) {c : Cursor} (hc : c.tokens = ts) :
    ∃ y, c.current.IsName y ∧ y.bare = x ∧ c.next.tokens = rest := by
  cases h with
  | @mk t _ x token =>
    obtain ⟨hkind, hnext⟩ := Cursor.of_tokens_cons hc token (by simp)
    exact ⟨⟨x, c.current.span⟩, ⟨hkind, rfl⟩, rfl, hnext⟩

theorem takes_blockArgument {x : Ident} (h : BlockArgument ts x rest) {c : Cursor} (hc : c.tokens = ts) :
    ∃ y, c.current.IsParameter y ∧ y.bare = x ∧ c.next.tokens = rest := by
  cases h with
  | @mk t _ x token =>
    obtain ⟨hkind, hnext⟩ := Cursor.of_tokens_cons hc token (by simp)
    exact ⟨⟨x, c.current.span⟩, ⟨hkind, rfl⟩, rfl, hnext⟩

theorem takes_each {P : Token → Ident → Prop} {Q : List Token → Ident → List Token → Prop}
    (hQ : ∀ {ts x rest}, Q ts x rest → ∀ {c : Cursor}, c.tokens = ts →
      ∃ y, P c.current y ∧ y.bare = x ∧ c.next.tokens = rest)
    {xs : List Ident} (h : Many Q ts xs rest) : Takes (EachTaken P) (List.map Ident.bare) ts xs rest := by
  induction h with
  | nil => exact fun c hc => ⟨[], c, .nil, hc, rfl⟩
  | cons head _ ih =>
    intro c hc
    obtain ⟨y, hy, rfl, hnext⟩ := hQ head hc
    obtain ⟨ys, c', hys, hc', rfl⟩ := ih c.next hnext
    exact ⟨y :: ys, c', .cons hy hys, hc', rfl⟩

/-- Variables are taken; where there are none, no bar may follow. -/
theorem takes_variables {xs : List Ident} (h : Variables ts xs rest)
    (hnone : rest = ts → headKind ts ≠ .punctuation .bar) (hn : ts.length ≤ n) :
    Takes (VariablesRead n) (List.map Ident.bare) ts xs rest := by
  intro c hc
  cases h with
  | none => exact ⟨[], c, .none (Cursor.isAt_eq_false hc (hnone rfl)), hc, rfl⟩
  | some opening names closing =>
    have hlength := (names.leaves (fun _ _ _ _ => Name.leaves) le_rfl).length_add_le
    simp only [List.length_cons] at hlength hn
    obtain ⟨hopening, hnext⟩ := Cursor.of_tokens_mark hc opening
    obtain ⟨ys, c₁, hys, hc₁, rfl⟩ := takes_each takes_name names c.next hnext
    obtain ⟨hclosing, hrest⟩ := Cursor.of_tokens_mark hc₁ closing
    rw [List.length_map] at hlength
    exact ⟨ys, c₁.next, .some hopening hys hclosing (by omega), hrest, rfl⟩

/-- Parameters are taken, all of them. -/
theorem takes_parameters {xs : List Ident} (h : Many BlockArgument ts xs rest)
    (hrest : ∀ x, headKind rest ≠ .blockArgument x) (hn : xs.length ≤ n) :
    Takes (ParametersRead n) (List.map Ident.bare) ts xs rest := by
  intro c hc
  obtain ⟨ys, c', hys, rfl, rfl⟩ := takes_each takes_blockArgument h c hc
  rw [List.length_map] at hn
  exact ⟨ys, c', ⟨hys, hn, .inr hrest⟩, rfl, rfl⟩

/-- Separated items without dots in front of them. -/
inductive Undotted (P : List Token → α → List Token → Prop) : List Token → List α → List Token → Prop
  | none {ts : List Token} : Undotted P ts [] ts
  | last {ts rest : List Token} {a : α} (item : P ts a rest) : Undotted P ts [a] rest
  | item {t : Token} {ts us rest : List Token} {a : α} {as : List α} (item : P ts a (t :: us))
    (dot : t.kind = .punctuation .dot) (tail : Separated P us as rest) : Undotted P ts (a :: as) rest

theorem dotsPassed_none (h : headKind ts ≠ .punctuation .dot) {c : Cursor} (hc : c.tokens = ts) :
    ∃ c', DotsPassed n c c' ∧ c'.tokens = ts := ⟨c, .stop (.inr (Cursor.isAt_eq_false hc h)), hc⟩

/-- All dots in front of separated items are passed over. -/
theorem undotted_of_separated {P : List Token → α → List Token → Prop} {as : List α}
    (h : Separated P ts as rest)
    (hitem : ∀ {t ts}, t.kind = .punctuation .dot → ∀ a rest, ¬ P (t :: ts) a rest)
    (hrest : headKind rest ≠ .punctuation .dot) (hn : ts.length ≤ n) :
    ∃ us, us.length ≤ ts.length ∧ Undotted P us as rest ∧
      ∀ {c : Cursor}, c.tokens = ts → ∃ c', DotsPassed n c c' ∧ c'.tokens = us := by
  have hstart : ∀ {us a vs}, P us a vs → headKind us ≠ .punctuation .dot := by
    intro us a vs hP hdot
    cases us with
    | nil => cases hdot
    | cons t us => exact hitem hdot a vs hP
  induction h generalizing n with
  | none => exact ⟨_, le_rfl, .none, dotsPassed_none hrest⟩
  | dot hdot _ ih =>
    rw [List.length_cons] at hn
    obtain ⟨n, rfl⟩ := Nat.exists_eq_succ_of_ne_zero (by omega : n ≠ 0)
    obtain ⟨us, hlength, hus, hskip⟩ := ih (n := n) hrest (by omega)
    refine ⟨us, by rw [List.length_cons]; omega, hus, fun hc => ?_⟩
    obtain ⟨hat, hnext⟩ := Cursor.of_tokens_mark hc hdot
    obtain ⟨c', hdots, hc'⟩ := hskip hnext
    exact ⟨c', .dot hat hdots, hc'⟩
  | last item => exact ⟨_, le_rfl, .last item, dotsPassed_none (hstart item)⟩
  | item item hdot tail _ => exact ⟨_, le_rfl, .item item hdot tail, dotsPassed_none (hstart item)⟩

end Names

/-! ## Literals and messages -/

section Nested

variable {m n : Nat} {inner : ReadM Expr} {ts us rest : List Token} {e : Expr}

/-- An assignment is told by its second token, so none may stand there in an expression. -/
theorem following_ne_assign (h : Expression ts e rest) (hrest : followsExpression (headKind rest) = true)
    {c : Cursor} (hc : c.tokens = ts) : c.following.kind ≠ .punctuation .assign := by
  have hsecond := h.second_ne_assign (ne_of_followsExpression hrest rfl)
  have hstart := h.startsExpression
  obtain ⟨tokens, nodes⟩ := c
  subst hc
  rcases tokens with _ | ⟨t, _ | ⟨t', ts⟩⟩
  · exact hsecond
  · exact ne_assign_of_starts hstart
  · exact hsecond

theorem takes_standsFor {t : Token} {kind : TokenKind} {value : Atom} (ht : t.kind = kind)
    (h : StandsFor kind value) :
    Takes (PrimaryRead n inner) Expr.bare (t :: rest) (.atom .none value) rest := by
  intro c hc
  have hne : kind ≠ .endOfInput := by cases h <;> exact (by simp)
  obtain ⟨hkind, hnext⟩ := Cursor.of_tokens_cons hc ht hne
  exact ⟨_, _, .literal (hkind ▸ h), hnext, by rw [Expr.bare]⟩

theorem takes_standsForNegative {minus t : Token} {kind : TokenKind} {value : Atom}
    (sign : minus.kind = .operator "-") (ht : t.kind = kind) (h : StandsForNegative kind value) :
    Takes (PrimaryRead n inner) Expr.bare (minus :: t :: rest) (.atom .none value) rest := by
  intro c hc
  have hne : kind ≠ .endOfInput := by cases h <;> exact (by simp)
  obtain ⟨hsign, hnext⟩ := Cursor.of_tokens_cons hc sign (by simp)
  obtain ⟨hkind, hrest⟩ := Cursor.of_tokens_cons hnext ht hne
  exact ⟨_, _, .negative hsign (hkind ▸ h), hrest, by rw [Expr.bare]⟩

/-- Literals are taken, with their sign if they have one. -/
theorem takes_literal {value : Atom} (h : Literal ts value rest) :
    Takes (PrimaryRead n inner) Expr.bare ts (.atom .none value) rest := by
  cases h with
  | integer token word => exact takes_standsFor token (.integer word)
  | negativeInteger sign token word => exact takes_standsForNegative sign token (.integer word)
  | float token => exact takes_standsFor token .float
  | negativeFloat sign token => exact takes_standsForNegative sign token .float
  | character token narrow => exact takes_standsFor token (.character narrow)
  | string token => exact takes_standsFor token .string
  | nilObject token => exact takes_standsFor token .nilObject
  | receiver token => exact takes_standsFor token .receiver
  | trueObject token => exact takes_standsFor token .trueObject
  | falseObject token => exact takes_standsFor token .falseObject

theorem takes_primary_of_block {t : Token} (ht : t.kind = .punctuation .leftBracket)
    (h : Takes (BlockRead n inner) Expr.bare (t :: ts) e rest) :
    Takes (PrimaryRead n inner) Expr.bare (t :: ts) e rest := by
  intro c hc
  obtain ⟨e', c', he', hc', hbare⟩ := h c hc
  exact ⟨e', c', .block (Cursor.of_tokens_mark hc ht).1 he', hc', hbare⟩

theorem unaryMessagesRead_stop {k : Nat} {c : Cursor} (h : followsUnary (headKind c.tokens) = true)
    (operand : Operand) : UnaryMessagesRead k c operand operand c :=
  .stop (.inr (ne_identifier_of_followsUnary h))

theorem takes_unaryMessages_cons {k : Nat} {operand : Operand} {x : Ident} (head : Name ts x us)
    (tail : ∀ info word, word.bare = x → Takes (fun c e' c' => UnaryMessagesRead k c
      (.expr (operand.message info (.unary word) [])) (.expr e') c') Expr.bare us e rest) :
    Takes (fun c e' c' => UnaryMessagesRead (k + 1) c operand (.expr e') c') Expr.bare ts e rest := by
  intro c hc
  cases head with
  | mk token =>
    obtain ⟨hword, hnext⟩ := Cursor.of_tokens_cons hc token (by simp)
    obtain ⟨e', c', he', hc', hbare⟩ := tail _ ⟨_, c.current.span⟩ rfl c.next.numbered hnext
    exact ⟨e', c', .message hword he', hc', hbare⟩

/-- Unary messages to an expression are taken, all of them. -/
theorem takes_unaryMessages {words : List Ident} {k : Nat} (h : Many Name ts words rest)
    (hrest : followsUnary (headKind rest) = true) (hk : words.length ≤ k) (e : Expr) :
    Takes (fun c e' c' => UnaryMessagesRead k c (.expr e) (.expr e') c') Expr.bare ts
      (words.foldl sendUnary e.bare) rest := by
  induction h generalizing k e with
  | nil =>
    rintro c rfl
    exact ⟨e, c, unaryMessagesRead_stop hrest _, rfl, rfl⟩
  | cons head _ ih =>
    rw [List.length_cons] at hk
    obtain ⟨k, rfl⟩ := Nat.exists_eq_succ_of_ne_zero (by omega : k ≠ 0)
    refine takes_unaryMessages_cons head fun info word hword => ?_
    have htail := ih (k := k) hrest (by omega) ((Operand.expr e).message info (.unary word) [])
    rw [bare_message_expr, Selector.bare, hword] at htail
    exact htail

/-- Of unary messages to `super`, the first is sent to `super` and the others to what it gives. -/
theorem takes_unaryMessages_super {x : Ident} {words : List Ident} {k : Nat}
    (h : Many Name ts (x :: words) rest) (hrest : followsUnary (headKind rest) = true)
    (hk : words.length ≤ k) (span : Span) :
    Takes (fun c e' c' => UnaryMessagesRead (k + 1) c (.superWord span) (.expr e') c') Expr.bare ts
      (words.foldl sendUnary (.superSend .none x [])) rest := by
  cases h with
  | cons head tail =>
    refine takes_unaryMessages_cons head fun info word hword => ?_
    have htail := takes_unaryMessages tail hrest hk ((Operand.superWord span).message info (.unary word) [])
    rw [bare_message_super, show (Selector.unary word).ident.bare = x from hword] at htail
    exact htail

theorem unaryOperandRead_super {t : Token} (h : t.kind = .reserved .superWord)
    (hrest : followsUnary (headKind ts) = true) {c : Cursor} (hc : c.tokens = t :: ts) :
    UnaryOperandRead n inner c (.superWord c.current.span) c.next ∧ c.next.tokens = ts := by
  obtain ⟨hword, hnext⟩ := Cursor.of_tokens_cons hc h (by simp)
  rw [← hnext] at hrest
  exact ⟨.super hword (unaryMessagesRead_stop hrest _), hnext⟩

theorem isBinaryOperator_of_isOperator {t : Token} (h : IsOperator t) : isBinaryOperator t.kind = true := by
  rcases h with ⟨op, hop⟩ | hbar
  · rw [hop]
    rfl
  · rw [hbar]
    rfl

theorem isBinaryOperator_of_followsBinary {kind : TokenKind} (h : followsBinary kind = true) :
    isBinaryOperator kind = false := by
  unfold isBinaryOperator
  split
  · cases h
  · cases h
  · rfl

theorem binaryMessagesRead_stop {k : Nat} {c : Cursor} (h : followsBinary (headKind c.tokens) = true)
    (operand : Operand) : BinaryMessagesRead n inner k c operand operand c :=
  .stop (.inr (isBinaryOperator_of_followsBinary h))

theorem keywordPartsRead_nil {k : Nat} {c : Cursor} (h : followsExpression (headKind c.tokens) = true) :
    KeywordPartsRead n inner k c [] c :=
  .nil (.inr fun _ => ne_of_followsExpression h rfl)

/-! ## Statements and bodies -/

/-- A step that takes expressions of at most `m` tokens. -/
def TakesExpressions (inner : ReadM Expr) (m : Nat) : Prop :=
  ∀ ts e rest, ts.length ≤ m → Expression ts e rest → followsExpression (headKind rest) = true →
    Takes (fun c e c' => inner c = .ok e c') Expr.bare ts e rest

theorem followsExpression_of_mark {mark : Punctuation} {t : Token} {ts : List Token}
    (ht : t.kind = .punctuation mark) (hmark : followsExpression (.punctuation mark) = true) :
    followsExpression (headKind (t :: ts)) = true := by
  rw [headKind_cons, ht, hmark]

theorem followsExpression_close (close : BodyEnd) : followsExpression close.kind = true := by
  cases close <;> rfl

variable (hinner : TakesExpressions inner m)

include hinner

/-- Statements are taken: returns, assignments and expressions. -/
theorem takes_statement (h : Statement ts e rest)
    (hm : ts.length ≤ m) (hrest : followsExpression (headKind rest) = true) :
    Takes (StatementRead inner) Expr.bare ts e rest := by
  intro c hc
  cases h with
  | assign target mark value =>
    simp only [List.length_cons] at hm
    have hfollowing : c.following.kind = .punctuation .assign := by
      rw [Cursor.following, hc]
      exact mark
    obtain ⟨htarget, hmark⟩ := Cursor.of_tokens_cons hc target (by simp)
    obtain ⟨-, hvalue⟩ := Cursor.of_tokens_mark hmark mark
    obtain ⟨e', c₁, he', hc₁, rfl⟩ := hinner _ _ _ (by omega) value hrest c.next.next.numbered hvalue
    exact ⟨_, _, .assign htarget hfollowing he', hc₁, by rw [Expr.bare, Expr.bare]⟩
  | ret mark value =>
    rw [List.length_cons] at hm
    obtain ⟨hmark, hvalue⟩ := Cursor.of_tokens_mark hc mark
    obtain ⟨e', c₁, he', hc₁, rfl⟩ := hinner _ _ _ (by omega) value hrest c.next hvalue
    exact ⟨_, _, .ret hmark he', hc₁, by rw [Expr.bare]⟩
  | expression value =>
    have hcaret : headKind ts ≠ .punctuation .caret := by
      intro hcaret
      have hstart := value.startsExpression
      rw [hcaret] at hstart
      cases hstart
    obtain ⟨e', c', he', hc', rfl⟩ := hinner _ _ _ hm value hrest c hc
    have hassign := following_ne_assign value hrest hc
    exact ⟨e', c', .expression he' (Cursor.isAt_eq_false hc hcaret) hassign, hc', rfl⟩

/-- Statements up to the end of a body are taken, dots and all. -/
theorem takes_statements {close : BodyEnd} {k : Nat}
    {es : List Expr} (h : Separated Statement ts es rest) (hrest : headKind rest = close.kind)
    (hm : ts.length ≤ m) (hn : ts.length ≤ n) (hk : ts.length ≤ k) :
    Takes (StatementsRead n inner close k) (List.map Expr.bare) ts es rest := by
  have hfollows : followsExpression (headKind rest) = true := hrest ▸ followsExpression_close close
  have hnotDot : headKind rest ≠ .punctuation .dot := by
    rw [hrest]
    cases close <;> simp [BodyEnd.kind]
  induction k generalizing ts es with
  | zero =>
    have hleaves := h.leaves (fun _ _ _ _ => Statement.leaves) le_rfl
    obtain rfl : ts = [] := List.length_eq_zero_iff.mp (by omega)
    obtain rfl : rest = [] := List.length_eq_zero_iff.mp (by simpa using hleaves.length_le)
    obtain rfl : es = [] := List.length_eq_zero_iff.mp (by simpa using hleaves.length_add_le)
    exact fun c hc => ⟨[], c, .out, hc, rfl⟩
  | succ k ih =>
    -- `us` is the text after the leading dots; it starts with a statement or ends the body
    obtain ⟨us, hlength, hus, hskip⟩ := undotted_of_separated h not_statement_of_dot hnotDot hn
    intro c hc
    obtain ⟨c₁, hdots, hc₁⟩ := hskip hc
    have hopen : ∀ {e vs}, Statement us e vs → c₁.isAtEnd close = false := by
      intro e vs hstatement
      subst hc₁
      refine decide_eq_false fun hend => ?_
      have hstart := hstatement.startsStatement
      rw [show headKind c₁.tokens = close.kind from hend] at hstart
      cases close <;> cases hstart
    cases hus with
    | none =>
      subst hc₁
      exact ⟨[], c₁, .finish hdots (decide_eq_true hrest), rfl, rfl⟩
    | last item =>
      obtain ⟨e', c', he', hc', rfl⟩ := takes_statement hinner item (by omega) hfollows c₁ hc₁
      exact ⟨[e'], c', .last hdots he' (hopen item) (Cursor.isAt_eq_false hc' hnotDot), hc', rfl⟩
    | item item dot tail =>
      have hleaves := item.leaves.length_add_le
      obtain ⟨e', c₂, he', hc₂, rfl⟩ :=
        takes_statement hinner item (by omega) (followsExpression_of_mark dot rfl) c₁ hc₁
      obtain ⟨es', c', hes', hc', rfl⟩ := ih (.dot dot tail) (by omega) (by omega) (by omega) c₂ hc₂
      exact ⟨e' :: es', c', .cons hdots he' (hopen item) (Cursor.of_tokens_mark hc₂ dot).1 hes', hc', rfl⟩

/-- Bodies are taken. -/
theorem takes_body {close : BodyEnd} {b : Body}
    (h : BodyPhrase ts b rest) (hrest : headKind rest = close.kind) (hm : ts.length ≤ m)
    (hn : ts.length ≤ n) : Takes (BodyRead n inner close) Body.bare ts b rest := by
  cases h with
  | @mk _ us _ _ _ locals statements =>
    have hbar : us = ts → headKind ts ≠ .punctuation .bar := by
      rintro rfl
      rcases statements.headKind_cases with ⟨-, rfl⟩ | hdot | ⟨_, _, item⟩
      · rw [hrest]
        cases close <;> simp [BodyEnd.kind]
      · simp [hdot]
      · intro hbar
        have hstart := item.startsStatement
        rw [hbar] at hstart
        cases hstart
    have hlength := locals.leaves.length_le
    intro c hc
    obtain ⟨xs, c₁, hxs, hc₁, rfl⟩ := takes_variables locals hbar hn c hc
    obtain ⟨es, c', hes, rfl, rfl⟩ :=
      takes_statements hinner statements hrest (by omega) (by omega) (n := n) (k := n) (by omega) c₁ hc₁
    exact ⟨⟨xs, es⟩, c', .mk hxs hes (decide_eq_true hrest), rfl, rfl⟩

/-! ## Primary expressions -/

/-- A block is taken if its parameters are; `hbar` says what follows them. -/
theorem takes_block {t t' : Token} {vs : List Token} {xs : List Ident}
    {b : Body} (opening : t.kind = .punctuation .leftBracket) (params : Many BlockArgument ts xs us)
    (hus : ∀ x, headKind us ≠ .blockArgument x)
    (hbar : ∀ {ys : List Ident}, ys.map Ident.bare = xs → ∀ {c : Cursor}, c.tokens = us →
      ∃ c', BarPassed ys c c' ∧ c'.tokens = vs)
    (body : BodyPhrase vs b (t' :: rest)) (closing : t'.kind = .punctuation .rightBracket)
    (hvs : vs.length ≤ us.length) (hm : ts.length ≤ m) (hn : ts.length ≤ n) :
    Takes (BlockRead n inner) Expr.bare (t :: ts) (.block .none xs b.locals b.statements {}) rest := by
  intro c hc
  have hlength := (params.leaves (fun _ _ _ _ => BlockArgument.leaves) le_rfl).length_add_le
  have hend : headKind (t' :: rest) = BodyEnd.bracket.kind := closing
  obtain ⟨-, hnext⟩ := Cursor.of_tokens_mark hc opening
  obtain ⟨ys, c₁, hys, hc₁, hbare⟩ := takes_parameters params hus (n := n) (by omega) c.next hnext
  obtain ⟨c₂, hpassed, hc₂⟩ := hbar hbare hc₁
  obtain ⟨b', c₃, hb', hc₃, rfl⟩ := takes_body hinner body hend (n := n) (by omega) (by omega) c₂ hc₂
  obtain ⟨hclosing, hrest⟩ := Cursor.of_tokens_mark hc₃ closing
  refine ⟨_, _, .mk hys hpassed hb' hclosing, hrest, ?_⟩
  rw [Expr.bare, Expr.bareAll_eq_map, hbare]
  rfl

/-- The elements of an array are taken, dots and all. -/
theorem takes_elements {k : Nat} {t : Token} {es : List Expr}
    (h : Separated Expression ts es (t :: rest)) (ht : t.kind = .punctuation .rightBrace)
    (hm : ts.length ≤ m) (hn : ts.length ≤ n) (hk : ts.length ≤ k) :
    Takes (ElementsRead n inner k) (List.map Expr.bare) ts es (t :: rest) := by
  have hnotDot : headKind (t :: rest) ≠ .punctuation .dot := by simp [ht]
  induction k generalizing ts es with
  | zero =>
    have hleaves := (h.leaves (fun _ _ _ _ => Expression.leaves) le_rfl).length_add_le
    rw [List.length_cons] at hleaves
    omega
  | succ k ih =>
    obtain ⟨us, hlength, hus, hskip⟩ := undotted_of_separated h not_expression_of_dot hnotDot hn
    intro c hc
    obtain ⟨c₁, hdots, hc₁⟩ := hskip hc
    have hopen : ∀ {e vs}, Expression us e vs → c₁.isAt .rightBrace = false := by
      intro e vs hexpression
      refine Cursor.isAt_eq_false hc₁ fun hbrace => ?_
      have hstart := hexpression.startsExpression
      rw [hbrace] at hstart
      cases hstart
    cases hus with
    | none => exact ⟨[], c₁, .finish hdots (Cursor.of_tokens_mark hc₁ ht).1, hc₁, rfl⟩
    | last item =>
      have hleaves := item.leaves.length_add_le
      obtain ⟨e', c₂, he', hc₂, rfl⟩ :=
        hinner _ _ _ (by omega) item (followsExpression_of_mark ht rfl) c₁ hc₁
      obtain ⟨es', c', hes', hc', hbare⟩ := ih .none (by omega) (by omega) (by omega) c₂ hc₂
      have hfollows : c₂.isAt .rightBrace = true := (Cursor.of_tokens_mark hc₂ ht).1
      exact ⟨e' :: es', c', .cons hdots he' (hopen item) (.inr hfollows) hes', hc',
        by rw [List.map_cons, hbare]⟩
    | item item dot tail =>
      have hleaves := item.leaves.length_add_le
      obtain ⟨e', c₂, he', hc₂, rfl⟩ :=
        hinner _ _ _ (by omega) item (followsExpression_of_mark dot rfl) c₁ hc₁
      obtain ⟨es', c', hes', hc', rfl⟩ := ih (.dot dot tail) (by omega) (by omega) (by omega) c₂ hc₂
      have hfollows : c₂.isAt .dot = true := (Cursor.of_tokens_mark hc₂ dot).1
      exact ⟨e' :: es', c', .cons hdots he' (hopen item) (.inl hfollows) hes', hc', rfl⟩

/-- Primary expressions are taken, if what is nested in them is. -/
theorem takes_primary (h : Primary ts e rest)
    (hm : ts.length ≤ m + 1) (hn : ts.length ≤ n) : Takes (PrimaryRead n inner) Expr.bare ts e rest := by
  cases h with
  | literal token => exact takes_literal token
  | name token =>
    intro c hc
    obtain ⟨hkind, hnext⟩ := Cursor.of_tokens_cons hc token (by simp)
    exact ⟨_, _, .name hkind, hnext, by rw [Expr.bare]⟩
  | block opening body closing =>
    rw [List.length_cons] at hm hn
    refine takes_primary_of_block opening (takes_block hinner opening .nil (body.ne_blockArgument closing) ?_
      body closing le_rfl (by omega) (by omega))
    intro ys hys c hc
    obtain rfl := List.map_eq_nil_iff.mp hys
    exact ⟨c, .none, hc⟩
  | blockWithParameters opening params separator body closing =>
    rw [List.length_cons] at hm hn
    refine takes_primary_of_block opening (takes_block hinner opening params (by simp [separator]) ?_
      body closing (by simp) (by omega) (by omega))
    intro ys hys c hc
    obtain ⟨hbar, hnext⟩ := Cursor.of_tokens_mark hc separator
    cases ys with
    | nil => simp at hys
    | cons y ys => exact ⟨c.next, .bar hbar, hnext⟩
  | blockOfParameters opening params closing =>
    rw [List.length_cons] at hm hn
    refine takes_primary_of_block opening (takes_block hinner opening params (by simp [closing]) ?_
      (.mk .none .none) closing le_rfl (by omega) (by omega))
    intro ys hys c hc
    cases ys with
    | nil => simp at hys
    | cons y ys => exact ⟨c, .closed (Cursor.of_tokens_mark hc closing).1, hc⟩
  | parentheses opening value closing =>
    rw [List.length_cons] at hm hn
    intro c hc
    obtain ⟨hopening, hnext⟩ := Cursor.of_tokens_mark hc opening
    obtain ⟨e', c₁, he', hc₁, rfl⟩ :=
      hinner _ _ _ (by omega) value (followsExpression_of_mark closing rfl) c.next hnext
    obtain ⟨hclosing, hrest⟩ := Cursor.of_tokens_mark hc₁ closing
    exact ⟨e', _, .parentheses hopening he' hclosing, hrest, rfl⟩
  | array opening elements closing =>
    rw [List.length_cons] at hm hn
    intro c hc
    obtain ⟨hopening, hnext⟩ := Cursor.of_tokens_mark hc opening
    obtain ⟨items, c₁, hitems, hc₁, rfl⟩ :=
      takes_elements hinner elements closing (n := n) (k := n) (by omega) (by omega) (by omega) c.next hnext
    obtain ⟨-, hrest⟩ := Cursor.of_tokens_mark hc₁ closing
    exact ⟨_, _, .array hopening (.mk hitems), hrest, by rw [Expr.bare, Expr.bareAll_eq_map]⟩

/-! ## Messages -/

/-- Expressions with unary messages are taken. -/
theorem takes_unaryOperand (h : Unary ts e rest)
    (hrest : followsUnary (headKind rest) = true) (hm : ts.length ≤ m + 1) (hn : ts.length ≤ n) :
    Takes (fun c e c' => UnaryOperandRead n inner c (.expr e) c') Expr.bare ts e rest := by
  intro c hc
  cases h with
  | plain operand messages =>
    have hwords := (messages.leaves (fun _ _ _ _ => Name.leaves) le_rfl).length_add_le
    have hlength := operand.leaves.length_le
    obtain ⟨e', c₁, he', hc₁, rfl⟩ := takes_primary hinner operand hm hn c hc
    obtain ⟨e'', c', he'', hc', hbare⟩ := takes_unaryMessages messages hrest (k := n) (by omega) e' c₁ hc₁
    subst hc
    exact ⟨e'', c', .primary he' he'' operand.ne_super, hc', hbare⟩
  | super word messages =>
    have hwords := (messages.leaves (fun _ _ _ _ => Name.leaves) le_rfl).length_add_le
    rw [List.length_cons] at hn hwords
    obtain ⟨n, rfl⟩ := Nat.exists_eq_succ_of_ne_zero (by omega : n ≠ 0)
    obtain ⟨hword, hnext⟩ := Cursor.of_tokens_cons hc word (by simp)
    obtain ⟨e', c', he', hc', hbare⟩ :=
      takes_unaryMessages_super messages hrest (k := n) (by omega) c.current.span c.next hnext
    exact ⟨e', c', .super hword he', hc', hbare⟩

theorem takes_binaryMessages_cons {k : Nat} {operand : Operand}
    {part : BinaryPart} (head : BinaryArgument ts part us) (hus : followsUnary (headKind us) = true)
    (hm : ts.length ≤ m + 1) (hn : ts.length ≤ n)
    (tail : ∀ info operator argument, operator.bare = part.1 → argument.bare = part.2 →
      Takes (fun c e' c' => BinaryMessagesRead n inner k c
        (.expr (operand.message info (.binary operator) [argument])) (.expr e') c') Expr.bare us e rest) :
    Takes (fun c e' c' => BinaryMessagesRead n inner (k + 1) c operand (.expr e') c') Expr.bare ts e
      rest := by
  intro c hc
  cases head with
  | @mk t _ _ _ operator argument =>
    rw [List.length_cons] at hm hn
    have hoperator := isBinaryOperator_of_isOperator operator
    obtain ⟨hkind, hnext⟩ := Cursor.of_tokens_cons hc rfl operator.ne_finish
    obtain ⟨a, c₁, ha, hc₁, hbare⟩ :=
      takes_unaryOperand hinner argument hus (n := n) (by omega) (by omega) c.next hnext
    have hlexeme : Ident.bare ⟨c.current.lexeme, c.current.span⟩ = ⟨t.lexeme, {}⟩ := by
      rw [Cursor.current_of_tokens hc, Ident.bare]
    obtain ⟨e', c', he', hc', hbare'⟩ := tail _ _ a hlexeme hbare c₁.numbered hc₁
    exact ⟨e', c', .message (hkind ▸ hoperator) ha he', hc', hbare'⟩

theorem takes_binaryMessages {parts : List BinaryPart} {k : Nat}
    (h : Many BinaryArgument ts parts rest) (hrest : followsBinary (headKind rest) = true)
    (hm : ts.length ≤ m + 1) (hn : ts.length ≤ n) (hk : parts.length ≤ k) (e : Expr) :
    Takes (fun c e' c' => BinaryMessagesRead n inner k c (.expr e) (.expr e') c') Expr.bare ts
      (parts.foldl sendBinary e.bare) rest := by
  induction h generalizing k e with
  | nil =>
    rintro c rfl
    exact ⟨e, c, binaryMessagesRead_stop hrest _, rfl, rfl⟩
  | cons head tail ih =>
    rw [List.length_cons] at hk
    have hlength := head.leaves.length_le
    have hus := tail.followsUnary (followsUnary_of_followsBinary hrest)
    obtain ⟨k, rfl⟩ := Nat.exists_eq_succ_of_ne_zero (by omega : k ≠ 0)
    refine takes_binaryMessages_cons hinner head hus hm hn fun info operator argument hoperator harg => ?_
    have htail := ih (k := k) hrest (by omega) (by omega) (by omega)
      ((Operand.expr e).message info (.binary operator) [argument])
    rw [bare_message_expr, Selector.bare, hoperator, List.map_singleton, harg] at htail
    exact htail

/-- Of binary messages to `super`, the first is sent to `super` and the others to what it gives. -/
theorem takes_binaryMessages_super {part : BinaryPart}
    {parts : List BinaryPart} {k : Nat} (h : Many BinaryArgument ts (part :: parts) rest)
    (hrest : followsBinary (headKind rest) = true) (hm : ts.length ≤ m + 1) (hn : ts.length ≤ n)
    (hk : parts.length ≤ k) (span : Span) :
    Takes (fun c e' c' => BinaryMessagesRead n inner (k + 1) c (.superWord span) (.expr e') c') Expr.bare ts
      (parts.foldl sendBinary (.superSend .none part.1 [part.2])) rest := by
  cases h with
  | cons head tail =>
    have hlength := head.leaves.length_le
    have hus := tail.followsUnary (followsUnary_of_followsBinary hrest)
    refine takes_binaryMessages_cons hinner head hus hm hn fun info operator argument hoperator harg => ?_
    have htail := takes_binaryMessages (n := n) hinner tail hrest (by omega) (by omega) hk
      ((Operand.superWord span).message info (.binary operator) [argument])
    rw [bare_message_super, show (Selector.binary operator).ident.bare = part.1 from hoperator,
      List.map_singleton, harg] at htail
    exact htail

/-- Expressions with unary and binary messages are taken. -/
theorem takes_binaryOperand (h : Binary ts e rest)
    (hrest : followsBinary (headKind rest) = true) (hm : ts.length ≤ m + 1) (hn : ts.length ≤ n) :
    Takes (fun c e c' => BinaryOperandRead n inner c (.expr e) c') Expr.bare ts e rest := by
  have hparts : ∀ {us parts}, Many BinaryArgument us parts rest → rest.length + parts.length ≤ us.length :=
    fun messages => (messages.leaves (fun _ _ _ _ => BinaryArgument.leaves) le_rfl).length_add_le
  have hfollows := followsUnary_of_followsBinary hrest
  intro c hc
  cases h with
  | plain operand messages =>
    have hlength := operand.leaves.length_le
    have hmessages := hparts messages
    have hus := messages.followsUnary hfollows
    obtain ⟨e', c₁, he', hc₁, rfl⟩ := takes_unaryOperand hinner operand hus hm hn c hc
    obtain ⟨e'', c', he'', hc', hbare⟩ :=
      takes_binaryMessages hinner messages hrest (n := n) (k := n) (by omega) (by omega) (by omega) e' c₁ hc₁
    exact ⟨e'', c', .mk he' he'', hc', hbare⟩
  | super word first messages =>
    rw [List.length_cons] at hm hn
    have hall := Many.cons first messages
    have hlength := hparts hall
    rw [List.length_cons] at hlength
    obtain ⟨n, rfl⟩ := Nat.exists_eq_succ_of_ne_zero (by omega : n ≠ 0)
    obtain ⟨hhead, hnext⟩ := unaryOperandRead_super word (hall.followsUnary hfollows) hc
    obtain ⟨e', c', he', hc', hbare⟩ := takes_binaryMessages_super hinner hall hrest (n := n + 1) (k := n)
      (by omega) (by omega) (by omega) c.current.span c.next hnext
    exact ⟨e', c', .mk hhead he', hc', hbare⟩

/-! ## Expressions -/

/-- Keywords and their arguments are taken, all of them. -/
theorem takes_keywordParts {new : List (Ident × Expr)} {k : Nat}
    (h : Many KeywordArgument ts new rest) (hrest : followsExpression (headKind rest) = true)
    (hm : ts.length ≤ m + 1) (hn : ts.length ≤ n) (hk : new.length ≤ k) :
    Takes (KeywordPartsRead n inner k) (List.map fun p => (p.1.keyword.bare, p.2.bare)) ts new rest := by
  induction h generalizing k with
  | nil =>
    rintro c rfl
    exact ⟨[], c, keywordPartsRead_nil hrest, rfl, rfl⟩
  | cons head tail ih =>
    rw [List.length_cons] at hk
    obtain ⟨k, rfl⟩ := Nat.exists_eq_succ_of_ne_zero (by omega : k ≠ 0)
    have hus := tail.followsBinary (followsBinary_of_followsExpression hrest)
    cases head with
    | mk token argument =>
      have hlength := argument.leaves.length_le
      rw [List.length_cons] at hm hn
      intro c hc
      obtain ⟨hkeyword, hnext⟩ := Cursor.of_tokens_cons hc token (by simp)
      obtain ⟨e, c₁, he, hc₁, rfl⟩ :=
        takes_binaryOperand hinner argument hus (n := n) (by omega) (by omega) c.next hnext
      obtain ⟨parts, c', hparts, hc', rfl⟩ := ih (k := k) hrest (by omega) (by omega) (by omega) c₁ hc₁
      exact ⟨_, c', .cons hkeyword he hparts, hc', rfl⟩

/-- A keyword message to an operand; `hsend` says what it makes of it. -/
theorem takes_keywordMessage {c c₁ : Cursor} {operand : Operand}
    {part : Ident × Expr} {new : List (Ident × Expr)} (head : BinaryOperandRead n inner c operand c₁)
    (h : Many KeywordArgument c₁.tokens (part :: new) rest) (hrest : followsExpression (headKind rest) = true)
    (hm : c₁.tokens.length ≤ m + 1) (hn : c₁.tokens.length ≤ n)
    (hsend : ∀ info parts arguments, parts.map (·.keyword.bare) = (part :: new).map (·.1) →
      arguments.map Expr.bare = (part :: new).map (·.2) →
      (operand.message info (.keyword parts) arguments).bare = e) :
    ∃ e' c', ExpressionRead n inner c e' c' ∧ c'.tokens = rest ∧ e'.bare = e := by
  have hlength := (h.leaves (fun _ _ _ _ => KeywordArgument.leaves) le_rfl).length_add_le
  obtain ⟨parts, c₂, hparts, hc₂, hnew⟩ := takes_keywordParts hinner h hrest hm hn (k := n) (by omega) c₁ rfl
  obtain ⟨last, hlast⟩ : ∃ last, (parts.map (·.1)).getLast? = some last := by
    refine ⟨_, List.getLast?_eq_some_getLast ?_⟩
    intro hnil
    rw [List.map_eq_nil_iff.mp hnil] at hnew
    cases hnew
  refine ⟨_, _, .keywords head hparts hlast, hc₂, hsend _ _ _ ?_ ?_⟩
  · rw [← hnew, List.map_map, List.map_map]
    rfl
  · rw [← hnew, List.map_map, List.map_map]
    rfl

/-- Expressions are taken if those nested in them are. -/
theorem takesExpressions_expressionWith (hn : m < n) :
    TakesExpressions (expressionWith n inner) (m + 1) := by
  intro ts e rest hm h hrest c hc
  have hfollows := followsBinary_of_followsExpression hrest
  suffices ∃ e' c', ExpressionRead n inner c e' c' ∧ c'.tokens = rest ∧ e'.bare = e by
    obtain ⟨e', c', he', hc', hbare⟩ := this
    exact ⟨e', c', expressionWith_eq_ok_iff.mpr he', hc', hbare⟩
  cases h with
  | plain operand =>
    obtain ⟨e', c', he', rfl, hbare⟩ :=
      takes_binaryOperand hinner operand hfollows (n := n) (by omega) (by omega) c hc
    exact ⟨e', c', .plain he' (keywordPartsRead_nil hrest), rfl, hbare⟩
  | keywords operand messages =>
    have hlength := operand.leaves.length_le
    obtain ⟨e', c₁, he', rfl, rfl⟩ :=
      takes_binaryOperand hinner operand (messages.followsBinary hfollows) (n := n) (by omega) (by omega) c hc
    refine takes_keywordMessage hinner he' messages hrest (by omega) (by omega) ?_
    intro info parts arguments hparts harguments
    rw [bare_message_expr, bare_keyword hparts, harguments]
  | superKeywords word messages =>
    rw [List.length_cons] at hm
    have hbinary := messages.followsBinary hfollows
    obtain ⟨hhead, rfl⟩ := unaryOperandRead_super word (followsUnary_of_followsBinary hbinary) hc
    have hoperand := BinaryOperandRead.mk hhead (binaryMessagesRead_stop hbinary _)
    refine takes_keywordMessage hinner hoperand messages hrest (by omega) (by omega) ?_
    intro info parts arguments hparts harguments
    rw [bare_message_super, bare_keyword_ident hparts, harguments]

end Nested

/-- Every level of nesting allows for one more token. -/
theorem takesExpressions_expressionAt (n depth : Nat) :
    TakesExpressions (expressionAt n depth) (min n depth) := by
  induction depth with
  | zero =>
    intro ts e rest hm h
    have hleaves := h.leaves.length_add_le
    omega
  | succ depth ih =>
    intro ts e rest hm h hrest
    have hpos := h.leaves.length_add_le
    obtain ⟨m, hmin⟩ : ∃ m, min n (depth + 1) = m + 1 := ⟨min n (depth + 1) - 1, by omega⟩
    refine takesExpressions_expressionWith (m := m) ?_ (by omega) ts e rest (by omega) h hrest
    exact fun ts e rest hm => ih ts e rest (by omega)

/-- An expression of at most `n` tokens is taken, whatever is nested in it. -/
theorem takesExpressions_expressionWithin (n : Nat) : TakesExpressions (expressionWithin n) n :=
  fun ts e rest hn => takesExpressions_expressionAt n (n + 1) ts e rest (by omega)

end ReadM

/-! ## Whole texts -/

/-- A class definition starts with the name of a superclass, or `nil`, and a keyword. -/
def Grammar.StartsClass (ts : List Token) : Prop :=
  ∃ t t' rest, ts = t :: t' :: rest ∧ ((∃ x, t.kind = .identifier x) ∨ t.kind = .reserved .nilWord) ∧
    t'.kind = .keyword "subclass:"

theorem Cursor.isAtClass_iff {c : Cursor} : c.isAtClass = true ↔ StartsClass c.tokens := by
  obtain ⟨tokens, nodes⟩ := c
  constructor
  · intro h
    obtain ⟨hhead, hkeyword⟩ := Bool.and_eq_true_iff.mp h
    have hkeyword := of_decide_eq_true hkeyword
    have hkind : (∃ x, (tokens.headD default).kind = .identifier x) ∨
        (tokens.headD default).kind = .reserved .nilWord := by
      split at hhead
      · next x hx => exact .inl ⟨x, hx⟩
      · next hx => exact .inr hx
      · cases hhead
    rcases tokens with _ | ⟨t, _ | ⟨t', rest⟩⟩
    · rcases hkind with ⟨x, hx⟩ | hx <;> cases hx
    · have ht : t.kind = .keyword "subclass:" := hkeyword
      rcases hkind with ⟨x, hx⟩ | hx <;> simp [ht] at hx
    · exact ⟨t, t', rest, rfl, hkind, hkeyword⟩
  · rintro ⟨t, t', rest, rfl, hkind, hkeyword⟩
    rcases hkind with ⟨x, hx⟩ | hx <;>
      simp [Cursor.isAtClass, Cursor.current, Cursor.following, hx, hkeyword]

/-- Of tokens that end where the text does, all but the comments are read. -/
theorem Cursor.ofTokens_filter {ts : List Token} {finish : Token} (hfinish : finish.kind = .endOfInput) :
    Cursor.ofTokens (ts ++ [finish]) = ⟨ts.filter (!·.isComment) ++ [finish], 0⟩ := by
  have hcomment : finish.isComment = false := by simp [Token.isComment, hfinish]
  have hlast : finish.isFinish = true := decide_eq_true hfinish
  simp [Cursor.ofTokens, hcomment, hlast]

/-- Tokens without comments that end where the text does are read as they are. -/
theorem Cursor.ofTokens_append_finish {ts : List Token} {finish : Token}
    (hfinish : finish.kind = .endOfInput) (hts : ∀ t ∈ ts, t.isComment = false) :
    Cursor.ofTokens (ts ++ [finish]) = ⟨ts ++ [finish], 0⟩ := by
  have hfilter : ts.filter (!·.isComment) = ts :=
    List.filter_eq_self.mpr fun t ht => by simp [hts t ht]
  rw [Cursor.ofTokens_filter hfinish, hfilter]

theorem readClasses_of_not_startsClass {n k : Nat} {r : ClassesRead} (h : ¬ StartsClass r.cursor.tokens) :
    readClasses n k r = r := by
  cases k with
  | zero => rfl
  | succ k => rw [readClasses, if_neg (mt Cursor.isAtClass_iff.mp h)]

/-- Without a class definition, a source unit is a body up to the end of the text. -/
theorem ofTokens_eq_ok_iff {ts : List Token} {finish : Token} (hfinish : finish.kind = .endOfInput)
    (hts : ∀ t ∈ ts, t.isComment = false) (hclass : ¬ StartsClass (ts ++ [finish])) {u : SourceUnit} :
    SourceUnit.ofTokens (ts ++ [finish]) = .ok u ↔
      ∃ main cursor, ReadM.body (ts.length + 1) (ReadM.expressionWithin (ts.length + 1)) .finish
        ⟨ts ++ [finish], 0⟩ = .ok main cursor ∧ u = ⟨[], main, cursor.current.span, cursor.nodes⟩ := by
  rw [SourceUnit.ofTokens, Cursor.ofTokens_append_finish hfinish hts, SourceUnit.ofCursor]
  simp only [readClasses_of_not_startsClass (r := { cursor := ⟨ts ++ [finish], 0⟩ }) hclass,
    List.length_append, List.length_singleton]
  cases ReadM.body (ts.length + 1) (ReadM.expressionWithin (ts.length + 1)) .finish
    ⟨ts ++ [finish], 0⟩ with
  | ok main cursor => simp [eq_comm]
  | error e cursor => simp

/-- What is read as the body of a text is a body of the grammar, and the other way round. -/
theorem bodyPhrase_iff_body {ts : List Token} {finish : Token} (hfinish : finish.kind = .endOfInput)
    (hts : ∀ t ∈ ts, t.kind ≠ .endOfInput) {nodes : Nat} {b : Body} :
    BodyPhrase (ts ++ [finish]) b [finish] ↔
      ∃ main cursor, ReadM.body (ts.length + 1) (ReadM.expressionWithin (ts.length + 1)) .finish
        ⟨ts ++ [finish], nodes⟩ = .ok main cursor ∧ main.bare = b := by
  constructor
  · intro h
    have hinner := ReadM.takesExpressions_expressionWithin (ts.length + 1)
    have hend : headKind [finish] = BodyEnd.finish.kind := hfinish
    obtain ⟨main, cursor, hmain, -, hbare⟩ :=
      ReadM.takes_body (n := ts.length + 1) hinner h hend (by simp) (by simp) ⟨ts ++ [finish], nodes⟩ rfl
    exact ⟨main, cursor, ReadM.body_eq_ok_iff.mpr hmain, hbare⟩
  · rintro ⟨main, cursor, hmain, rfl⟩
    have hread := ReadM.body_eq_ok_iff.mp hmain
    have hbody := hread.phrase (ReadM.readsExpression_expressionAt _ _)
    have hrest := hbody.leaves.eq_of_finish hts hfinish (of_decide_eq_true hread.isAtEnd)
    rw [hrest] at hbody
    exact hbody

/-- A text that does not start with a class definition is read exactly if it is a body of the
grammar, and then what is read is the one body that it stands for. -/
theorem ofTokens_ok_iff_bodyPhrase {ts : List Token} {finish : Token}
    (hfinish : finish.kind = .endOfInput)
    (hts : ∀ t ∈ ts, t.isComment = false ∧ t.kind ≠ .endOfInput)
    (hclass : ¬ StartsClass (ts ++ [finish])) :
    ((∃ u, SourceUnit.ofTokens (ts ++ [finish]) = .ok u) ↔
      ∃ b, BodyPhrase (ts ++ [finish]) b [finish]) ∧
    ∀ u, SourceUnit.ofTokens (ts ++ [finish]) = .ok u →
      u.classes = [] ∧ ∀ b, BodyPhrase (ts ++ [finish]) b [finish] ↔ b = u.main.bare := by
  have hok := @ofTokens_eq_ok_iff ts finish hfinish (fun t ht => (hts t ht).1) hclass
  have hbody := @bodyPhrase_iff_body ts finish hfinish (fun t ht => (hts t ht).2) 0
  refine ⟨⟨?_, ?_⟩, ?_⟩
  · rintro ⟨u, hu⟩
    obtain ⟨main, cursor, hmain, -⟩ := hok.mp hu
    exact ⟨main.bare, hbody.mpr ⟨main, cursor, hmain, rfl⟩⟩
  · rintro ⟨b, hb⟩
    obtain ⟨main, cursor, hmain, -⟩ := hbody.mp hb
    exact ⟨_, hok.mpr ⟨main, cursor, hmain, rfl⟩⟩
  · intro u hu
    obtain ⟨main, cursor, hmain, rfl⟩ := hok.mp hu
    refine ⟨rfl, fun b => ⟨fun hb => ?_, ?_⟩⟩
    · obtain ⟨main', cursor', hmain', rfl⟩ := hbody.mp hb
      rw [hmain] at hmain'
      cases hmain'
      rfl
    · rintro rfl
      exact hbody.mpr ⟨main, cursor, hmain, rfl⟩

/-- Both uses of a bar and of a minus sign, an array and a block, and a message to `super`:
`| a | a := x | -1. ^super at: 2 - 1 put: [:y | {y}]`. -/
theorem ofTokens_ok_bars_and_signs :
    let texts : List (TokenKind × String) := [(.punctuation .bar, "|"), (.identifier "a", "a"),
      (.punctuation .bar, "|"), (.identifier "a", "a"), (.punctuation .assign, ":="),
      (.identifier "x", "x"), (.punctuation .bar, "|"), (.operator "-", "-"), (.integer 1, "1"),
      (.punctuation .dot, "."), (.punctuation .caret, "^"), (.reserved .superWord, "super"),
      (.keyword "at:", "at:"), (.integer 2, "2"), (.operator "-", "-"), (.integer 1, "1"),
      (.keyword "put:", "put:"), (.punctuation .leftBracket, "["), (.blockArgument "y", ":y"),
      (.punctuation .bar, "|"), (.punctuation .leftBrace, "\x7b"), (.identifier "y", "y"),
      (.punctuation .rightBrace, "\x7d"), (.punctuation .rightBracket, "]")]
    let ts : List Token := texts.map fun text => ⟨text.1, {}, text.2⟩
    ∃ u, SourceUnit.ofTokens (ts ++ [.finish {}]) = .ok u ∧ u.classes = [] ∧
      BodyPhrase (ts ++ [.finish {}]) u.main.bare [.finish {}] := by
  intro texts ts
  have hclass : ¬ StartsClass (ts ++ [.finish {}]) :=
    fun h => absurd ((Cursor.isAtClass_iff (c := ⟨_, 0⟩)).mpr h) (by decide)
  obtain ⟨-, hread⟩ := ofTokens_ok_iff_bodyPhrase (by rfl) (by decide) hclass
  have hok : (SourceUnit.ofTokens (ts ++ [.finish {}])).isOk = true := by decide +kernel
  generalize SourceUnit.ofTokens (ts ++ [.finish {}]) = result at hok hread
  cases result with
  | error es => cases hok
  | ok u =>
    obtain ⟨hclasses, hbody⟩ := hread u rfl
    exact ⟨u, rfl, hclasses, (hbody _).mpr rfl⟩

end Smalltalk
