import Mathlib
import Smalltalk.Proofs.Grammar
import Smalltalk.Reader.Unit

/-!
# What a reader does when it succeeds

Every reader is taken apart here, once. When it succeeds, and with what, is a relation between the
cursor it starts from, its result and the cursor it ends at, with a case for each way through the
reader. A loop has an inductive relation, with a case for each way to take or to end a turn. A reader
succeeds exactly if its relation holds. So statements about what has been read, and statements about
what can be read, are both proved over these relations.

Of the reader for nested expressions nothing is known, so the relations mention its runs as they are.
-/

namespace Smalltalk

open Grammar Number

/-- The cursor after a node has been numbered. -/
def Cursor.numbered (c : Cursor) : Cursor := { c with nodes := c.nodes + 1 }

namespace Cursor

@[simp]
theorem nodes_next (c : Cursor) : c.next.nodes = c.nodes := by
  unfold next
  split <;> rfl

@[simp]
theorem nodes_numbered (c : Cursor) : c.numbered.nodes = c.nodes + 1 := rfl

@[simp]
theorem tokens_numbered (c : Cursor) : c.numbered.tokens = c.tokens := rfl

variable {c : Cursor}

/-- Short of the end of the text, the cursor stands on the first of the tokens that are left. -/
theorem tokens_eq_cons (h : c.current.kind ≠ .endOfInput) : c.tokens = c.current :: c.next.tokens := by
  obtain ⟨tokens, nodes⟩ := c
  cases tokens with
  | nil => exact absurd rfl h
  | cons t ts =>
    have ht : ¬ t.isFinish = true := fun hfinish => h (of_decide_eq_true hfinish)
    simp [next, current, ht]

theorem tokens_of_kind {kind : TokenKind} (h : c.current.kind = kind) (hne : kind ≠ .endOfInput) :
    c.tokens = c.current :: c.next.tokens :=
  tokens_eq_cons (h ▸ hne)

theorem tokens_of_isAt {mark : Punctuation} (h : c.isAt mark = true) :
    c.current.kind = .punctuation mark ∧ c.tokens = c.current :: c.next.tokens :=
  ⟨of_decide_eq_true h, tokens_of_kind (of_decide_eq_true h) TokenKind.noConfusion⟩

/-- A second token that is not of the kind of the first is the current one after a step. -/
theorem current_next (h : c.current.kind ≠ .endOfInput) (hne : c.following.kind ≠ c.current.kind) :
    c.next.current = c.following := by
  have htokens := tokens_eq_cons h
  generalize hnext : c.next = next at htokens ⊢
  obtain ⟨tokens, nodes⟩ := next
  rw [following, htokens] at hne ⊢
  cases tokens with
  | nil => exact absurd rfl hne
  | cons t ts => rfl

end Cursor

/-- A token that is a name. -/
def Token.IsName (t : Token) (x : Ident) : Prop := t.kind = .identifier x.name ∧ t.span = x.span

/-- A token that is a parameter of a block. -/
def Token.IsParameter (t : Token) (x : Ident) : Prop := t.kind = .blockArgument x.name ∧ t.span = x.span

/-- A message to an operand, as a node. -/
def Operand.message (info : NodeInfo) (selector : Selector) (arguments : List Expr) : Operand → Expr
  | expr receiver => .send info receiver selector arguments
  | superWord _ => .superSend info selector.ident arguments

namespace ReadM

/-! ## Single steps -/

section Steps

variable {α β : Type} {c c' : Cursor}

/-- Two steps succeed if the first does, and the second does from where the first ended. -/
theorem bind_eq_ok_iff {m : ReadM α} {f : α → ReadM β} {b : β} :
    (m >>= f) c = .ok b c' ↔ ∃ a c₁, m c = .ok a c₁ ∧ f a c₁ = .ok b c' := by
  show EStateM.bind m f c = _ ↔ _
  unfold EStateM.bind
  cases m c <;> simp

theorem bind_of_ok {m : ReadM α} {f : α → ReadM β} {a : α} (h : m c = .ok a c') : (m >>= f) c = f a c' := by
  show EStateM.bind m f c = f a c'
  rw [EStateM.bind, h]

theorem run_eq (m : ReadM α) (c : Cursor) : m.run c = m c := rfl

theorem run_get {f : Cursor → ReadM β} : (get >>= f) c = f c c := rfl

theorem run_advance {f : Token → ReadM β} : (advance >>= f) c = f c.current c.next := rfl

theorem run_newNode {span : Span} {f : NodeInfo → ReadM β} :
    (newNode span >>= f) c = f ⟨c.nodes, span⟩ c.numbered := rfl

theorem run_isAt {mark : Punctuation} {f : Bool → ReadM β} : (isAt mark >>= f) c = f (c.isAt mark) c := rfl

theorem pure_eq_ok_iff {a b : α} : (pure a : ReadM α) c = .ok b c' ↔ a = b ∧ c = c' := by
  show EStateM.Result.ok a c = _ ↔ _
  simp

theorem advance_eq_ok_iff {t : Token} : advance c = .ok t c' ↔ c.current = t ∧ c.next = c' := by
  simp [advance]

theorem fail_ne_ok {cause : SyntaxCause} {span : Span} {a : α} : fail cause span c ≠ .ok a c' := by
  show EStateM.Result.error _ c ≠ _
  simp

/-- To complain is never to succeed, whatever is found in place of what was wanted. -/
theorem unexpected_ne_ok {wanted : Wanted} {a : α} : unexpected wanted c ≠ .ok a c' := by
  intro h
  rw [unexpected, run_get] at h
  generalize c.current.kind = kind at h
  cases kind <;> exact fail_ne_ok h

/-- A mark that must stand at the cursor is taken. -/
theorem expect_eq_ok_iff {mark : Punctuation} {t : Token} :
    expect mark c = .ok t c' ↔ c.isAt mark = true ∧ c.current = t ∧ c.next = c' := by
  rw [expect, run_isAt]
  by_cases hmark : c.isAt mark = true
  · rw [if_pos hmark, advance_eq_ok_iff]
    exact ⟨fun h => ⟨hmark, h⟩, fun h => h.2⟩
  · rw [if_neg hmark]
    exact iff_of_false unexpected_ne_ok fun h => hmark h.1

/-- A name is taken with its place. -/
theorem identifier_eq_ok_iff {x : Ident} : identifier c = .ok x c' ↔ c.current.IsName x ∧ c.next = c' := by
  rw [identifier, run_get]
  constructor
  · intro h
    generalize hkind : c.current.kind = kind at h
    cases kind with
    | identifier name =>
      obtain ⟨rfl, rfl⟩ := pure_eq_ok_iff.mp h
      exact ⟨⟨hkind, rfl⟩, rfl⟩
    | _ => exact absurd h unexpected_ne_ok
  · rintro ⟨⟨hkind, hspan⟩, rfl⟩
    simp only [hkind, run_advance, hspan]
    rfl

end Steps

/-! ## Names and dots -/

section Words

variable {n : Nat} {c c' : Cursor}

/-- Tokens have been taken one by one, each for an item. -/
inductive EachTaken {α : Type} (P : Token → α → Prop) : Cursor → List α → Cursor → Prop where
  | nil {c : Cursor} : EachTaken P c [] c
  | cons {c c' : Cursor} {a : α} {as : List α} (head : P c.current a) (tail : EachTaken P c.next as c') :
    EachTaken P c (a :: as) c'

/-- Variables between bars, if there are bars; less than `n` of them. -/
inductive VariablesRead (n : Nat) (c : Cursor) : List Ident → Cursor → Prop where
  | none (noBar : c.isAt .bar = false) : VariablesRead n c [] c
  | some {xs : List Ident} {c₁ : Cursor} (opening : c.isAt .bar = true)
    (names : EachTaken Token.IsName c.next xs c₁) (closing : c₁.isAt .bar = true) (bound : xs.length < n) :
    VariablesRead n c xs c₁.next

/-- As many dots as there are, but at most `n`. -/
inductive DotsPassed : Nat → Cursor → Cursor → Prop where
  | stop {n : Nat} {c : Cursor} (ends : n = 0 ∨ c.isAt .dot = false) : DotsPassed n c c
  | dot {n : Nat} {c c' : Cursor} (dot : c.isAt .dot = true) (rest : DotsPassed n c.next c') :
    DotsPassed (n + 1) c c'

/-- As many parameters of a block as there are, but at most `n`. -/
structure ParametersRead (n : Nat) (c : Cursor) (xs : List Ident) (c' : Cursor) : Prop where
  taken : EachTaken Token.IsParameter c xs c'
  length_le : xs.length ≤ n
  ends : xs.length = n ∨ ∀ x, c'.current.kind ≠ .blockArgument x

/-- Names are taken up to a bar, and the bar with them; `done` holds the names before. -/
theorem namesUpToBar_eq_ok_iff {done : Array Ident} {xs : List Ident} :
    namesUpToBar n done c = .ok xs c' ↔ ∃ ys c₁, xs = done.toList ++ ys ∧
      EachTaken Token.IsName c ys c₁ ∧ c₁.isAt .bar = true ∧ ys.length < n ∧ c' = c₁.next := by
  induction n generalizing done c with
  | zero =>
    refine iff_of_false unexpected_ne_ok ?_
    rintro ⟨ys, c₁, -, -, -, hlength, -⟩
    exact absurd hlength (Nat.not_lt_zero _)
  | succ n ih =>
    rw [namesUpToBar, run_isAt]
    by_cases hbar : c.isAt .bar = true
    · rw [if_pos hbar, run_advance, pure_eq_ok_iff]
      constructor
      · rintro ⟨rfl, rfl⟩
        exact ⟨[], c, by simp, .nil, hbar, Nat.succ_pos n, rfl⟩
      · rintro ⟨ys, c₁, rfl, hys, -, -, rfl⟩
        cases hys with
        | nil => exact ⟨by simp, rfl⟩
        | cons head _ => simp [Cursor.isAt, head.1] at hbar
    · simp only [if_neg hbar, bind_eq_ok_iff, identifier_eq_ok_iff, ih]
      constructor
      · rintro ⟨x, _, ⟨hname, rfl⟩, ys, c₁, rfl, hys, hclosing, hlength, rfl⟩
        exact ⟨x :: ys, c₁, by simp, .cons hname hys, hclosing, Nat.succ_lt_succ hlength, rfl⟩
      · rintro ⟨ys, c₁, rfl, hys, hclosing, hlength, rfl⟩
        cases hys with
        | nil => exact absurd hclosing hbar
        | cons head tail =>
          exact ⟨_, _, ⟨head, rfl⟩, _, c₁, by simp, tail, hclosing, Nat.lt_of_succ_lt_succ hlength, rfl⟩

/-- Whether a list of variables can be read, and what it holds. -/
theorem variableList_eq_ok_iff {xs : List Ident} : variableList n c = .ok xs c' ↔ VariablesRead n c xs c' := by
  rw [variableList, run_isAt]
  by_cases hbar : c.isAt .bar = true
  · rw [if_pos hbar, run_advance, namesUpToBar_eq_ok_iff]
    constructor
    · rintro ⟨ys, c₁, rfl, hys, hclosing, hlength, rfl⟩
      exact .some hbar hys hclosing hlength
    · intro h
      cases h with
      | none noBar => simp [hbar] at noBar
      | some _ names closing bound => exact ⟨_, _, rfl, names, closing, bound, rfl⟩
  · rw [if_neg hbar, pure_eq_ok_iff]
    constructor
    · rintro ⟨rfl, rfl⟩
      exact .none (Bool.eq_false_iff.mpr hbar)
    · intro h
      cases h with
      | none => exact ⟨rfl, rfl⟩
      | some opening => exact absurd opening hbar

/-- Where there is no dot to pass, the cursor stays. -/
theorem DotsPassed.iff_of_stop (h : n = 0 ∨ c.isAt .dot = false) : DotsPassed n c c' ↔ c = c' := by
  constructor
  · intro hdots
    cases hdots with
    | stop => rfl
    | dot dot => simp [dot] at h
  · rintro rfl
    exact .stop h

/-- Dots are passed one by one, up to the first other token. -/
theorem skipDots_eq_ok_iff {u : Unit} : skipDots n c = .ok u c' ↔ DotsPassed n c c' := by
  induction n generalizing c with
  | zero =>
    rw [skipDots, pure_eq_ok_iff, DotsPassed.iff_of_stop (.inl rfl)]
    simp
  | succ n ih =>
    rw [skipDots, run_isAt]
    by_cases hdot : c.isAt .dot = true
    · rw [if_pos hdot, run_advance, ih]
      constructor
      · exact .dot hdot
      · intro h
        cases h with
        | stop ends => simp [hdot] at ends
        | dot _ rest => exact rest
    · rw [if_neg hdot, pure_eq_ok_iff, DotsPassed.iff_of_stop (.inr (Bool.eq_false_iff.mpr hdot))]
      simp

/-- Where no parameter can be taken, none is. -/
theorem ParametersRead.iff_of_stop {xs : List Ident} (h : n = 0 ∨ ∀ x, c.current.kind ≠ .blockArgument x) :
    ParametersRead n c xs c' ↔ xs = [] ∧ c = c' := by
  constructor
  · rintro ⟨taken, hlength, -⟩
    cases taken with
    | nil => exact ⟨rfl, rfl⟩
    | cons head =>
      rcases h with rfl | h
      · cases hlength
      · exact absurd head.1 (h _)
  · rintro ⟨rfl, rfl⟩
    exact ⟨.nil, Nat.zero_le n, h.imp_left Eq.symm⟩

/-- Parameters are taken one by one, up to the first other token; `done` holds the parameters before. -/
theorem blockParams_eq_ok_iff {done : Array Ident} {xs : List Ident} :
    blockParams n done c = .ok xs c' ↔ ∃ ys, xs = done.toList ++ ys ∧ ParametersRead n c ys c' := by
  induction n generalizing done c with
  | zero =>
    simp only [blockParams, pure_eq_ok_iff, ParametersRead.iff_of_stop (.inl rfl)]
    simp [eq_comm]
  | succ n ih =>
    rw [blockParams, run_get]
    cases hkind : c.current.kind with
    | blockArgument x =>
      simp only [run_advance, ih]
      constructor
      · rintro ⟨ys, rfl, hys, hlength, hends⟩
        refine ⟨⟨x, c.current.span⟩ :: ys, by simp, .cons ⟨hkind, rfl⟩ hys, Nat.succ_le_succ hlength, ?_⟩
        exact hends.imp_left (congrArg (· + 1))
      · rintro ⟨ys, rfl, hys, hlength, hends⟩
        cases hys with
        | nil =>
          rcases hends with hends | hends
          · cases hends
          · exact absurd hkind (hends x)
        | @cons _ _ y ys head tail =>
          obtain ⟨name, span⟩ := y
          obtain ⟨hname, rfl⟩ := head
          obtain rfl : x = name := TokenKind.blockArgument.inj (hkind.symm.trans hname)
          exact ⟨ys, by simp, tail, Nat.le_of_succ_le_succ hlength, hends.imp_left Nat.succ.inj⟩
    | _ =>
      simp only [pure_eq_ok_iff, ParametersRead.iff_of_stop (c := c) (.inr (by simp [hkind]))]
      simp [eq_comm]

end Words

section Nested

variable {n : Nat} {inner : ReadM Expr} {c c' : Cursor}

/-! ## Statements and bodies -/

inductive StatementRead (inner : ReadM Expr) (c : Cursor) : Expr → Cursor → Prop where
  | ret {e : Expr} {c₁ : Cursor} (caret : c.isAt .caret = true) (value : inner c.next = .ok e c₁) :
    StatementRead inner c (.ret ⟨c₁.nodes, c.current.span.merge e.span⟩ e) c₁.numbered
  /-- The target is numbered before the value is read. -/
  | assign {x : String} {e : Expr} {c₁ : Cursor} (target : c.current.kind = .identifier x)
    (mark : c.following.kind = .punctuation .assign) (value : inner c.next.next.numbered = .ok e c₁) :
    StatementRead inner c (.assign ⟨c₁.nodes, c.current.span.merge e.span⟩ (.name ⟨c.nodes, c.current.span⟩ x) e)
      c₁.numbered
  | expression {e : Expr} {c' : Cursor} (value : inner c = .ok e c') (noCaret : c.isAt .caret = false)
    (noAssign : c.following.kind ≠ .punctuation .assign) : StatementRead inner c e c'

/-- At most `k` statements, with dots between them. -/
inductive StatementsRead (n : Nat) (inner : ReadM Expr) (close : BodyEnd) :
    Nat → Cursor → List Expr → Cursor → Prop where
  | out {c : Cursor} : StatementsRead n inner close 0 c [] c
  | finish {k : Nat} {c c' : Cursor} (dots : DotsPassed n c c') (atEnd : c'.isAtEnd close = true) :
    StatementsRead n inner close (k + 1) c [] c'
  | last {k : Nat} {c c₁ c' : Cursor} {e : Expr} (dots : DotsPassed n c c₁) (head : StatementRead inner c₁ e c')
    (isOpen : c₁.isAtEnd close = false) (noDot : c'.isAt .dot = false) :
    StatementsRead n inner close (k + 1) c [e] c'
  | cons {k : Nat} {c c₁ c₂ c' : Cursor} {e : Expr} {es : List Expr} (dots : DotsPassed n c c₁)
    (head : StatementRead inner c₁ e c₂) (isOpen : c₁.isAtEnd close = false) (dot : c₂.isAt .dot = true)
    (tail : StatementsRead n inner close k c₂ es c') : StatementsRead n inner close (k + 1) c (e :: es) c'

inductive BodyRead (n : Nat) (inner : ReadM Expr) (close : BodyEnd) (c : Cursor) : Body → Cursor → Prop where
  | mk {xs : List Ident} {es : List Expr} {c₁ c' : Cursor} (locals : VariablesRead n c xs c₁)
    (statements : StatementsRead n inner close n c₁ es c') (atEnd : c'.isAtEnd close = true) :
    BodyRead n inner close c ⟨xs, es⟩ c'

theorem BodyRead.isAtEnd {close : BodyEnd} {b : Body} (h : BodyRead n inner close c b c') :
    c'.isAtEnd close = true := by
  cases h with
  | mk _ _ atEnd => exact atEnd

/-- A caret makes a return and an assignment mark in second place an assignment; all else is read as an
expression. -/
theorem statement_eq_ok_iff {e : Expr} : statement inner c = .ok e c' ↔ StatementRead inner c e c' := by
  rw [statement, run_get]
  constructor
  · intro h
    split at h
    · next hcaret =>
      simp only [run_advance, bind_eq_ok_iff, run_newNode, pure_eq_ok_iff] at h
      obtain ⟨value, c₁, hvalue, rfl, rfl⟩ := h
      exact .ret hcaret hvalue
    · next hcaret =>
      split at h
      · next hassign =>
        rw [run_advance] at h
        generalize hkind : c.current.kind = kind at h
        cases kind with
        | identifier x =>
          simp only [run_advance, run_newNode, bind_eq_ok_iff, pure_eq_ok_iff] at h
          obtain ⟨value, c₁, hvalue, rfl, rfl⟩ := h
          rw [Cursor.nodes_next, Cursor.nodes_next]
          exact .assign hkind hassign hvalue
        | _ => exact absurd h fail_ne_ok
      · next hassign => exact .expression h (Bool.eq_false_iff.mpr hcaret) hassign
  · intro h
    cases h with
    | ret caret value =>
      simp only [if_pos caret, run_advance, bind_eq_ok_iff, run_newNode, pure_eq_ok_iff]
      exact ⟨_, _, value, rfl, rfl⟩
    | assign target mark value =>
      have hcaret : ¬ c.isAt .caret = true := by simp [Cursor.isAt, target]
      simp only [if_neg hcaret, if_pos mark, run_advance, target, run_newNode, bind_eq_ok_iff, pure_eq_ok_iff,
        Cursor.nodes_next]
      exact ⟨_, _, value, rfl, rfl⟩
    | expression value noCaret noAssign =>
      rw [if_neg (Bool.eq_false_iff.mp noCaret), if_neg noAssign]
      exact value

/-- A turn of the loop passes dots and takes one statement; there is another turn if a dot follows. -/
theorem statements_eq_ok_iff {close : BodyEnd} {k : Nat} {done : Array Expr} {es : List Expr} :
    statements n inner close k done c = .ok es c' ↔
      ∃ fs, es = done.toList ++ fs ∧ StatementsRead n inner close k c fs c' := by
  induction k generalizing done c with
  | zero =>
    rw [statements, pure_eq_ok_iff]
    constructor
    · rintro ⟨rfl, rfl⟩
      exact ⟨[], by simp, .out⟩
    · rintro ⟨fs, rfl, h⟩
      cases h
      exact ⟨by simp, rfl⟩
  | succ k ih =>
    simp only [statements, bind_eq_ok_iff, skipDots_eq_ok_iff, run_get]
    constructor
    · rintro ⟨_, c₁, hdots, h⟩
      split at h
      · next hend =>
        obtain ⟨rfl, rfl⟩ := pure_eq_ok_iff.mp h
        exact ⟨[], by simp, .finish hdots hend⟩
      · next hend =>
        have hopen := Bool.eq_false_iff.mpr hend
        simp only [bind_eq_ok_iff, statement_eq_ok_iff, run_isAt] at h
        obtain ⟨e, c₂, he, h⟩ := h
        split at h
        · next hdot =>
          obtain ⟨fs, rfl, hfs⟩ := ih.mp h
          exact ⟨e :: fs, by simp, .cons hdots he hopen hdot hfs⟩
        · next hdot =>
          obtain ⟨rfl, rfl⟩ := pure_eq_ok_iff.mp h
          exact ⟨[e], by simp, .last hdots he hopen (Bool.eq_false_iff.mpr hdot)⟩
    · rintro ⟨fs, rfl, h⟩
      cases h with
      | finish dots atEnd =>
        refine ⟨(), _, dots, ?_⟩
        rw [if_pos atEnd, pure_eq_ok_iff]
        exact ⟨by simp, rfl⟩
      | last dots head isOpen noDot =>
        refine ⟨(), _, dots, ?_⟩
        rw [if_neg (Bool.eq_false_iff.mp isOpen), bind_of_ok (statement_eq_ok_iff.mpr head), run_isAt,
          if_neg (Bool.eq_false_iff.mp noDot), pure_eq_ok_iff]
        exact ⟨by simp, rfl⟩
      | cons dots head isOpen dot tail =>
        refine ⟨(), _, dots, ?_⟩
        rw [if_neg (Bool.eq_false_iff.mp isOpen), bind_of_ok (statement_eq_ok_iff.mpr head), run_isAt, if_pos dot,
          ih]
        exact ⟨_, by simp, tail⟩

/-- Whether a body can be read, and what it holds. -/
theorem body_eq_ok_iff {close : BodyEnd} {b : Body} :
    body n inner close c = .ok b c' ↔ BodyRead n inner close c b c' := by
  simp only [body, bind_eq_ok_iff, variableList_eq_ok_iff, statements_eq_ok_iff, run_get]
  constructor
  · rintro ⟨xs, c₁, hlocals, es, c₂, ⟨fs, rfl, hfs⟩, h⟩
    split at h
    · next hend =>
      obtain ⟨rfl, rfl⟩ := pure_eq_ok_iff.mp h
      exact .mk hlocals hfs hend
    · exact absurd h unexpected_ne_ok
  · intro h
    cases h with
    | mk locals statements atEnd =>
      refine ⟨_, _, locals, _, _, ⟨_, rfl, statements⟩, ?_⟩
      rw [if_pos atEnd, pure_eq_ok_iff]
      exact ⟨rfl, rfl⟩

/-! ## Primary expressions -/

/-- The bar after the parameters of a block, which is left out if there are none, or if nothing else
follows. -/
inductive BarPassed : List Ident → Cursor → Cursor → Prop where
  | none {c : Cursor} : BarPassed [] c c
  | closed {x : Ident} {xs : List Ident} {c : Cursor} (closing : c.isAt .rightBracket = true) :
    BarPassed (x :: xs) c c
  | bar {x : Ident} {xs : List Ident} {c : Cursor} (bar : c.isAt .bar = true) : BarPassed (x :: xs) c c.next

inductive BlockRead (n : Nat) (inner : ReadM Expr) (c : Cursor) : Expr → Cursor → Prop where
  | mk {xs : List Ident} {b : Body} {c₁ c₂ c₃ : Cursor} (params : ParametersRead n c.next xs c₁)
    (bar : BarPassed xs c₁ c₂) (body : BodyRead n inner .bracket c₂ b c₃)
    (closing : c₃.isAt .rightBracket = true) :
    BlockRead n inner c (.block ⟨c₃.nodes, c.current.span.merge c₃.current.span⟩ xs b.locals b.statements
      c₃.current.span) c₃.next.numbered

inductive ElementsRead (n : Nat) (inner : ReadM Expr) : Nat → Cursor → List Expr → Cursor → Prop where
  | finish {k : Nat} {c c' : Cursor} (dots : DotsPassed n c c') (closing : c'.isAt .rightBrace = true) :
    ElementsRead n inner (k + 1) c [] c'
  | cons {k : Nat} {c c₁ c₂ c' : Cursor} {e : Expr} {es : List Expr} (dots : DotsPassed n c c₁)
    (head : inner c₁ = .ok e c₂) (isOpen : c₁.isAt .rightBrace = false)
    (follows : c₂.isAt .dot = true ∨ c₂.isAt .rightBrace = true) (tail : ElementsRead n inner k c₂ es c') :
    ElementsRead n inner (k + 1) c (e :: es) c'

theorem ElementsRead.isAt {k : Nat} {es : List Expr} (h : ElementsRead n inner k c es c') :
    c'.isAt .rightBrace = true := by
  induction h with
  | finish _ closing => exact closing
  | cons _ _ _ _ _ ih => exact ih

inductive ArrayRead (n : Nat) (inner : ReadM Expr) (c : Cursor) : Expr → Cursor → Prop where
  | mk {es : List Expr} {c₁ : Cursor} (items : ElementsRead n inner n c.next es c₁) :
    ArrayRead n inner c (.array ⟨c₁.nodes, c.current.span.merge c₁.current.span⟩ es) c₁.next.numbered

/-- The value of a token that stands for one by itself. -/
inductive StandsFor : TokenKind → Atom → Prop where
  | integer {v : Int} (word : IsWord v) : StandsFor (.integer v) (.integer (Int32.ofInt v))
  | character {ch : Char} (narrow : ch.toNat ≤ 0xFFFF) : StandsFor (.character ch) (.character ch)
  | float {bits : UInt64} : StandsFor (.float bits) (.float (narrow bits))
  | string {s : String} : StandsFor (.string s) (.string s)
  | nilObject : StandsFor (.reserved .nilWord) .nilObject
  | trueObject : StandsFor (.reserved .trueWord) .trueObject
  | falseObject : StandsFor (.reserved .falseWord) .falseObject
  | receiver : StandsFor (.reserved .selfWord) .receiver

/-- The value of a number after a minus sign. -/
inductive StandsForNegative : TokenKind → Atom → Prop where
  | integer {v : Int} (word : IsWord (-v)) : StandsForNegative (.integer v) (.integer (Int32.ofInt (-v)))
  | float {bits : UInt64} : StandsForNegative (.float bits) (.float (narrow (negateDouble bits)))

inductive PrimaryRead (n : Nat) (inner : ReadM Expr) (c : Cursor) : Expr → Cursor → Prop where
  | literal {value : Atom} (token : StandsFor c.current.kind value) :
    PrimaryRead n inner c (.atom ⟨c.nodes, c.current.span⟩ value) c.next.numbered
  | negative {value : Atom} (minus : c.current.kind = .operator "-")
    (number : StandsForNegative c.next.current.kind value) :
    PrimaryRead n inner c (.atom ⟨c.nodes, c.current.span.merge c.next.current.span⟩ value) c.next.next.numbered
  | name {x : String} (token : c.current.kind = .identifier x) :
    PrimaryRead n inner c (.name ⟨c.nodes, c.current.span⟩ x) c.next.numbered
  | parentheses {e : Expr} {c₁ : Cursor} (opening : c.isAt .leftParen = true)
    (nested : inner c.next = .ok e c₁) (closing : c₁.isAt .rightParen = true) : PrimaryRead n inner c e c₁.next
  | block {e : Expr} {c' : Cursor} (opening : c.isAt .leftBracket = true) (block : BlockRead n inner c e c') :
    PrimaryRead n inner c e c'
  | array {e : Expr} {c' : Cursor} (opening : c.isAt .leftBrace = true) (array : ArrayRead n inner c e c') :
    PrimaryRead n inner c e c'

/-- What follows the parameters of a block is read in the same way whether or not there is a bar. -/
theorem blockTail_eq_ok_iff (start : Span) (xs : List Ident) {e : Expr} :
    (do
      let body ← body n inner .bracket
      let close ← expect .rightBracket
      let info ← newNode (start.merge close.span)
      return .block info xs body.locals body.statements close.span : ReadM Expr) c = .ok e c' ↔
    ∃ b c₁, BodyRead n inner .bracket c b c₁ ∧ c₁.isAt .rightBracket = true ∧
      e = .block ⟨c₁.nodes, start.merge c₁.current.span⟩ xs b.locals b.statements c₁.current.span ∧
      c' = c₁.next.numbered := by
  simp only [bind_eq_ok_iff, body_eq_ok_iff, expect_eq_ok_iff, run_newNode, pure_eq_ok_iff]
  constructor
  · rintro ⟨b, c₁, hbody, _, _, ⟨hclosing, rfl, rfl⟩, rfl, rfl⟩
    exact ⟨b, c₁, hbody, hclosing, by rw [Cursor.nodes_next], rfl⟩
  · rintro ⟨b, c₁, hbody, hclosing, rfl, rfl⟩
    exact ⟨b, c₁, hbody, _, _, ⟨hclosing, rfl, rfl⟩, by rw [Cursor.nodes_next], rfl⟩

/-- Whether a block can be read, and what it holds. -/
theorem block_eq_ok_iff {e : Expr} : block n inner c = .ok e c' ↔ BlockRead n inner c e c' := by
  rw [block, run_advance]
  simp only [bind_eq_ok_iff (m := blockParams n #[]), blockParams_eq_ok_iff]
  constructor
  · rintro ⟨xs, c₁, ⟨_, rfl, hparams⟩, h⟩
    have hrest : ∀ {c₂ : Cursor}, BarPassed xs c₁ c₂ → (∃ b c₃, BodyRead n inner .bracket c₂ b c₃ ∧
        c₃.isAt .rightBracket = true ∧ e = .block ⟨c₃.nodes, c.current.span.merge c₃.current.span⟩ xs b.locals
          b.statements c₃.current.span ∧ c' = c₃.next.numbered) → BlockRead n inner c e c' := by
      rintro c₂ hbar ⟨b, c₃, hbody, hclosing, rfl, rfl⟩
      exact .mk hparams hbar hbody hclosing
    cases xs with
    | nil => exact hrest .none ((blockTail_eq_ok_iff _ _).mp h)
    | cons x xs =>
      simp only [List.isEmpty_cons, Bool.not_false, if_true, run_isAt] at h
      split at h
      · rw [bind_eq_ok_iff] at h
        obtain ⟨_, _, hbar, h⟩ := h
        obtain ⟨hmark, -, rfl⟩ := expect_eq_ok_iff.mp hbar
        exact hrest (.bar hmark) ((blockTail_eq_ok_iff _ _).mp h)
      · next hclosing => exact hrest (.closed (by simpa using hclosing)) ((blockTail_eq_ok_iff _ _).mp h)
  · intro h
    cases h with
    | @mk xs b c₁ c₂ c₃ params bar body closing =>
      refine ⟨xs, c₁, ⟨xs, rfl, params⟩, ?_⟩
      have hrest := (blockTail_eq_ok_iff c.current.span xs).mpr ⟨b, c₃, body, closing, rfl, rfl⟩
      cases bar with
      | none => exact hrest
      | closed closing =>
        simp only [List.isEmpty_cons, Bool.not_false, if_true, run_isAt, closing]
        exact hrest
      | bar bar =>
        have hopen : c₁.isAt .rightBracket = false := by
          rw [Cursor.isAt, of_decide_eq_true bar]
          rfl
        simp only [List.isEmpty_cons, Bool.not_false, if_true, run_isAt, hopen]
        rw [bind_of_ok (expect_eq_ok_iff.mpr ⟨bar, rfl, rfl⟩)]
        exact hrest

/-- Elements are taken up to a brace, which is left; a dot or the brace follows each of them. -/
theorem elements_eq_ok_iff {k : Nat} {done : Array Expr} {es : List Expr} :
    elements n inner k done c = .ok es c' ↔ ∃ fs, es = done.toList ++ fs ∧ ElementsRead n inner k c fs c' := by
  induction k generalizing done c with
  | zero =>
    refine iff_of_false unexpected_ne_ok ?_
    rintro ⟨fs, -, h⟩
    cases h
  | succ k ih =>
    simp only [elements, bind_eq_ok_iff (m := skipDots n), skipDots_eq_ok_iff, run_isAt]
    constructor
    · rintro ⟨_, c₁, hdots, h⟩
      split at h
      · next hbrace =>
        obtain ⟨rfl, rfl⟩ := pure_eq_ok_iff.mp h
        exact ⟨[], by simp, .finish hdots hbrace⟩
      · next hbrace =>
        rw [bind_eq_ok_iff] at h
        obtain ⟨e, c₂, he, h⟩ := h
        simp only [run_isAt] at h
        split at h
        · next hfollows =>
          obtain ⟨fs, rfl, hfs⟩ := ih.mp h
          exact ⟨e :: fs, by simp,
            .cons hdots he (Bool.eq_false_iff.mpr hbrace) (Bool.or_eq_true_iff.mp hfollows) hfs⟩
        · exact absurd h unexpected_ne_ok
    · rintro ⟨fs, rfl, h⟩
      cases h with
      | finish dots closing =>
        refine ⟨(), _, dots, ?_⟩
        rw [if_pos closing, pure_eq_ok_iff]
        exact ⟨by simp, rfl⟩
      | cons dots head isOpen follows tail =>
        refine ⟨(), _, dots, ?_⟩
        rw [if_neg (Bool.eq_false_iff.mp isOpen), bind_of_ok head, run_isAt, run_isAt,
          if_pos (Bool.or_eq_true_iff.mpr follows), ih]
        exact ⟨_, by simp, tail⟩

/-- Whether an array can be read, and what it holds. -/
theorem array_eq_ok_iff {e : Expr} : array n inner c = .ok e c' ↔ ArrayRead n inner c e c' := by
  simp only [array, run_advance, bind_eq_ok_iff, elements_eq_ok_iff, run_newNode, pure_eq_ok_iff]
  constructor
  · rintro ⟨items, c₁, ⟨fs, rfl, hfs⟩, rfl, rfl⟩
    rw [Cursor.nodes_next]
    exact .mk hfs
  · intro h
    cases h with
    | mk items => exact ⟨_, _, ⟨_, rfl, items⟩, by rw [Cursor.nodes_next, List.nil_append], rfl⟩

/-- Only integers of 32 bits are values. -/
theorem wordInteger_eq_ok_iff {value : Int} {span : Span} {a : Atom} :
    wordInteger value span c = .ok a c' ↔ IsWord value ∧ .integer (Int32.ofInt value) = a ∧ c = c' := by
  unfold wordInteger
  by_cases hword : -2147483648 ≤ value ∧ value ≤ 2147483647
  · rw [if_pos hword, pure_eq_ok_iff]
    exact ⟨fun h => ⟨hword, h⟩, fun h => h.2⟩
  · rw [if_neg hword]
    exact iff_of_false fail_ne_ok fun h => hword h.1

theorem atom_eq_ok_iff {value : Atom} {e : Expr} :
    atom value c = .ok e c' ↔ .atom ⟨c.nodes, c.current.span⟩ value = e ∧ c.next.numbered = c' := by
  rw [atom, run_advance, run_newNode, pure_eq_ok_iff, Cursor.nodes_next]

/-- A minus sign stands for nothing by itself and is taken with the number after it. -/
theorem negative_eq_ok_iff {e : Expr} :
    negative c = .ok e c' ↔ ∃ value, StandsForNegative c.next.current.kind value ∧
      .atom ⟨c.nodes, c.current.span.merge c.next.current.span⟩ value = e ∧ c.next.next.numbered = c' := by
  rw [negative, run_advance, run_get]
  constructor
  · intro h
    generalize hkind : c.next.current.kind = kind at h ⊢
    cases kind with
    | integer v =>
      simp only [bind_eq_ok_iff, wordInteger_eq_ok_iff, run_advance, run_newNode, pure_eq_ok_iff,
        Cursor.nodes_next] at h
      obtain ⟨_, _, ⟨hword, rfl, rfl⟩, rfl, rfl⟩ := h
      exact ⟨_, .integer hword, by rw [Cursor.nodes_next], rfl⟩
    | float bits =>
      simp only [pure_bind, run_advance, run_newNode, pure_eq_ok_iff, Cursor.nodes_next] at h
      exact ⟨_, .float, h⟩
    | _ =>
      rw [bind_eq_ok_iff] at h
      obtain ⟨_, _, hvalue, -⟩ := h
      exact absurd hvalue unexpected_ne_ok
  · rintro ⟨value, hvalue, rfl, rfl⟩
    generalize hkind : c.next.current.kind = kind at hvalue ⊢
    cases hvalue with
    | integer word =>
      simp only [bind_eq_ok_iff, wordInteger_eq_ok_iff, run_advance, run_newNode, pure_eq_ok_iff,
        Cursor.nodes_next]
      exact ⟨_, _, ⟨word, rfl, rfl⟩, by rw [Cursor.nodes_next], rfl⟩
    | float =>
      simp only [pure_bind, run_advance, run_newNode, pure_eq_ok_iff, Cursor.nodes_next, and_self]

/-- The first token of a primary expression tells what it is. -/
theorem primaryRead_of_ok {e : Expr} (h : primary n inner c = .ok e c') : PrimaryRead n inner c e c' := by
  rw [primary, run_get] at h
  generalize hkind : c.current.kind = kind at h
  have hatom : ∀ {value : Atom}, StandsFor kind value → atom value c = .ok e c' → PrimaryRead n inner c e c' := by
    intro value hvalue h
    obtain ⟨rfl, rfl⟩ := atom_eq_ok_iff.mp h
    exact .literal (hkind ▸ hvalue)
  cases kind with
  | integer v =>
    simp only [run_advance, bind_eq_ok_iff, wordInteger_eq_ok_iff, run_newNode, pure_eq_ok_iff] at h
    obtain ⟨_, _, ⟨hword, rfl, rfl⟩, rfl, rfl⟩ := h
    rw [Cursor.nodes_next]
    exact .literal (hkind ▸ .integer hword)
  | character ch =>
    simp only [run_advance] at h
    split at h
    · exact absurd h fail_ne_ok
    · next hwide =>
      simp only [run_newNode, pure_eq_ok_iff] at h
      obtain ⟨rfl, rfl⟩ := h
      rw [Cursor.nodes_next]
      exact .literal (hkind ▸ .character (Nat.not_lt.mp hwide))
  | float bits => exact hatom .float h
  | string s => exact hatom .string h
  | reserved word =>
    cases word with
    | nilWord => exact hatom .nilObject h
    | trueWord => exact hatom .trueObject h
    | falseWord => exact hatom .falseObject h
    | selfWord => exact hatom .receiver h
    | superWord => exact absurd h unexpected_ne_ok
  | identifier x =>
    simp only [run_advance, run_newNode, pure_eq_ok_iff] at h
    obtain ⟨rfl, rfl⟩ := h
    rw [Cursor.nodes_next]
    exact .name hkind
  | operator op =>
    simp only at h
    split at h
    · next hop =>
      obtain ⟨value, hvalue, rfl, rfl⟩ := negative_eq_ok_iff.mp h
      exact .negative (by rw [hkind, hop]) hvalue
    · exact absurd h unexpected_ne_ok
  | punctuation mark =>
    have hat : c.isAt mark = true := decide_eq_true hkind
    cases mark with
    | leftParen =>
      simp only [run_advance, bind_eq_ok_iff, expect_eq_ok_iff, pure_eq_ok_iff] at h
      obtain ⟨_, c₁, he, _, _, ⟨hclosing, -, rfl⟩, rfl, rfl⟩ := h
      exact .parentheses hat he hclosing
    | leftBracket => exact .block hat (block_eq_ok_iff.mp h)
    | leftBrace => exact .array hat (array_eq_ok_iff.mp h)
    | caret => exact absurd h fail_ne_ok
    | _ => exact absurd h unexpected_ne_ok
  | symbol x => exact absurd h fail_ne_ok
  | _ => exact absurd h unexpected_ne_ok

/-- Every way to take a primary expression is the way of its first token. -/
theorem PrimaryRead.run_eq_ok {e : Expr} (h : PrimaryRead n inner c e c') : primary n inner c = .ok e c' := by
  rw [primary, run_get]
  cases h with
  | literal token =>
    generalize hkind : c.current.kind = kind at token ⊢
    cases token with
    | integer word =>
      simp only [run_advance]
      rw [bind_of_ok (wordInteger_eq_ok_iff.mpr ⟨word, rfl, rfl⟩), run_newNode, pure_eq_ok_iff, Cursor.nodes_next]
      exact ⟨rfl, rfl⟩
    | character narrow =>
      simp only [run_advance]
      rw [if_neg (Nat.not_lt.mpr narrow), run_newNode, pure_eq_ok_iff, Cursor.nodes_next]
      exact ⟨rfl, rfl⟩
    | _ => exact atom_eq_ok_iff.mpr ⟨rfl, rfl⟩
  | negative minus number =>
    simp only [minus, if_true]
    exact negative_eq_ok_iff.mpr ⟨_, number, rfl, rfl⟩
  | name token =>
    simp only [token, run_advance, run_newNode, pure_eq_ok_iff, Cursor.nodes_next, and_self]
  | parentheses opening nested closing =>
    have hkind : c.current.kind = .punctuation .leftParen := of_decide_eq_true opening
    simp only [hkind, run_advance, bind_eq_ok_iff, expect_eq_ok_iff, pure_eq_ok_iff]
    exact ⟨_, _, nested, _, _, ⟨closing, rfl, rfl⟩, rfl, rfl⟩
  | block opening block =>
    have hkind : c.current.kind = .punctuation .leftBracket := of_decide_eq_true opening
    simp only [hkind]
    exact block_eq_ok_iff.mpr block
  | array opening array =>
    have hkind : c.current.kind = .punctuation .leftBrace := of_decide_eq_true opening
    simp only [hkind]
    exact array_eq_ok_iff.mpr array

theorem primary_eq_ok_iff {e : Expr} : primary n inner c = .ok e c' ↔ PrimaryRead n inner c e c' :=
  ⟨primaryRead_of_ok, PrimaryRead.run_eq_ok⟩

/-! ## Messages -/

/-- As many unary messages as there are, but at most `k`. -/
inductive UnaryMessagesRead : Nat → Cursor → Operand → Operand → Cursor → Prop where
  | stop {k : Nat} {c : Cursor} {operand : Operand} (ends : k = 0 ∨ ∀ x, c.current.kind ≠ .identifier x) :
    UnaryMessagesRead k c operand operand c
  | message {k : Nat} {c c' : Cursor} {operand result : Operand} {x : String}
    (word : c.current.kind = .identifier x)
    (rest : UnaryMessagesRead k c.next.numbered (.expr (operand.message
      ⟨c.nodes, operand.span.merge c.current.span⟩ (.unary ⟨x, c.current.span⟩) [])) result c') :
    UnaryMessagesRead (k + 1) c operand result c'

inductive UnaryOperandRead (n : Nat) (inner : ReadM Expr) (c : Cursor) : Operand → Cursor → Prop where
  | super {operand : Operand} {c' : Cursor} (word : c.current.kind = .reserved .superWord)
    (messages : UnaryMessagesRead n c.next (.superWord c.current.span) operand c') :
    UnaryOperandRead n inner c operand c'
  | primary {e : Expr} {operand : Operand} {c₁ c' : Cursor} (head : PrimaryRead n inner c e c₁)
    (messages : UnaryMessagesRead n c₁ (.expr e) operand c') (noSuper : c.current.kind ≠ .reserved .superWord) :
    UnaryOperandRead n inner c operand c'

/-- As many binary messages as there are, but at most `k`. -/
inductive BinaryMessagesRead (n : Nat) (inner : ReadM Expr) :
    Nat → Cursor → Operand → Operand → Cursor → Prop where
  | stop {k : Nat} {c : Cursor} {operand : Operand} (ends : k = 0 ∨ isBinaryOperator c.current.kind = false) :
    BinaryMessagesRead n inner k c operand operand c
  | message {k : Nat} {c c₁ c' : Cursor} {operand result : Operand} {e : Expr}
    (operator : isBinaryOperator c.current.kind = true) (argument : UnaryOperandRead n inner c.next (.expr e) c₁)
    (rest : BinaryMessagesRead n inner k c₁.numbered (.expr (operand.message
      ⟨c₁.nodes, operand.span.merge e.span⟩ (.binary ⟨c.current.lexeme, c.current.span⟩) [e])) result c') :
    BinaryMessagesRead n inner (k + 1) c operand result c'

inductive BinaryOperandRead (n : Nat) (inner : ReadM Expr) (c : Cursor) : Operand → Cursor → Prop where
  | mk {operand result : Operand} {c₁ c' : Cursor} (head : UnaryOperandRead n inner c operand c₁)
    (messages : BinaryMessagesRead n inner n c₁ operand result c') : BinaryOperandRead n inner c result c'

/-- As many keywords as there are, but at most `k`, each with its argument. -/
inductive KeywordPartsRead (n : Nat) (inner : ReadM Expr) :
    Nat → Cursor → List (KeywordPart × Expr) → Cursor → Prop where
  | nil {k : Nat} {c : Cursor} (ends : k = 0 ∨ ∀ word, c.current.kind ≠ .keyword word) :
    KeywordPartsRead n inner k c [] c
  | cons {k : Nat} {c c₁ c' : Cursor} {word : String} {e : Expr} {parts : List (KeywordPart × Expr)}
    (keyword : c.current.kind = .keyword word) (argument : BinaryOperandRead n inner c.next (.expr e) c₁)
    (tail : KeywordPartsRead n inner k c₁ parts c') :
    KeywordPartsRead n inner (k + 1) c ((⟨⟨word, c.current.span⟩, c.current.span.merge e.span⟩, e) :: parts) c'

inductive ExpressionRead (n : Nat) (inner : ReadM Expr) (c : Cursor) : Expr → Cursor → Prop where
  | plain {e : Expr} {c' : Cursor} (head : BinaryOperandRead n inner c (.expr e) c')
    (noKeywords : KeywordPartsRead n inner n c' [] c') : ExpressionRead n inner c e c'
  | keywords {operand : Operand} {parts : List (KeywordPart × Expr)} {last : KeywordPart} {c₁ c₂ : Cursor}
    (head : BinaryOperandRead n inner c operand c₁) (messages : KeywordPartsRead n inner n c₁ parts c₂)
    (isLast : (parts.map (·.1)).getLast? = some last) :
    ExpressionRead n inner c (operand.message ⟨c₂.nodes, operand.span.merge last.span⟩
      (.keyword (parts.map (·.1))) (parts.map (·.2))) c₂.numbered

/-- A message can be sent to every operand, and is numbered after what it is made of. -/
theorem send_eq_ok_iff {operand : Operand} {selector : Selector} {arguments : List Expr} {last : Span}
    {e : Expr} : operand.send selector arguments last c = .ok e c' ↔
      operand.message ⟨c.nodes, operand.span.merge last⟩ selector arguments = e ∧ c.numbered = c' := by
  rw [Operand.send, run_newNode]
  cases operand with
  | expr receiver => exact pure_eq_ok_iff
  | superWord span => exact pure_eq_ok_iff

/-- The word `super` is an operand, but not an expression. -/
theorem finish_eq_ok_iff {operand : Operand} {e : Expr} :
    operand.finish c = .ok e c' ↔ operand = .expr e ∧ c = c' := by
  cases operand with
  | expr e' => rw [Operand.finish, pure_eq_ok_iff, Operand.expr.injEq]
  | superWord span => exact iff_of_false fail_ne_ok fun h => Operand.noConfusion h.1

theorem UnaryMessagesRead.iff_of_stop {k : Nat} {operand result : Operand}
    (h : k = 0 ∨ ∀ x, c.current.kind ≠ .identifier x) :
    UnaryMessagesRead k c operand result c' ↔ operand = result ∧ c = c' := by
  constructor
  · intro hmessages
    cases hmessages with
    | stop => exact ⟨rfl, rfl⟩
    | message word => simp [word] at h
  · rintro ⟨rfl, rfl⟩
    exact .stop h

/-- Each name is a message to all that stands before it. -/
theorem unaryMessages_eq_ok_iff {k : Nat} {operand result : Operand} :
    unaryMessages k operand c = .ok result c' ↔ UnaryMessagesRead k c operand result c' := by
  induction k generalizing operand c with
  | zero => rw [unaryMessages, pure_eq_ok_iff, UnaryMessagesRead.iff_of_stop (.inl rfl)]
  | succ k ih =>
    rw [unaryMessages, run_get]
    cases hkind : c.current.kind with
    | identifier x =>
      simp only [run_advance, bind_eq_ok_iff, send_eq_ok_iff, Cursor.nodes_next]
      constructor
      · rintro ⟨_, _, ⟨rfl, rfl⟩, h⟩
        exact .message hkind (ih.mp h)
      · intro h
        cases h with
        | stop ends => simp [hkind] at ends
        | message word rest =>
          obtain rfl := TokenKind.identifier.inj (hkind.symm.trans word)
          exact ⟨_, _, ⟨rfl, rfl⟩, ih.mpr rest⟩
    | _ => rw [pure_eq_ok_iff, UnaryMessagesRead.iff_of_stop (c := c) (.inr (by simp [hkind]))]

/-- Unary messages are sent to `super` or to a primary expression. -/
theorem unaryOperand_eq_ok_iff {operand : Operand} :
    unaryOperand n inner c = .ok operand c' ↔ UnaryOperandRead n inner c operand c' := by
  rw [unaryOperand, run_get]
  by_cases hword : c.current.kind = .reserved .superWord
  · rw [if_pos hword, run_advance, unaryMessages_eq_ok_iff]
    constructor
    · exact .super hword
    · intro h
      cases h with
      | super _ messages => exact messages
      | primary _ _ noSuper => exact absurd hword noSuper
  · simp only [if_neg hword, bind_eq_ok_iff, primary_eq_ok_iff, unaryMessages_eq_ok_iff]
    constructor
    · rintro ⟨e, c₁, head, messages⟩
      exact .primary head messages hword
    · intro h
      cases h with
      | super word => exact absurd word hword
      | primary head messages => exact ⟨_, _, head, messages⟩

theorem BinaryMessagesRead.iff_of_stop {k : Nat} {operand result : Operand}
    (h : k = 0 ∨ isBinaryOperator c.current.kind = false) :
    BinaryMessagesRead n inner k c operand result c' ↔ operand = result ∧ c = c' := by
  constructor
  · intro hmessages
    cases hmessages with
    | stop => exact ⟨rfl, rfl⟩
    | message operator => simp [operator] at h
  · rintro ⟨rfl, rfl⟩
    exact .stop h

/-- Each operator is a message to all that stands before it, with one argument, which may have unary
messages. -/
theorem binaryMessages_eq_ok_iff {k : Nat} {operand result : Operand} :
    binaryMessages n inner k operand c = .ok result c' ↔ BinaryMessagesRead n inner k c operand result c' := by
  induction k generalizing operand c with
  | zero => rw [binaryMessages, pure_eq_ok_iff, BinaryMessagesRead.iff_of_stop (.inl rfl)]
  | succ k ih =>
    rw [binaryMessages, run_get]
    by_cases hoperator : isBinaryOperator c.current.kind = true
    · simp only [if_pos hoperator, run_advance, bind_eq_ok_iff, unaryOperand_eq_ok_iff, finish_eq_ok_iff,
        send_eq_ok_iff, ih]
      constructor
      · rintro ⟨_, c₁, argument, e, _, ⟨rfl, rfl⟩, _, _, ⟨rfl, rfl⟩, rest⟩
        exact .message hoperator argument rest
      · intro h
        cases h with
        | stop ends => simp [hoperator] at ends
        | message _ argument rest =>
          exact ⟨_, _, argument, _, _, ⟨rfl, rfl⟩, _, _, ⟨rfl, rfl⟩, rest⟩
    · rw [if_neg hoperator, pure_eq_ok_iff,
        BinaryMessagesRead.iff_of_stop (.inr (Bool.eq_false_iff.mpr hoperator))]

theorem binaryOperand_eq_ok_iff {operand : Operand} :
    binaryOperand n inner c = .ok operand c' ↔ BinaryOperandRead n inner c operand c' := by
  simp only [binaryOperand, bind_eq_ok_iff, unaryOperand_eq_ok_iff, binaryMessages_eq_ok_iff]
  constructor
  · rintro ⟨_, _, head, messages⟩
    exact .mk head messages
  · intro h
    cases h with
    | mk head messages => exact ⟨_, _, head, messages⟩

theorem KeywordPartsRead.iff_of_stop {k : Nat} {parts : List (KeywordPart × Expr)}
    (h : k = 0 ∨ ∀ word, c.current.kind ≠ .keyword word) :
    KeywordPartsRead n inner k c parts c' ↔ parts = [] ∧ c = c' := by
  constructor
  · intro hparts
    cases hparts with
    | nil => exact ⟨rfl, rfl⟩
    | cons keyword => simp [keyword] at h
  · rintro ⟨rfl, rfl⟩
    exact .nil h

/-- Each keyword is taken with an argument; `parts` and `arguments` hold those before. -/
theorem keywordParts_eq_ok_iff {k : Nat} {parts : Array KeywordPart} {arguments : Array Expr}
    {r : List KeywordPart × List Expr} :
    keywordParts n inner k parts arguments c = .ok r c' ↔ ∃ new : List (KeywordPart × Expr),
      r = (parts.toList ++ new.map (·.1), arguments.toList ++ new.map (·.2)) ∧
        KeywordPartsRead n inner k c new c' := by
  induction k generalizing parts arguments c with
  | zero =>
    simp only [keywordParts, pure_eq_ok_iff, KeywordPartsRead.iff_of_stop (.inl rfl)]
    simp [eq_comm]
  | succ k ih =>
    rw [keywordParts, run_get]
    cases hkind : c.current.kind with
    | keyword word =>
      simp only [run_advance, bind_eq_ok_iff, binaryOperand_eq_ok_iff, finish_eq_ok_iff, ih]
      constructor
      · rintro ⟨_, c₁, argument, e, _, ⟨rfl, rfl⟩, new, rfl, hnew⟩
        exact ⟨_, by simp, .cons hkind argument hnew⟩
      · rintro ⟨new, rfl, h⟩
        cases h with
        | nil ends => simp [hkind] at ends
        | cons keyword argument tail =>
          obtain rfl := TokenKind.keyword.inj (hkind.symm.trans keyword)
          exact ⟨_, _, argument, _, _, ⟨rfl, rfl⟩, _, by simp, tail⟩
    | _ =>
      simp only [pure_eq_ok_iff, KeywordPartsRead.iff_of_stop (c := c) (.inr (by simp [hkind]))]
      simp [eq_comm]

/-- Whether an expression can be read, and what it is, where `inner` reads what is nested in it. -/
theorem expressionWith_eq_ok_iff {e : Expr} :
    expressionWith n inner c = .ok e c' ↔ ExpressionRead n inner c e c' := by
  simp only [expressionWith, bind_eq_ok_iff, binaryOperand_eq_ok_iff, keywordParts_eq_ok_iff]
  constructor
  · rintro ⟨operand, c₁, hoperand, _, c₂, ⟨new, rfl, hread⟩, h⟩
    simp only [List.nil_append] at h
    cases hlast : (new.map (·.1)).getLast? with
    | none =>
      simp only [hlast] at h
      obtain ⟨rfl, rfl⟩ := finish_eq_ok_iff.mp h
      obtain rfl := List.map_eq_nil_iff.mp (List.getLast?_eq_none_iff.mp hlast)
      cases id hread with
      | nil => exact .plain hoperand hread
    | some last =>
      simp only [hlast] at h
      obtain ⟨rfl, rfl⟩ := send_eq_ok_iff.mp h
      exact .keywords hoperand hread hlast
  · intro h
    cases h with
    | plain head noKeywords =>
      refine ⟨_, _, head, _, _, ⟨[], rfl, noKeywords⟩, ?_⟩
      exact finish_eq_ok_iff.mpr ⟨rfl, rfl⟩
    | keywords head messages isLast =>
      refine ⟨_, _, head, _, _, ⟨_, rfl, messages⟩, ?_⟩
      simp only [List.nil_append, isLast]
      exact send_eq_ok_iff.mpr ⟨rfl, rfl⟩

end Nested

end ReadM

end Smalltalk
