import Mathlib
import Smalltalk.Proofs.ReadSteps

/-!
# Two runs of a reader

Two runs of a reader start from cursors that correspond, and may be given different bounds for their loops.
What it is to correspond is left open here: a `Pairing` says it, and what becomes of it when a token is taken
or a node is numbered. Then the outcomes correspond too. Either both runs succeed, with trees that are alike,
or both fail for the same reason.

Every reader is walked through once for this. A statement about two runs is the choice of a pairing.
-/

namespace Smalltalk

/-! ## Trees alike -/

/-- What may differ between things that are alike: how their places, and the numbers of their nodes, are
related. -/
structure Likeness where
  spans : Span → Span → Prop
  counts : Nat → Nat → Prop

namespace Likeness

variable (L : Likeness)

/-- Tokens of the same kind, spelled in the same way. -/
structure Tokens (t t' : Token) : Prop where
  kind_eq : t'.kind = t.kind
  lexeme_eq : t'.lexeme = t.lexeme
  span : L.spans t.span t'.span

/-- The same name at two places. -/
structure Idents (x x' : Ident) : Prop where
  name_eq : x'.name = x.name
  span : L.spans x.span x'.span

structure Infos (i i' : NodeInfo) : Prop where
  count : L.counts i.id i'.id
  span : L.spans i.span i'.span

structure Parts (p p' : KeywordPart) : Prop where
  keyword : L.Idents p.keyword p'.keyword
  span : L.spans p.span p'.span

inductive Selectors : Selector → Selector → Prop where
  | unary {x x' : Ident} (word : L.Idents x x') : Selectors (.unary x) (.unary x')
  | binary {x x' : Ident} (operator : L.Idents x x') : Selectors (.binary x) (.binary x')
  | keyword {ps ps' : List KeywordPart} (parts : List.Forall₂ L.Parts ps ps') :
    Selectors (.keyword ps) (.keyword ps')

/-- Trees of the same form, with the same names and values. -/
inductive Exprs : Expr → Expr → Prop where
  | atom {i i' : NodeInfo} {value : Atom} (info : L.Infos i i') : Exprs (.atom i value) (.atom i' value)
  | name {i i' : NodeInfo} {x : String} (info : L.Infos i i') : Exprs (.name i x) (.name i' x)
  | array {i i' : NodeInfo} {es es' : List Expr} (info : L.Infos i i') (items : List.Forall₂ Exprs es es') :
    Exprs (.array i es) (.array i' es')
  | block {i i' : NodeInfo} {ps ps' xs xs' : List Ident} {es es' : List Expr} {s s' : Span} (info : L.Infos i i')
    (params : List.Forall₂ L.Idents ps ps') (locals : List.Forall₂ L.Idents xs xs')
    (statements : List.Forall₂ Exprs es es') (close : L.spans s s') :
    Exprs (.block i ps xs es s) (.block i' ps' xs' es' s')
  | send {i i' : NodeInfo} {e e' : Expr} {m m' : Selector} {es es' : List Expr} (info : L.Infos i i')
    (receiver : Exprs e e') (selector : L.Selectors m m') (arguments : List.Forall₂ Exprs es es') :
    Exprs (.send i e m es) (.send i' e' m' es')
  | superSend {i i' : NodeInfo} {m m' : Selector} {es es' : List Expr} (info : L.Infos i i')
    (selector : L.Selectors m m') (arguments : List.Forall₂ Exprs es es') :
    Exprs (.superSend i m.ident es) (.superSend i' m'.ident es')
  | assign {i i' : NodeInfo} {t t' e e' : Expr} (info : L.Infos i i') (target : Exprs t t') (value : Exprs e e') :
    Exprs (.assign i t e) (.assign i' t' e')
  | ret {i i' : NodeInfo} {e e' : Expr} (info : L.Infos i i') (value : Exprs e e') :
    Exprs (.ret i e) (.ret i' e')

inductive Operands : Operand → Operand → Prop where
  | expr {e e' : Expr} (value : L.Exprs e e') : Operands (.expr e) (.expr e')
  | superWord {s s' : Span} (span : L.spans s s') : Operands (.superWord s) (.superWord s')

structure Bodies (b b' : Body) : Prop where
  locals : List.Forall₂ L.Idents b.locals b'.locals
  statements : List.Forall₂ L.Exprs b.statements b'.statements

inductive MethodBodies : MethodBody → MethodBody → Prop where
  | code {b b' : Body} (body : L.Bodies b b') : MethodBodies (.code b) (.code b')
  | primitive {x x' : Ident} (name : L.Idents x x') : MethodBodies (.primitive x) (.primitive x')

structure Methods (m m' : MethodDef) : Prop where
  selector : L.Idents m.selector m'.selector
  params : List.Forall₂ L.Idents m.params m'.params
  classSide_eq : m'.classSide = m.classSide
  body : L.MethodBodies m.body m'.body
  span : L.spans m.span m'.span
  close : L.spans m.close m'.close

structure Classes (d d' : ClassDef) : Prop where
  name : L.Idents d.name d'.name
  superclass : Option.Rel L.Idents d.superclass d'.superclass
  fields : List.Forall₂ L.Idents d.fields d'.fields
  methods : List.Forall₂ L.Methods d.methods d'.methods
  span : L.spans d.span d'.span

/-- Errors with the same cause. -/
structure Errors (e e' : SyntaxError) : Prop where
  cause_eq : e'.cause = e.cause
  span : L.spans e.span e'.span

variable {L}

theorem Exprs.info {e e' : Expr} (h : L.Exprs e e') : L.Infos e.info e'.info := by
  cases h <;> assumption

theorem Exprs.span {e e' : Expr} (h : L.Exprs e e') : L.spans e.span e'.span := h.info.span

theorem Operands.span {o o' : Operand} (h : L.Operands o o') : L.spans o.span o'.span := by
  cases h with
  | expr value => exact value.span
  | superWord span => exact span

end Likeness

/-- Lists that are collected in step stay alike. -/
theorem forall₂_push {α β : Type} {R : α → β → Prop} {done : Array α} {done' : Array β} {a : α} {b : β}
    (h : List.Forall₂ R done.toList done'.toList) (hab : R a b) :
    List.Forall₂ R (done.push a).toList (done'.push b).toList := by
  rw [Array.toList_push, Array.toList_push]
  exact List.rel_append h (.cons hab .nil)

/-- The last items of lists that are alike are alike, or there are none. -/
theorem forall₂_getLast? {α β : Type} {R : α → β → Prop} {xs : List α} {ys : List β} (h : List.Forall₂ R xs ys) :
    Option.Rel R xs.getLast? ys.getLast? := by
  rw [← List.head?_reverse, ← List.head?_reverse]
  have hreverse := List.rel_reverse h
  generalize xs.reverse = xs, ys.reverse = ys at hreverse ⊢
  cases hreverse with
  | nil => exact .none
  | cons hab _ => exact .some hab

/-- The first tokens of a class: none of them ends the text or opens a bracket. -/
theorem Cursor.kinds_of_isAtClass {c : Cursor} (h : c.isAtClass = true) :
    c.current.kind ≠ .endOfInput ∧ c.current.kind ≠ .punctuation .leftBracket ∧
      c.next.current.kind = .keyword "subclass:" := by
  obtain ⟨hhead, hfollowing⟩ := Bool.and_eq_true_iff.mp h
  have hword : c.following.kind = .keyword "subclass:" := of_decide_eq_true hfollowing
  split at hhead
  · next hkind => exact ⟨by simp [hkind], by simp [hkind], by rw [Cursor.current_next] <;> simp [hkind, hword]⟩
  · next hkind => exact ⟨by simp [hkind], by simp [hkind], by rw [Cursor.current_next] <;> simp [hkind, hword]⟩
  · cases hhead

/-! ## Pairings -/

/-- How many brackets are open after a token, where `d` were open before it. -/
def bracketsAfter : TokenKind → Nat → Nat
  | .punctuation .leftBracket, d => d + 1
  | .punctuation .rightBracket, d => d - 1
  | _, d => d

/-- Tokens that neither open nor close a bracket, nor end the text. -/
def TokenKind.isPlain : TokenKind → Bool
  | .punctuation .leftBracket | .punctuation .rightBracket | .endOfInput => false
  | _ => true

theorem bracketsAfter_of_isPlain {kind : TokenKind} (h : kind.isPlain = true) (d : Nat) :
    kind ≠ .endOfInput ∧ bracketsAfter kind d = d := by
  unfold TokenKind.isPlain at h
  split at h
  · cases h
  · cases h
  · cases h
  · next hleft hright hfinish =>
    refine ⟨hfinish, ?_⟩
    unfold bracketsAfter
    split
    · exact absurd rfl hleft
    · exact absurd rfl hright
    · rfl

/-- Which cursors correspond, in two runs of a reader. Readers open and close brackets in pairs, so nothing
need be said about the token after the last bracket. -/
structure Pairing extends Likeness where
  /-- Cursors that correspond inside of `d` brackets, with at most `j` tokens to go. -/
  cursors : Nat → Nat → Cursor → Cursor → Prop
  /-- Cursors that correspond before the bracket that opens a class, with at most `j` tokens to go. -/
  heads : Nat → Cursor → Cursor → Prop
  spans_merge : ∀ {s s' t t' : Span}, spans s s' → spans t t' → spans (s.merge t) (s'.merge t')
  mono : ∀ {d i j : Nat} {c c' : Cursor}, cursors d i c c' → i ≤ j → cursors d j c c'
  numbered : ∀ {d j : Nat} {c c' : Cursor}, cursors d j c c' → cursors d j c.numbered c'.numbered
  counts_nodes : ∀ {d j : Nat} {c c' : Cursor}, cursors d j c c' → counts c.nodes c'.nodes
  exists_succ : ∀ {d j : Nat} {c c' : Cursor}, cursors (d + 1) j c c' → ∃ i, j = i + 1
  current : ∀ {d j : Nat} {c c' : Cursor}, cursors (d + 1) j c c' → toLikeness.Tokens c.current c'.current
  following : ∀ {d j : Nat} {c c' : Cursor}, cursors (d + 1) j c c' →
    c.current.kind ≠ .punctuation .rightBracket ∨ 0 < d → c'.following.kind = c.following.kind
  next : ∀ {d j : Nat} {c c' : Cursor}, cursors (d + 1) (j + 1) c c' → c.current.kind ≠ .endOfInput →
    cursors (bracketsAfter c.current.kind (d + 1)) j c.next c'.next
  heads_counts_nodes : ∀ {j : Nat} {c c' : Cursor}, heads j c c' → counts c.nodes c'.nodes
  heads_exists_succ : ∀ {j : Nat} {c c' : Cursor}, heads j c c' → ∃ i, j = i + 1
  heads_current : ∀ {j : Nat} {c c' : Cursor}, heads j c c' → toLikeness.Tokens c.current c'.current
  heads_next : ∀ {j : Nat} {c c' : Cursor}, heads (j + 1) c c' → c.current.kind ≠ .endOfInput →
    c.current.kind ≠ .punctuation .leftBracket → heads j c.next c'.next
  heads_opening : ∀ {j : Nat} {c c' : Cursor}, heads (j + 1) c c' → c.current.kind = .punctuation .leftBracket →
    cursors 1 j c.next c'.next

namespace Pairing

open ReadM

variable {α β γ δ : Type} {P : Pairing} {R : α → β → Prop} {S : γ → δ → Prop} {d d' i j : Nat} {c c' : Cursor}

/-- A token is taken in both runs. -/
theorem take (h : P.cursors (d + 1) (j + 1) c c') {kind : TokenKind} (hkind : c.current.kind = kind)
    (hne : kind ≠ .endOfInput) : P.cursors (bracketsAfter kind (d + 1)) j c.next c'.next :=
  hkind ▸ P.next h (hkind ▸ hne)

/-- A token that is not a bracket leaves the number of open brackets as it is. -/
theorem pass (h : P.cursors (d + 1) (j + 1) c c') {kind : TokenKind} (hkind : c.current.kind = kind)
    (hplain : kind.isPlain = true) : P.cursors (d + 1) j c.next c'.next := by
  obtain ⟨hne, hdepth⟩ := bracketsAfter_of_isPlain hplain (d + 1)
  exact hdepth ▸ take h hkind hne

theorem isAt_eq (ht : P.Tokens c.current c'.current) (mark : Punctuation) : c'.isAt mark = c.isAt mark := by
  rw [Cursor.isAt, Cursor.isAt, ht.kind_eq]

theorem isAtEnd_eq (ht : P.Tokens c.current c'.current) (close : BodyEnd) :
    c'.isAtEnd close = c.isAtEnd close := by
  rw [Cursor.isAtEnd, Cursor.isAtEnd, ht.kind_eq]

theorem isFinish_eq (ht : P.Tokens c.current c'.current) : c'.current.isFinish = c.current.isFinish := by
  rw [Token.isFinish, Token.isFinish, ht.kind_eq]

/-- Nodes that are numbered at corresponding cursors are alike. -/
theorem infos (h : P.cursors d j c c') {s s' : Span} (hs : P.spans s s') :
    P.Infos ⟨c.nodes, s⟩ ⟨c'.nodes, s'⟩ := ⟨P.counts_nodes h, hs⟩

/-- Outcomes that correspond. -/
inductive Outcomes (P : Pairing) (d j : Nat) (R : α → β → Prop) :
    EStateM.Result SyntaxError Cursor α → EStateM.Result SyntaxError Cursor β → Prop where
  | ok {a : α} {b : β} {c c' : Cursor} (value : R a b) (cursors : P.cursors d j c c') :
    Outcomes P d j R (.ok a c) (.ok b c')
  | error {e e' : SyntaxError} {c c' : Cursor} (errors : P.Errors e e') (counts : P.counts c.nodes c'.nodes) :
    Outcomes P d j R (.error e c) (.error e' c')

/-- Run from `c` and `c'`, two steps have outcomes that correspond. -/
def Paired (P : Pairing) (d j : Nat) (R : α → β → Prop) (m : ReadM α) (c : Cursor) (m' : ReadM β) (c' : Cursor) :
    Prop :=
  P.Outcomes d j R (m c) (m' c')

/-! ## Steps -/

namespace Paired

theorem pure {a : α} {b : β} (hR : R a b) (h : P.cursors d j c c') :
    P.Paired d j R (pure a) c (pure b) c' := .ok hR h

/-- What follows a step may make use of what its first run has come to. -/
theorem bind_run {m : ReadM α} {m' : ReadM β} {f : α → ReadM γ} {g : β → ReadM δ} (h : P.Paired d i R m c m' c')
    (hf : ∀ a b c₁ c₁', R a b → P.cursors d i c₁ c₁' → m c = .ok a c₁ → P.Paired d' j S (f a) c₁ (g b) c₁') :
    P.Paired d' j S (m >>= f) c (m' >>= g) c' := by
  show P.Outcomes d' j S (EStateM.bind m f c) (EStateM.bind m' g c')
  rw [EStateM.bind, EStateM.bind]
  unfold Paired at h
  generalize m c = r, m' c' = r' at h hf
  cases h with
  | ok value cursors => exact hf _ _ _ _ value cursors rfl
  | error errors counts => exact .error errors counts

/-- Two steps in a row correspond if the first does, and the second does wherever the first ends. -/
theorem bind {m : ReadM α} {m' : ReadM β} {f : α → ReadM γ} {g : β → ReadM δ} (h : P.Paired d i R m c m' c')
    (hf : ∀ a b c₁ c₁', R a b → P.cursors d i c₁ c₁' → P.Paired d' j S (f a) c₁ (g b) c₁') :
    P.Paired d' j S (m >>= f) c (m' >>= g) c' :=
  h.bind_run fun a b c₁ c₁' hR hcursors _ => hf a b c₁ c₁' hR hcursors

/-- Outcomes that correspond with fewer tokens to go correspond with more. -/
theorem mono {m : ReadM α} {m' : ReadM β} (h : P.Paired d i R m c m' c') (hij : i ≤ j) :
    P.Paired d j R m c m' c' := by
  unfold Paired at h ⊢
  generalize m c = r, m' c' = r' at h ⊢
  cases h with
  | ok value cursors => exact .ok value (P.mono cursors hij)
  | error errors counts => exact .error errors counts

theorem get {f : Cursor → ReadM γ} {g : Cursor → ReadM δ} (h : P.Paired d j S (f c) c (g c') c') :
    P.Paired d j S (get >>= f) c (get >>= g) c' := h

theorem advance {f : Token → ReadM γ} {g : Token → ReadM δ}
    (h : P.Paired d j S (f c.current) c.next (g c'.current) c'.next) :
    P.Paired d j S (ReadM.advance >>= f) c (ReadM.advance >>= g) c' := h

theorem newNode {f : NodeInfo → ReadM γ} {g : NodeInfo → ReadM δ} {s s' : Span} (hc : P.cursors d' i c c')
    (hs : P.spans s s')
    (h : ∀ info info', P.Infos info info' → P.cursors d' i c.numbered c'.numbered →
      P.Paired d j S (f info) c.numbered (g info') c'.numbered) :
    P.Paired d j S (ReadM.newNode s >>= f) c (ReadM.newNode s' >>= g) c' :=
  h _ _ (infos hc hs) (P.numbered hc)

theorem ite {p : Prop} [Decidable p] {m₁ m₂ : ReadM γ} {m₁' m₂' : ReadM δ}
    (hpos : p → P.Paired d j S m₁ c m₁' c') (hneg : ¬ p → P.Paired d j S m₂ c m₂' c') :
    P.Paired d j S (if p then m₁ else m₂) c (if p then m₁' else m₂') c' := by
  by_cases hp : p
  · rw [if_pos hp, if_pos hp]
    exact hpos hp
  · rw [if_neg hp, if_neg hp]
    exact hneg hp

theorem fail {cause : SyntaxCause} {s s' : Span} (hs : P.spans s s') (hcounts : P.counts c.nodes c'.nodes) :
    P.Paired d j R (ReadM.fail cause s) c (ReadM.fail cause s') c' := .error ⟨rfl, hs⟩ hcounts

theorem fail_bind {cause : SyntaxCause} {s s' : Span} {f : α → ReadM γ} {g : β → ReadM δ} (hs : P.spans s s')
    (hcounts : P.counts c.nodes c'.nodes) :
    P.Paired d j S (ReadM.fail cause s >>= f) c (ReadM.fail cause s' >>= g) c' := .error ⟨rfl, hs⟩ hcounts

/-- Both runs complain of the same token. -/
theorem unexpected {wanted : Wanted} (ht : P.Tokens c.current c'.current) (hcounts : P.counts c.nodes c'.nodes) :
    P.Paired d j R (ReadM.unexpected wanted) c (ReadM.unexpected wanted) c' := by
  refine .get ?_
  simp only [ht.kind_eq]
  cases c.current.kind <;> exact .fail ht.span hcounts

/-- What both runs do may depend on whether a mark stands there. -/
theorem isAt {mark : Punctuation} {f : Bool → ReadM γ} {g : Bool → ReadM δ} (ht : P.Tokens c.current c'.current)
    (h : P.Paired d j S (f (c.isAt mark)) c (g (c.isAt mark)) c') :
    P.Paired d j S (isAt mark >>= f) c (isAt mark >>= g) c' := by
  unfold Paired
  rw [run_isAt, run_isAt, isAt_eq ht]
  exact h

/-- A mark stands at both cursors or at none. -/
theorem ifAt {mark : Punctuation} {m₁ m₂ : ReadM γ} {m₁' m₂' : ReadM δ} (ht : P.Tokens c.current c'.current)
    (hpos : c.current.kind = .punctuation mark → P.Paired d j S m₁ c m₁' c')
    (hneg : c.current.kind ≠ .punctuation mark → P.Paired d j S m₂ c m₂' c') :
    P.Paired d j S (ReadM.isAt mark >>= fun b => if b then m₁ else m₂) c
      (ReadM.isAt mark >>= fun b => if b then m₁' else m₂') c' :=
  .isAt ht (.ite (fun h => hpos (of_decide_eq_true h)) fun h => hneg fun hkind => h (decide_eq_true hkind))

end Paired

/-- Inside of brackets, both runs fail where a token is not what is wanted. -/
theorem paired_unexpected {wanted : Wanted} (h : P.cursors (d' + 1) i c c') :
    P.Paired d j R (unexpected wanted) c (unexpected wanted) c' :=
  .unexpected (P.current h) (P.counts_nodes h)

/-- A step that is bound to fail, with anything after it. -/
theorem paired_unexpected_bind {wanted : Wanted} {f : α → ReadM γ} {g : β → ReadM δ}
    (h : P.cursors (d' + 1) i c c') :
    P.Paired d j S (unexpected wanted >>= f) c (unexpected wanted >>= g) c' := by
  have hfail : P.Paired 0 0 (fun (_ : α) (_ : β) => False) (unexpected wanted) c (unexpected wanted) c' :=
    paired_unexpected h
  exact hfail.bind fun _ _ _ _ hfalse => hfalse.elim

/-! ## Names and dots -/

section Names

variable {n n' : Nat}

/-- A mark that is wanted is there for both runs or for none. -/
theorem paired_expect (mark : Punctuation) (h : P.cursors (d + 1) (j + 1) c c') :
    P.Paired (bracketsAfter (.punctuation mark) (d + 1)) j P.Tokens (expect mark) c (expect mark) c' :=
  .ifAt (P.current h) (fun hmark => .ok (P.current h) (take h hmark (by simp)))
    fun _ => paired_unexpected h

theorem paired_identifier (h : P.cursors (d + 1) (j + 1) c c') :
    P.Paired (d + 1) j P.Idents identifier c identifier c' := by
  have ht := P.current h
  refine .get ?_
  simp only [ht.kind_eq]
  cases hkind : c.current.kind with
  | identifier x => exact .advance (.pure ⟨rfl, ht.span⟩ (pass h hkind rfl))
  | _ => exact paired_unexpected h

/-- A loop takes a token in a turn, so bounds that are large enough for the tokens ahead leave it another turn. -/
theorem bounds_succ {k k' : Nat} (h : P.cursors (d + 1) j c c') (hk : j ≤ min k k') :
    ∃ i l l', j = i + 1 ∧ k = l + 1 ∧ k' = l' + 1 := by
  obtain ⟨i, rfl⟩ := P.exists_succ h
  exact ⟨i, k - 1, k' - 1, by omega⟩

/-- Names up to a bar are read in step. -/
theorem paired_namesUpToBar (h : P.cursors (d + 1) j c c') (hn : j ≤ min n n') {done done' : Array Ident}
    (hdone : List.Forall₂ P.Idents done.toList done'.toList) :
    P.Paired (d + 1) j (List.Forall₂ P.Idents) (namesUpToBar n done) c (namesUpToBar n' done') c' := by
  induction j using Nat.strong_induction_on generalizing n n' c c' done done' with
  | h j ih =>
    obtain ⟨i, n, n', rfl, rfl, rfl⟩ := bounds_succ h hn
    refine .ifAt (P.current h) (fun hbar => ?_) fun _ => ?_
    · have hnext := pass h hbar rfl
      exact .advance (.pure hdone (P.mono hnext (by omega)))
    · refine (paired_identifier h).bind fun x x' c₁ c₁' hx hc₁ => ?_
      exact (ih i (by omega) hc₁ (by omega) (forall₂_push hdone hx)).mono (by omega)

/-- Lists of variables are read alike. -/
theorem paired_variableList (h : P.cursors (d + 1) j c c') (hn : j ≤ min n n') :
    P.Paired (d + 1) j (List.Forall₂ P.Idents) (variableList n) c (variableList n') c' := by
  obtain ⟨i, rfl⟩ := P.exists_succ h
  refine .ifAt (P.current h) (fun hbar => ?_) fun _ => .pure .nil h
  have hnext := pass h hbar rfl
  exact .advance ((paired_namesUpToBar hnext (by omega) .nil).mono (by omega))

/-- Both runs pass the same dots. -/
theorem paired_skipDots (h : P.cursors (d + 1) j c c') (hn : j ≤ min n n') :
    P.Paired (d + 1) j (fun _ _ => True) (skipDots n) c (skipDots n') c' := by
  induction j using Nat.strong_induction_on generalizing n n' c c' with
  | h j ih =>
    obtain ⟨i, n, n', rfl, rfl, rfl⟩ := bounds_succ h hn
    refine .ifAt (P.current h) (fun hdot => ?_) fun _ => .pure trivial h
    have hnext := pass h hdot rfl
    exact .advance ((ih i (by omega) hnext (by omega)).mono (by omega))

/-- Both runs take the same parameters. -/
theorem paired_blockParams (h : P.cursors (d + 1) j c c') (hn : j ≤ min n n') {done done' : Array Ident}
    (hdone : List.Forall₂ P.Idents done.toList done'.toList) :
    P.Paired (d + 1) j (List.Forall₂ P.Idents) (blockParams n done) c (blockParams n' done') c' := by
  induction j using Nat.strong_induction_on generalizing n n' c c' done done' with
  | h j ih =>
    obtain ⟨i, n, n', rfl, rfl, rfl⟩ := bounds_succ h hn
    have ht := P.current h
    refine .get ?_
    simp only [ht.kind_eq]
    cases hkind : c.current.kind with
    | blockArgument x =>
      have hnext := pass h hkind rfl
      have hname : P.Idents ⟨x, c.current.span⟩ ⟨x, c'.current.span⟩ := ⟨rfl, ht.span⟩
      have hrest := ih i (by omega) hnext (by omega : i ≤ min n n') (forall₂_push hdone hname)
      exact .advance (hrest.mono (by omega))
    | _ => exact .pure hdone h

end Names

/-! ## Literals and operands -/

theorem paired_atomAt {value : Atom} {s s' : Span} (h : P.cursors (d + 1) j c c') (hs : P.spans s s') :
    P.Paired (d + 1) j P.Exprs (newNode s >>= fun info => pure (.atom info value)) c
      (newNode s' >>= fun info => pure (.atom info value)) c' :=
  .newNode h hs fun _ _ hinfo hc₁ => .pure (.atom hinfo) hc₁

theorem paired_atom {value : Atom} (h : P.cursors (d + 1) (j + 1) c c') {kind : TokenKind}
    (hkind : c.current.kind = kind) (hplain : kind.isPlain = true) :
    P.Paired (d + 1) j P.Exprs (atom value) c (atom value) c' :=
  .advance (paired_atomAt (pass h hkind hplain) (P.current h).span)

/-- Whether an integer is too large does not depend on where it stands. -/
theorem Paired.wordInteger {v : Int} {s s' : Span} {f : Atom → ReadM γ} {g : Atom → ReadM δ}
    (hs : P.spans s s') (hcounts : P.counts c.nodes c'.nodes) (h : ∀ a, P.Paired d j S (f a) c (g a) c') :
    P.Paired d j S (wordInteger v s >>= f) c (wordInteger v s' >>= g) c' := by
  unfold ReadM.wordInteger
  by_cases hword : -2147483648 ≤ v ∧ v ≤ 2147483647
  · rw [if_pos hword, if_pos hword, pure_bind, pure_bind]
    exact h _
  · rw [if_neg hword, if_neg hword]
    exact .fail_bind hs hcounts

/-- Negative numbers are read in step. -/
theorem paired_negative (h : P.cursors (d + 1) (j + 1) c c') (hminus : c.current.kind = .operator "-") :
    P.Paired (d + 1) j P.Exprs negative c negative c' := by
  have hnext := pass h hminus rfl
  have ht := P.current hnext
  have hspan := P.spans_merge (P.current h).span ht.span
  obtain ⟨i, rfl⟩ := P.exists_succ hnext
  refine .advance (.get ?_)
  simp only [ht.kind_eq]
  cases hkind : c.next.current.kind with
  | integer v =>
    have hrest := pass hnext hkind rfl
    refine .wordInteger hspan (P.counts_nodes hnext) fun a => .advance ?_
    exact (paired_atomAt hrest hspan).mono (by omega)
  | float bits =>
    have hrest := pass hnext hkind rfl
    simp only [pure_bind]
    exact .advance ((paired_atomAt hrest hspan).mono (by omega))
  | _ => exact paired_unexpected_bind hnext

/-- Both operands are expressions, or both are `super` without a message. -/
theorem paired_finish {o o' : Operand} (ho : P.Operands o o') (h : P.cursors d j c c') :
    P.Paired d j P.Exprs o.finish c o'.finish c' := by
  cases ho with
  | expr value => exact .pure value h
  | superWord span => exact .fail span (P.counts_nodes h)

/-- Alike messages to alike operands are alike. -/
theorem paired_send {o o' : Operand} {selector selector' : Selector} {arguments arguments' : List Expr}
    {last last' : Span} (ho : P.Operands o o') (hselector : P.Selectors selector selector')
    (harguments : List.Forall₂ P.Exprs arguments arguments') (hlast : P.spans last last')
    (h : P.cursors d j c c') :
    P.Paired d j P.Exprs (o.send selector arguments last) c (o'.send selector' arguments' last') c' := by
  refine .newNode h (P.spans_merge ho.span hlast) fun info info' hinfo hc₁ => ?_
  cases ho with
  | expr value => exact .pure (.send hinfo value hselector harguments) hc₁
  | superWord span => exact .pure (.superSend hinfo hselector harguments) hc₁

/-- Unary messages are read in step. -/
theorem paired_unaryMessages {k k' : Nat} {o o' : Operand} (ho : P.Operands o o')
    (h : P.cursors (d + 1) j c c') (hk : j ≤ min k k') :
    P.Paired (d + 1) j P.Operands (unaryMessages k o) c (unaryMessages k' o') c' := by
  induction j using Nat.strong_induction_on generalizing k k' c c' o o' with
  | h j ih =>
    obtain ⟨i, k, k', rfl, rfl, rfl⟩ := bounds_succ h hk
    have ht := P.current h
    refine .get ?_
    simp only [ht.kind_eq]
    cases hkind : c.current.kind with
    | identifier x =>
      have hnext := pass h hkind rfl
      have hname : P.Idents ⟨x, c.current.span⟩ ⟨x, c'.current.span⟩ := ⟨rfl, ht.span⟩
      have hsend := paired_send ho (.unary hname) .nil ht.span hnext
      refine .advance (hsend.bind fun e e' c₁ c₁' he hc₁ => ?_)
      exact (ih i (by omega) (.expr he) hc₁ (by omega)).mono (by omega)
    | _ => exact .pure ho h

theorem isPlain_of_isBinaryOperator {kind : TokenKind} (h : isBinaryOperator kind = true) :
    kind.isPlain = true := by
  unfold isBinaryOperator at h
  split at h
  · rfl
  · rfl
  · cases h

/-! ## Statements and bodies -/

/-- Two readers of nested expressions read alike where fewer than `m` tokens follow the first. -/
def Nested (P : Pairing) (inner inner' : ReadM Expr) (m : Nat) : Prop :=
  ∀ d j c c', P.cursors (d + 1) (j + 1) c c' → j < m → P.Paired (d + 1) j P.Exprs inner c inner' c'

section Nested

variable {m n n' : Nat} {inner inner' : ReadM Expr} (hinner : P.Nested inner inner' m)

include hinner

/-- Nested expressions are read in step. -/
theorem Nested.paired (h : P.cursors (d + 1) j c c') (hm : j ≤ m) :
    P.Paired (d + 1) (j - 1) P.Exprs inner c inner' c' := by
  obtain ⟨j, rfl⟩ := P.exists_succ h
  exact hinner d j c c' h hm

/-- Statements are read alike; in front of the last closing bracket there is none. -/
theorem paired_statement (h : P.cursors (d + 1) (j + 1) c c')
    (hhead : c.current.kind ≠ .punctuation .rightBracket ∨ 0 < d) (hm : j < m) :
    P.Paired (d + 1) j P.Exprs (statement inner) c (statement inner') c' := by
  have ht := P.current h
  refine .get ?_
  simp only [isAt_eq ht, P.following h hhead]
  refine .ite (fun hcaret => ?_) fun _ => .ite (fun hassign => ?_) fun _ => hinner _ _ _ _ h hm
  · have hnext := pass h (of_decide_eq_true hcaret) rfl
    refine .advance ((hinner.paired hnext (by omega)).bind fun e e' c₁ c₁' he hc₁ => ?_)
    refine .newNode hc₁ (P.spans_merge ht.span he.span) fun info info' hinfo hc₂ => ?_
    exact .pure (.ret hinfo he) (P.mono hc₂ (by omega))
  · refine .advance ?_
    simp only [ht.kind_eq]
    cases hkind : c.current.kind with
    | identifier x =>
      have hnext := pass h hkind rfl
      have hmark : c.next.current.kind = .punctuation .assign := by
        rw [Cursor.current_next (by simp [hkind]) (by simp [hkind, hassign]), hassign]
      obtain ⟨i, rfl⟩ := P.exists_succ hnext
      have hvalue := pass hnext hmark rfl
      refine .advance (.newNode hvalue ht.span fun target target' htarget hc₁ => ?_)
      refine (hinner.paired hc₁ (by omega)).bind fun e e' c₂ c₂' he hc₂ => ?_
      refine .newNode hc₂ (P.spans_merge ht.span he.span) fun info info' hinfo hc₃ => ?_
      exact .pure (.assign hinfo (.name htarget) he) (P.mono hc₃ (by omega))
    | _ => exact .fail ht.span (by simpa using P.counts_nodes h)

/-- Statements are read in step, from the dots before each to the end of the body. -/
theorem paired_statements {close : BodyEnd} {k k' : Nat}
    (h : P.cursors (d + 1) j c c') (hclose : close = .bracket ∨ 0 < d) (hm : j ≤ m) (hn : j ≤ min n n')
    (hk : j ≤ min k k') {done done' : Array Expr} (hdone : List.Forall₂ P.Exprs done.toList done'.toList) :
    P.Paired (d + 1) j (List.Forall₂ P.Exprs) (statements n inner close k done) c
      (statements n' inner' close k' done') c' := by
  induction j using Nat.strong_induction_on generalizing k k' c c' done done' with
  | h j ih =>
    obtain ⟨i, k, k', rfl, rfl, rfl⟩ := bounds_succ h hk
    refine (paired_skipDots h hn).bind fun _ _ c₁ c₁' _ hc₁ => .get ?_
    simp only [isAtEnd_eq (P.current hc₁)]
    refine .ite (fun _ => .pure hdone hc₁) fun hend => ?_
    have hhead : c₁.current.kind ≠ .punctuation .rightBracket ∨ 0 < d := by
      refine hclose.imp ?_ id
      rintro rfl hbracket
      exact hend (decide_eq_true hbracket)
    refine (paired_statement hinner hc₁ hhead (by omega)).bind fun e e' c₂ c₂' he hc₂ => ?_
    have hdone' := forall₂_push hdone he
    refine .ifAt (P.current hc₂) (fun _ => ?_) fun _ => .pure hdone' (P.mono hc₂ (by omega))
    exact (ih i (by omega) hc₂ (by omega) (by omega) (by omega) hdone').mono (by omega)

/-- Bodies are read alike. The end of the text closes one only inside of further brackets. -/
theorem paired_body {close : BodyEnd} (h : P.cursors (d + 1) j c c')
    (hclose : close = .bracket ∨ 0 < d) (hm : j ≤ m) (hn : j ≤ min n n') :
    P.Paired (d + 1) j P.Bodies (body n inner close) c (body n' inner' close) c' := by
  refine (paired_variableList h hn).bind fun xs xs' c₁ c₁' hxs hc₁ => ?_
  refine (paired_statements hinner hc₁ hclose hm hn hn .nil).bind fun es es' c₂ c₂' hes hc₂ => .get ?_
  simp only [isAtEnd_eq (P.current hc₂)]
  exact .ite (fun _ => .pure ⟨hxs, hes⟩ hc₂) fun _ => paired_unexpected hc₂

/-! ## Primary expressions -/

/-- Blocks are read in step; the bracket that closes one may be the last that both texts share. -/
theorem paired_block (h : P.cursors (d + 1) (j + 1) c c')
    (hopening : c.current.kind = .punctuation .leftBracket) (hm : j ≤ m) (hn : j ≤ min n n') :
    P.Paired (d + 1) j P.Exprs (block n inner) c (block n' inner') c' := by
  have ht := P.current h
  have hinside : P.cursors (d + 1 + 1) j c.next c'.next := take h hopening (by simp)
  refine .advance ((paired_blockParams hinside hn .nil).bind fun params params' c₁ c₁' hparams hc₁ => ?_)
  -- what follows the parameters is read in the same way whether or not there is a bar
  have hrest : ∀ {c₂ c₂' : Cursor}, P.cursors (d + 1 + 1) j c₂ c₂' → P.Paired (d + 1) j P.Exprs
      (do
        let body ← body n inner .bracket
        let close ← expect .rightBracket
        let info ← newNode (c.current.span.merge close.span)
        return Expr.block info params body.locals body.statements close.span) c₂
      (do
        let body ← body n' inner' .bracket
        let close ← expect .rightBracket
        let info ← newNode (c'.current.span.merge close.span)
        return Expr.block info params' body.locals body.statements close.span) c₂' := by
    intro c₂ c₂' hc₂
    refine (paired_body hinner hc₂ (.inl rfl) hm hn).bind fun b b' c₃ c₃' hb hc₃ => ?_
    obtain ⟨i, rfl⟩ := P.exists_succ hc₃
    refine (paired_expect .rightBracket hc₃).bind fun t t' c₄ c₄' hclose hc₄ => ?_
    refine .newNode hc₄ (P.spans_merge ht.span hclose.span) fun info info' hinfo hc₅ => ?_
    exact .pure (.block hinfo hparams hb.locals hb.statements hclose.span) (P.mono hc₅ (by omega))
  cases hparams with
  | nil => exact hrest hc₁
  | cons hx hxs =>
    refine .isAt (P.current hc₁) (.ite (fun _ => ?_) fun _ => hrest hc₁)
    obtain ⟨i, rfl⟩ := P.exists_succ hc₁
    refine (paired_expect .bar hc₁).bind fun _ _ c₂ c₂' _ hc₂ => ?_
    exact hrest (P.mono hc₂ (by omega))

/-- The elements of an array are read in step, up to the brace. -/
theorem paired_elements {k k' : Nat} (h : P.cursors (d + 1) j c c')
    (hm : j ≤ m) (hn : j ≤ min n n') (hk : j ≤ min k k') {done done' : Array Expr}
    (hdone : List.Forall₂ P.Exprs done.toList done'.toList) :
    P.Paired (d + 1) j (List.Forall₂ P.Exprs) (elements n inner k done) c (elements n' inner' k' done') c' := by
  induction j using Nat.strong_induction_on generalizing k k' c c' done done' with
  | h j ih =>
    obtain ⟨i, k, k', rfl, rfl, rfl⟩ := bounds_succ h hk
    refine (paired_skipDots h hn).bind fun _ _ c₁ c₁' _ hc₁ => ?_
    refine .ifAt (P.current hc₁) (fun _ => .pure hdone hc₁) fun _ => ?_
    refine (hinner _ _ _ _ hc₁ (by omega)).bind fun e e' c₂ c₂' he hc₂ => ?_
    have ht := P.current hc₂
    refine .isAt ht (.isAt ht (.ite (fun _ => ?_) fun _ => paired_unexpected hc₂))
    exact (ih i (by omega) hc₂ (by omega) (by omega) (by omega) (forall₂_push hdone he)).mono (by omega)

theorem paired_array (h : P.cursors (d + 1) (j + 1) c c')
    (hopening : c.current.kind = .punctuation .leftBrace) (hm : j ≤ m) (hn : j ≤ min n n') :
    P.Paired (d + 1) j P.Exprs (array n inner) c (array n' inner') c' := by
  have hnext := pass h hopening rfl
  refine .advance ((paired_elements hinner hnext hm hn hn .nil).bind_run ?_)
  intro es es' c₁ c₁' hes hc₁ hrun
  obtain ⟨_, -, hread⟩ := elements_eq_ok_iff.mp hrun
  obtain ⟨i, rfl⟩ := P.exists_succ hc₁
  have hc₂ := pass hc₁ (of_decide_eq_true hread.isAt) rfl
  refine .advance (.newNode hc₂ (P.spans_merge (P.current h).span (P.current hc₁).span) ?_)
  exact fun info info' hinfo hc₃ => .pure (.array hinfo hes) (P.mono hc₃ (by omega))

/-- Primary expressions are read alike. -/
theorem paired_primary (h : P.cursors (d + 1) (j + 1) c c') (hm : j ≤ m)
    (hn : j ≤ min n n') : P.Paired (d + 1) j P.Exprs (primary n inner) c (primary n' inner') c' := by
  have ht := P.current h
  have hcounts := P.counts_nodes h
  refine .get ?_
  dsimp only
  rw [ht.kind_eq]
  cases hkind : c.current.kind with
  | integer v =>
    have hnext := pass h hkind rfl
    exact .advance (.wordInteger ht.span (P.counts_nodes hnext) fun a => paired_atomAt hnext ht.span)
  | character ch =>
    have hnext := pass h hkind rfl
    refine .advance (.ite (fun _ => .fail ht.span (P.counts_nodes hnext)) fun _ => ?_)
    exact paired_atomAt hnext ht.span
  | identifier x =>
    have hnext := pass h hkind rfl
    exact .advance (.newNode hnext ht.span fun _ _ hinfo hc₁ => .pure (.name hinfo) hc₁)
  | float bits => exact paired_atom h hkind rfl
  | string text => exact paired_atom h hkind rfl
  | reserved word =>
    cases word with
    | superWord => exact paired_unexpected h
    | _ => exact paired_atom h hkind rfl
  | operator op =>
    refine .ite (fun hop => ?_) fun _ => paired_unexpected h
    exact paired_negative h (by rw [hkind, hop])
  | punctuation mark =>
    cases mark with
    | leftParen =>
      have hnext := pass h hkind rfl
      refine .advance ((hinner.paired hnext hm).bind fun e e' c₁ c₁' he hc₁ => ?_)
      obtain ⟨i, hi⟩ := P.exists_succ hc₁
      rw [hi] at hc₁
      refine (paired_expect .rightParen hc₁).bind fun _ _ c₂ c₂' _ hc₂ => ?_
      exact .pure he (P.mono hc₂ (by omega))
    | leftBracket => exact paired_block hinner h hkind hm hn
    | leftBrace => exact paired_array hinner h hkind hm hn
    | caret => exact .fail ht.span hcounts
    | _ => exact paired_unexpected h
  | symbol x => exact .fail ht.span hcounts
  | _ => exact paired_unexpected h

/-! ## Messages -/

theorem paired_unaryOperand (h : P.cursors (d + 1) (j + 1) c c')
    (hm : j ≤ m) (hn : j ≤ min n n') :
    P.Paired (d + 1) j P.Operands (unaryOperand n inner) c (unaryOperand n' inner') c' := by
  have ht := P.current h
  refine .get ?_
  simp only [ht.kind_eq]
  refine .ite (fun hsuper => ?_) fun _ => ?_
  · have hnext := pass h hsuper rfl
    exact .advance (paired_unaryMessages (.superWord ht.span) hnext hn)
  · refine (paired_primary hinner h hm hn).bind fun e e' c₁ c₁' he hc₁ => ?_
    exact paired_unaryMessages (.expr he) hc₁ hn

/-- Binary messages are read in step. -/
theorem paired_binaryMessages {k k' : Nat} {o o' : Operand}
    (ho : P.Operands o o') (h : P.cursors (d + 1) j c c') (hm : j ≤ m) (hn : j ≤ min n n') (hk : j ≤ min k k') :
    P.Paired (d + 1) j P.Operands (binaryMessages n inner k o) c (binaryMessages n' inner' k' o') c' := by
  induction j using Nat.strong_induction_on generalizing k k' c c' o o' with
  | h j ih =>
    obtain ⟨i, k, k', rfl, rfl, rfl⟩ := bounds_succ h hk
    have ht := P.current h
    refine .get ?_
    simp only [ht.kind_eq]
    refine .ite (fun hoperator => ?_) fun _ => .pure ho h
    have hnext := pass h rfl (isPlain_of_isBinaryOperator hoperator)
    obtain ⟨i, rfl⟩ := P.exists_succ hnext
    refine .advance ((paired_unaryOperand hinner hnext (by omega) (by omega)).bind fun o₁ o₁' c₁ c₁' ho₁ hc₁ => ?_)
    refine (paired_finish ho₁ hc₁).bind fun e e' c₂ c₂' he hc₂ => ?_
    have hselector : P.Selectors (.binary ⟨c.current.lexeme, c.current.span⟩)
        (.binary ⟨c'.current.lexeme, c'.current.span⟩) := .binary ⟨ht.lexeme_eq, ht.span⟩
    refine (paired_send ho hselector (.cons he .nil) he.span hc₂).bind fun e e' c₃ c₃' he hc₃ => ?_
    exact (ih i (by omega) (.expr he) hc₃ (by omega) (by omega) (by omega)).mono (by omega)

theorem paired_binaryOperand (h : P.cursors (d + 1) (j + 1) c c')
    (hm : j ≤ m) (hn : j ≤ min n n') :
    P.Paired (d + 1) j P.Operands (binaryOperand n inner) c (binaryOperand n' inner') c' := by
  refine (paired_unaryOperand hinner h hm hn).bind fun o o' c₁ c₁' ho hc₁ => ?_
  exact paired_binaryMessages hinner ho hc₁ hm hn hn

/-! ## Expressions -/

/-- Keywords and their arguments are read in step. -/
theorem paired_keywordParts {k k' : Nat} {parts parts' : Array KeywordPart}
    {arguments arguments' : Array Expr} (hparts : List.Forall₂ P.Parts parts.toList parts'.toList)
    (harguments : List.Forall₂ P.Exprs arguments.toList arguments'.toList) (h : P.cursors (d + 1) j c c')
    (hm : j ≤ m) (hn : j ≤ min n n') (hk : j ≤ min k k') :
    P.Paired (d + 1) j (fun r r' => List.Forall₂ P.Parts r.1 r'.1 ∧ List.Forall₂ P.Exprs r.2 r'.2)
      (keywordParts n inner k parts arguments) c (keywordParts n' inner' k' parts' arguments') c' := by
  induction j using Nat.strong_induction_on generalizing k k' c c' parts parts' arguments arguments' with
  | h j ih =>
    obtain ⟨i, k, k', rfl, rfl, rfl⟩ := bounds_succ h hk
    have ht := P.current h
    refine .get ?_
    simp only [ht.kind_eq]
    cases hkind : c.current.kind with
    | keyword word =>
      have hnext := pass h hkind rfl
      obtain ⟨i, rfl⟩ := P.exists_succ hnext
      refine .advance ((paired_binaryOperand hinner hnext (by omega) (by omega)).bind fun o o' c₁ c₁' ho hc₁ => ?_)
      refine (paired_finish ho hc₁).bind fun e e' c₂ c₂' he hc₂ => ?_
      have hparts' := forall₂_push hparts (a := ⟨⟨word, c.current.span⟩, c.current.span.merge e.span⟩)
        (b := ⟨⟨word, c'.current.span⟩, c'.current.span.merge e'.span⟩)
        ⟨⟨rfl, ht.span⟩, P.spans_merge ht.span he.span⟩
      refine (ih i (by omega) hparts' (forall₂_push harguments he) hc₂ ?_ ?_ ?_).mono (by omega) <;> omega
    | _ => exact .pure ⟨hparts, harguments⟩ h

/-- Expressions are read in step if those nested in them are. -/
theorem nested_expressionWith (hn : m < min n n') :
    P.Nested (expressionWith n inner) (expressionWith n' inner') (m + 1) := by
  intro d j c c' h hm
  refine (paired_binaryOperand hinner h (by omega) (by omega)).bind fun o o' c₁ c₁' ho hc₁ => ?_
  refine (paired_keywordParts hinner .nil .nil hc₁ (by omega) (by omega) (by omega)).bind ?_
  rintro ⟨parts, arguments⟩ ⟨parts', arguments'⟩ c₂ c₂' ⟨hparts, harguments⟩ hc₂
  have hlast := forall₂_getLast? hparts
  dsimp only
  generalize parts.getLast? = last, parts'.getLast? = last' at hlast
  cases hlast with
  | none => exact paired_finish ho hc₂
  | some hpart => exact paired_send ho (.keyword hparts) harguments hpart.span hc₂

end Nested

/-- Expressions are read alike, whatever the bounds for tokens and levels of nesting, if they are large enough. -/
theorem nested_expressionAt {m n n' : Nat} (depth depth' : Nat) (hm : m ≤ min (min n depth) (min n' depth')) :
    P.Nested (expressionAt n depth) (expressionAt n' depth') m := by
  induction depth generalizing depth' m with
  | zero =>
    intro d j c c' h hj
    omega
  | succ depth ih =>
    intro d j c c' h hj
    obtain ⟨depth', rfl⟩ := Nat.exists_eq_succ_of_ne_zero (by omega : depth' ≠ 0)
    obtain ⟨m, rfl⟩ := Nat.exists_eq_succ_of_ne_zero (by omega : m ≠ 0)
    exact nested_expressionWith (ih depth' (by omega)) (by omega) d j c c' h hj

/-- Expressions are read in step, however deep they are nested. -/
theorem nested_expressionWithin (n n' : Nat) :
    P.Nested (expressionWithin n) (expressionWithin n') (min n n') :=
  nested_expressionAt (n + 1) (n' + 1) (by omega)

/-! ## Methods and classes -/

section Classes

variable {n n' : Nat}

theorem paired_keywordHeader {k k' : Nat} {word word' : Ident} (hword : P.Idents word word')
    {params params' : Array Ident} (hparams : List.Forall₂ P.Idents params.toList params'.toList)
    (h : P.cursors (d + 1) j c c') (hk : j ≤ min k k') :
    P.Paired (d + 1) j (fun r r' => P.Idents r.1 r'.1 ∧ List.Forall₂ P.Idents r.2 r'.2)
      (keywordHeader k word params) c (keywordHeader k' word' params') c' := by
  induction j using Nat.strong_induction_on generalizing k k' c c' word word' params params' with
  | h j ih =>
    obtain ⟨i, k, k', rfl, rfl, rfl⟩ := bounds_succ h hk
    have ht := P.current h
    refine .get ?_
    simp only [ht.kind_eq]
    cases hkind : c.current.kind with
    | keyword keyword =>
      have hnext := pass h hkind rfl
      obtain ⟨i, rfl⟩ := P.exists_succ hnext
      refine .advance ((paired_identifier hnext).bind fun x x' c₁ c₁' hx hc₁ => ?_)
      have hword' : P.Idents ⟨word.name ++ keyword, word.span.merge c.current.span⟩
          ⟨word'.name ++ keyword, word'.span.merge c'.current.span⟩ :=
        ⟨by rw [hword.name_eq], P.spans_merge hword.span ht.span⟩
      exact (ih i (by omega) hword' (forall₂_push hparams hx) hc₁ (by omega)).mono (by omega)
    | _ => exact .pure ⟨hword, hparams⟩ h

/-- The head of a method is read in step. -/
theorem paired_methodHeader (h : P.cursors (d + 1) j c c') (hn : j ≤ min n n') :
    P.Paired (d + 1) j (fun r r' => P.Idents r.1 r'.1 ∧ List.Forall₂ P.Idents r.2 r'.2)
      (methodHeader n) c (methodHeader n') c' := by
  obtain ⟨i, rfl⟩ := P.exists_succ h
  have ht := P.current h
  have hbinary : P.cursors (d + 1) i c.next c'.next →
      P.Paired (d + 1) (i + 1) (fun r r' => P.Idents r.1 r'.1 ∧ List.Forall₂ P.Idents r.2 r'.2)
        (do
          let _ ← advance
          let param ← identifier
          return (⟨c.current.lexeme, c.current.span⟩, [param])) c
        (do
          let _ ← advance
          let param ← identifier
          return (⟨c'.current.lexeme, c'.current.span⟩, [param])) c' := by
    intro hnext
    obtain ⟨i, rfl⟩ := P.exists_succ hnext
    refine .advance ((paired_identifier hnext).bind fun x x' c₁ c₁' hx hc₁ => ?_)
    exact .pure ⟨⟨ht.lexeme_eq, ht.span⟩, .cons hx .nil⟩ (P.mono hc₁ (by omega))
  refine .get ?_
  simp only [ht.kind_eq]
  cases hkind : c.current.kind with
  | identifier x =>
    have hnext := pass h hkind rfl
    have hname : P.Idents ⟨x, c.current.span⟩ ⟨x, c'.current.span⟩ := ⟨rfl, ht.span⟩
    exact .advance (.pure ⟨hname, .nil⟩ (P.mono hnext (by omega)))
  | operator op => exact hbinary (pass h hkind rfl)
  | punctuation mark =>
    cases mark with
    | bar => exact hbinary (pass h hkind rfl)
    | _ => exact paired_unexpected h
  | keyword word =>
    have hname : P.Idents ⟨"", c.current.span⟩ ⟨"", c'.current.span⟩ := ⟨rfl, ht.span⟩
    exact paired_keywordHeader hname .nil h hn
  | _ => exact paired_unexpected h

/-- The rest of the pragma of a primitive, after the operator that opens it. -/
theorem paired_pragma (h : P.cursors (d + 1) j c c') :
    let pragma : ReadM (MethodBody × Span) := do
      if (← get).current.kind = .keyword "primitive:" then
        let _ ← advance
      else unexpected .primitiveKeyword
      match (← get).current.kind with
      | .symbol name =>
        let token ← advance
        if (← get).current.kind = .operator ">" then
          let close ← advance
          return (.primitive ⟨name, token.span⟩, close.span)
        else unexpected .primitiveClose
      | _ => unexpected .primitiveName
    P.Paired (d + 1) j (fun r r' => P.MethodBodies r.1 r'.1 ∧ P.spans r.2 r'.2) pragma c pragma c' := by
  obtain ⟨i, rfl⟩ := P.exists_succ h
  refine .get ?_
  simp only [(P.current h).kind_eq]
  refine .ite (fun hword => ?_) fun _ => paired_unexpected_bind h
  have hname := pass h hword rfl
  have ht := P.current hname
  obtain ⟨i, rfl⟩ := P.exists_succ hname
  refine .advance (.get ?_)
  simp only [ht.kind_eq]
  cases hkind : c.next.current.kind with
  | symbol x =>
    have hclose := pass hname hkind rfl
    have ht' := P.current hclose
    obtain ⟨i, rfl⟩ := P.exists_succ hclose
    refine .advance (.get ?_)
    simp only [ht'.kind_eq]
    refine .ite (fun hop => ?_) fun _ => paired_unexpected hclose
    have hrest := pass hclose hop rfl
    exact .advance (.pure ⟨.primitive ⟨rfl, ht.span⟩, ht'.span⟩ (P.mono hrest (by omega)))
  | _ => exact paired_unexpected hname

/-- The body of a method is read in step, and so is the pragma of a primitive. -/
theorem paired_methodBody (h : P.cursors (d + 1) (j + 1) c c') (hn : j ≤ min n n') :
    P.Paired (d + 1) j (fun r r' => P.MethodBodies r.1 r'.1 ∧ P.spans r.2 r'.2) (methodBody n) c
      (methodBody n') c' := by
  refine .get ?_
  simp only [(P.current h).kind_eq]
  cases hkind : c.current.kind with
  | punctuation mark =>
    cases mark with
    | leftBracket =>
      have hinside : P.cursors (d + 1 + 1) j c.next c'.next := take h hkind (by simp)
      have hinner : P.Nested (expressionWithin n) (expressionWithin n') (min n n') := nested_expressionWithin n n'
      refine .advance ((paired_body hinner hinside (.inl rfl) hn hn).bind fun b b' c₁ c₁' hb hc₁ => ?_)
      obtain ⟨i, rfl⟩ := P.exists_succ hc₁
      refine (paired_expect .rightBracket hc₁).bind fun t t' c₂ c₂' hclose hc₂ => ?_
      exact .pure ⟨.code hb, hclose.span⟩ (P.mono hc₂ (by omega))
    | _ => exact paired_unexpected h
  | operator op =>
    by_cases hop : op = "<"
    · subst hop
      have hnext := pass h hkind rfl
      exact .advance (paired_pragma hnext)
    · split
      · next heq => cases heq
      · next heq => exact absurd (TokenKind.operator.inj heq) hop
      · exact paired_unexpected h
  | _ => exact paired_unexpected h

/-- What follows the mark of the class side is read in the same way whether or not there is one. -/
theorem paired_methodTail {side : Bool} {start start' : Span} (hstart : P.spans start start')
    (h : P.cursors (d + 1) (j + 1) c c') (hn : j < min n n') :
    let tail (n : Nat) (start : Span) : ReadM MethodDef := do
      let header ← methodHeader n
      let block ← methodBody n
      return ⟨header.1, header.2, side, block.1, start.merge block.2, block.2⟩
    P.Paired (d + 1) j P.Methods (tail n start) c (tail n' start') c' := by
  refine (paired_methodHeader h (by omega)).bind fun header header' c₁ c₁' hheader hc₁ => ?_
  refine (paired_methodBody hc₁ (by omega)).bind fun block block' c₂ c₂' hblock hc₂ => ?_
  exact .pure ⟨hheader.1, hheader.2, rfl, hblock.1, P.spans_merge hstart hblock.2, hblock.2⟩ hc₂

/-- Methods are read alike; in front of the last closing bracket there is none. -/
theorem paired_method (h : P.cursors (d + 1) (j + 1) c c')
    (hhead : c.current.kind ≠ .punctuation .rightBracket) (hn : j < min n n') :
    P.Paired (d + 1) j P.Methods (method n) c (method n') c' := by
  have ht := P.current h
  refine .get ?_
  simp only [ht.kind_eq, P.following h (.inl hhead)]
  refine .ite (fun hside => ?_) fun _ => paired_methodTail ht.span h hn
  have hword : c.current.kind = .identifier "class" := of_decide_eq_true (Bool.and_eq_true_iff.mp hside).1
  have hnext := pass h hword rfl
  exact .advance (paired_methodTail ht.span (P.mono hnext (by omega)) hn)

/-- Methods are read in step, up to the bracket that closes the class. -/
theorem paired_methods {k k' : Nat} {done done' : Array MethodDef}
    (hdone : List.Forall₂ P.Methods done.toList done'.toList) (h : P.cursors (d + 1) j c c')
    (hn : j ≤ min n n') (hk : j ≤ min k k') :
    P.Paired (d + 1) j (List.Forall₂ P.Methods) (methods n k done) c (methods n' k' done') c' := by
  induction j using Nat.strong_induction_on generalizing k k' c c' done done' with
  | h j ih =>
    obtain ⟨i, k, k', rfl, rfl, rfl⟩ := bounds_succ h hk
    have ht := P.current h
    refine .get ?_
    simp only [isAt_eq ht, isFinish_eq ht]
    refine .ite (fun _ => .pure hdone h) fun hend => ?_
    have hhead : c.current.kind ≠ .punctuation .rightBracket :=
      fun hbracket => hend (Bool.or_eq_true_iff.mpr (.inl (decide_eq_true hbracket)))
    refine (paired_method h hhead (by omega)).bind fun m m' c₁ c₁' hm hc₁ => ?_
    exact (ih i (by omega) (forall₂_push hdone hm) hc₁ (by omega) (by omega)).mono (by omega)

theorem paired_expect_opening (h : P.heads (j + 1) c c') :
    P.Paired 1 j P.Tokens (expect .leftBracket) c (expect .leftBracket) c' := by
  have ht := P.heads_current h
  refine .ifAt ht (fun hbracket => ?_) fun _ => .unexpected ht (P.heads_counts_nodes h)
  exact .ok ht (P.heads_opening h hbracket)

/-- Classes are read alike, from their first tokens to the brackets that close them. -/
theorem paired_classDef (h : P.heads j c c') (hclass : c.isAtClass = true) (hn : j ≤ min n n') :
    P.Paired 0 j P.Classes (classDef n) c (classDef n') c' := by
  have ht := P.heads_current h
  obtain ⟨hne, hbracket, hword⟩ := Cursor.kinds_of_isAtClass hclass
  obtain ⟨i, rfl⟩ := P.heads_exists_succ h
  have hnext := P.heads_next h hne hbracket
  obtain ⟨i, rfl⟩ := P.heads_exists_succ hnext
  have hname := P.heads_next hnext (by simp [hword]) (by simp [hword])
  have ht' := P.heads_current hname
  obtain ⟨i, rfl⟩ := P.heads_exists_succ hname
  refine .advance (.advance (.get ?_))
  simp only [ht'.kind_eq]
  cases hkind : c.next.next.current.kind with
  | symbol x =>
    have hopening := P.heads_next hname (by simp [hkind]) (by simp [hkind])
    obtain ⟨i, rfl⟩ := P.heads_exists_succ hopening
    refine .advance ((paired_expect_opening hopening).bind fun _ _ c₁ c₁' _ hc₁ => ?_)
    refine (paired_variableList hc₁ (by omega)).bind fun fs fs' c₂ c₂' hfields hc₂ => ?_
    refine (paired_methods .nil hc₂ (by omega) (by omega)).bind fun ms ms' c₃ c₃' hmethods hc₃ => ?_
    obtain ⟨i, rfl⟩ := P.exists_succ hc₃
    refine (paired_expect .rightBracket hc₃).bind fun t t' c₄ c₄' hclose hc₄ => ?_
    have hspan := P.spans_merge ht.span hclose.span
    refine .pure ⟨⟨rfl, ht'.span⟩, ?_, hfields, hmethods, hspan⟩ (P.mono hc₄ (by omega))
    rw [ht.kind_eq]
    cases c.current.kind with
    | identifier x => exact .some ⟨rfl, ht.span⟩
    | _ => exact .none
  | _ => exact .unexpected ht' (P.heads_counts_nodes hname)

end Classes

end Pairing

end Smalltalk
