import Mathlib
import Smalltalk.Proofs.DefinitionSteps
import Smalltalk.Proofs.Trees

/-!
# Reading builds well-formed trees

Whatever a reader succeeds with has been built between the node count it started from and the one
it ended with. A reader for nested expressions is only known by this, so the statement about whole
expressions follows by induction on the level of nesting.
-/

namespace Smalltalk.ReadM

open Smalltalk.Expr

variable {c c' : Cursor}

/-! ## Steps that build nothing -/

/-- Nothing but tokens has been taken between two cursors. -/
inductive Moved : Cursor → Cursor → Prop where
  | refl (c : Cursor) : Moved c c
  | next {c c' : Cursor} : Moved c c' → Moved c c'.next

theorem Moved.trans {c'' : Cursor} (h : Moved c c') (h' : Moved c' c'') : Moved c c'' := by
  induction h' with
  | refl => exact h
  | next _ ih => exact .next ih

theorem Moved.nodes_eq (h : Moved c c') : c'.nodes = c.nodes := by
  induction h with
  | refl => rfl
  | next _ ih => rw [Cursor.nodes_next, ih]

/-- What has moved from the next token on has moved from the current one. -/
theorem Moved.of_next (h : Moved c.next c') : Moved c c' := (Moved.next (.refl c)).trans h

theorem EachTaken.moved {α : Type} {P : Token → α → Prop} {as : List α} (h : EachTaken P c as c') :
    Moved c c' := by
  induction h with
  | nil => exact .refl _
  | cons _ _ ih => exact ih.of_next

theorem VariablesRead.moved {n : Nat} {xs : List Ident} (h : VariablesRead n c xs c') : Moved c c' := by
  cases h with
  | none => exact .refl c
  | some _ names _ => exact names.moved.next.of_next

theorem DotsPassed.moved {n : Nat} (h : DotsPassed n c c') : Moved c c' := by
  induction h with
  | stop => exact .refl _
  | dot _ _ ih => exact ih.of_next

theorem BarPassed.moved {xs : List Ident} (h : BarPassed xs c c') : Moved c c' := by
  cases h with
  | none | closed => exact .refl c
  | bar => exact .next (.refl c)

theorem KeywordHeaderRead.moved {k : Nat} {word selector : Ident} {xs : List Ident}
    (h : KeywordHeaderRead k c word selector xs c') : Moved c c' := by
  induction h with
  | out | stop => exact .refl _
  | cons _ _ _ ih => exact ih.of_next.of_next

theorem MethodHeaderRead.moved {n : Nat} {selector : Ident} {xs : List Ident}
    (h : MethodHeaderRead n c selector xs c') : Moved c c' := by
  cases h with
  | unary => exact .next (.refl c)
  | binary => exact .next (.next (.refl c))
  | keyword _ words => exact words.moved

/-! ## Literals and messages -/

section Values

variable {n : Nat} {inner : ReadM Expr} {e : Expr}

theorem StandsFor.isProper {kind : TokenKind} {value : Atom} (h : StandsFor kind value) (info : NodeInfo) :
    (Expr.atom info value).IsProper := by
  cases h with
  | character narrow => exact narrow
  | _ => trivial

theorem StandsForNegative.isProper {kind : TokenKind} {value : Atom} (h : StandsForNegative kind value)
    (info : NodeInfo) : (Expr.atom info value).IsProper := by
  cases h <;> trivial

/-- The expressions in an operand: `super` is none. -/
def operandParts : Operand → List Expr
  | .expr e => [e]
  | .superWord _ => []

/-- A message is built over its receiver and its arguments. -/
theorem builtValues_message {operand : Operand} {selector : Selector} {arguments : List Expr} {span : Span}
    {a b : Nat} (hparts : BuiltValues a b (operandParts operand ++ arguments))
    (hkeyword : ∀ parts, selector = .keyword parts → parts ≠ [] ∧ parts.length = arguments.length) :
    BuiltValues a (b + 1) [operand.message ⟨b, span⟩ selector arguments] := by
  cases operand with
  | expr receiver =>
    refine .node hparts rfl ?_ rfl
    cases selector with
    | keyword parts => exact hkeyword parts rfl
    | _ => trivial
  | superWord => exact .node hparts rfl trivial rfl

theorem UnaryMessagesRead.builtValues {operand result : Operand} {k a : Nat}
    (hparts : BuiltValues a c.nodes (operandParts operand)) (h : UnaryMessagesRead k c operand result c') :
    BuiltValues a c'.nodes (operandParts result) := by
  induction h with
  | stop => exact hparts
  | message word rest ih =>
    refine ih ?_
    rw [Cursor.nodes_numbered, Cursor.nodes_next]
    rw [← List.append_nil (operandParts _)] at hparts
    exact builtValues_message hparts (fun _ => Selector.noConfusion)

/-! ## Values -/

/-- A step that reads an expression which is no statement. -/
def ReadsValue (m : ReadM Expr) : Prop :=
  ∀ c e c', m c = .ok e c' → BuiltValues c.nodes c'.nodes [e]

variable (hinner : ReadsValue inner)

include hinner

/-- A statement is built like an expression, but may be an assignment or a return. -/
theorem StatementRead.built (h : StatementRead inner c e c') :
    Built c.nodes c'.nodes [e] := by
  cases h with
  | ret _ value =>
    have hvalue := hinner _ _ _ value
    rw [Cursor.nodes_next] at hvalue
    exact hvalue.built.node rfl (fun _ => hvalue.isValue) trivial
  | @assign x e c₁ _ _ value =>
    have htarget : BuiltValues c.nodes (c.nodes + 1) [.name ⟨c.nodes, c.current.span⟩ x] :=
      .node (.nil _) rfl trivial rfl
    have hvalue := hinner _ _ _ value
    rw [Cursor.nodes_numbered, Cursor.nodes_next, Cursor.nodes_next] at hvalue
    have hparts := htarget.append hvalue
    exact hparts.built.node rfl (fun _ => hparts.isValue) rfl
  | expression value => exact (hinner _ _ _ value).built

theorem StatementsRead.built {close : BodyEnd} {k : Nat} {es : List Expr}
    (h : StatementsRead n inner close k c es c') : Built c.nodes c'.nodes es := by
  induction h with
  | out => exact .nil _
  | finish dots =>
    rw [dots.moved.nodes_eq]
    exact .nil _
  | last dots head =>
    rw [← dots.moved.nodes_eq]
    exact head.built hinner
  | cons dots head _ _ _ ih =>
    rw [← dots.moved.nodes_eq]
    exact (head.built hinner).append ih

theorem BodyRead.built {close : BodyEnd} {b : Body}
    (h : BodyRead n inner close c b c') : Built c.nodes c'.nodes b.statements := by
  cases h with
  | mk locals statements =>
    rw [← locals.moved.nodes_eq]
    exact statements.built hinner

theorem BlockRead.builtValues (h : BlockRead n inner c e c') :
    BuiltValues c.nodes c'.nodes [e] := by
  cases h with
  | @mk xs b c₁ c₂ c₃ params bar body _ =>
    have hbody := body.built hinner
    rw [(params.taken.moved.of_next.trans bar.moved).nodes_eq] at hbody
    rw [Cursor.nodes_numbered, Cursor.nodes_next]
    exact ⟨hbody.node rfl (fun hblock => absurd hblock (by simp [isBlock])) trivial, by simp [isStatement]⟩

theorem ElementsRead.builtValues {k : Nat} {es : List Expr}
    (h : ElementsRead n inner k c es c') : BuiltValues c.nodes c'.nodes es := by
  induction h with
  | finish dots =>
    rw [dots.moved.nodes_eq]
    exact .nil _
  | cons dots head _ _ _ ih =>
    rw [← dots.moved.nodes_eq]
    exact (hinner _ _ _ head).append ih

theorem ArrayRead.builtValues (h : ArrayRead n inner c e c') :
    BuiltValues c.nodes c'.nodes [e] := by
  cases h with
  | mk items =>
    have hitems := items.builtValues hinner
    rw [Cursor.nodes_next] at hitems
    rw [Cursor.nodes_numbered, Cursor.nodes_next]
    exact .node hitems rfl trivial rfl

theorem PrimaryRead.builtValues (h : PrimaryRead n inner c e c') :
    BuiltValues c.nodes c'.nodes [e] := by
  cases h with
  | literal token =>
    rw [Cursor.nodes_numbered, Cursor.nodes_next]
    exact .node (.nil _) rfl (token.isProper _) rfl
  | negative _ number =>
    rw [Cursor.nodes_numbered, Cursor.nodes_next, Cursor.nodes_next]
    exact .node (.nil _) rfl (number.isProper _) rfl
  | name =>
    rw [Cursor.nodes_numbered, Cursor.nodes_next]
    exact .node (.nil _) rfl trivial rfl
  | parentheses _ nested =>
    have hnested := hinner _ _ _ nested
    rw [Cursor.nodes_next] at hnested ⊢
    exact hnested
  | block _ block => exact block.builtValues hinner
  | array _ array => exact array.builtValues hinner

/-! ## Messages -/

theorem UnaryOperandRead.builtValues {operand : Operand}
    (h : UnaryOperandRead n inner c operand c') : BuiltValues c.nodes c'.nodes (operandParts operand) := by
  cases h with
  | super _ messages =>
    refine messages.builtValues ?_
    rw [Cursor.nodes_next]
    exact .nil _
  | primary head messages => exact messages.builtValues (head.builtValues hinner)

theorem BinaryMessagesRead.builtValues {operand result : Operand} {k a : Nat}
    (hparts : BuiltValues a c.nodes (operandParts operand))
    (h : BinaryMessagesRead n inner k c operand result c') : BuiltValues a c'.nodes (operandParts result) := by
  induction h with
  | stop => exact hparts
  | message _ argument _ ih =>
    have hargument := argument.builtValues hinner
    rw [Cursor.nodes_next] at hargument
    exact ih (builtValues_message (hparts.append hargument) (fun _ => Selector.noConfusion))

theorem BinaryOperandRead.builtValues {operand : Operand}
    (h : BinaryOperandRead n inner c operand c') : BuiltValues c.nodes c'.nodes (operandParts operand) := by
  cases h with
  | mk head messages => exact messages.builtValues hinner (head.builtValues hinner)

theorem KeywordPartsRead.builtValues {k : Nat} {parts : List (KeywordPart × Expr)}
    (h : KeywordPartsRead n inner k c parts c') : BuiltValues c.nodes c'.nodes (parts.map (·.2)) := by
  induction h with
  | nil => exact .nil _
  | cons _ argument _ ih =>
    have hargument := argument.builtValues hinner
    rw [Cursor.nodes_next] at hargument
    exact hargument.append ih

theorem ExpressionRead.builtValues (h : ExpressionRead n inner c e c') :
    BuiltValues c.nodes c'.nodes [e] := by
  cases h with
  | plain head => exact head.builtValues hinner
  | @keywords operand parts last c₁ c₂ head messages isLast =>
    refine builtValues_message ((head.builtValues hinner).append (messages.builtValues hinner)) ?_
    rintro _ ⟨rfl⟩
    refine ⟨fun hnil => ?_, by rw [List.length_map, List.length_map]⟩
    rw [hnil] at isLast
    cases isLast

end Values

/-- An expression at any level of nesting is built between the node counts around it. -/
theorem readsValue_expressionAt (n depth : Nat) : ReadsValue (expressionAt n depth) := by
  induction depth with
  | zero => exact fun c e c' h => absurd h unexpected_ne_ok
  | succ depth ih => exact fun c e c' h => (expressionWith_eq_ok_iff.mp h).builtValues ih

/-! ## Definitions -/

section Definitions

variable {n : Nat}

theorem MethodBodyRead.built {body : MethodBody} {close : Span} (h : MethodBodyRead n c body close c') :
    Built c.nodes c'.nodes body.statements := by
  cases h with
  | code _ body _ =>
    have hbody := body.built (readsValue_expressionAt n (n + 1))
    rw [Cursor.nodes_next] at hbody ⊢
    exact hbody
  | primitive =>
    simp only [Cursor.nodes_next]
    exact .nil _

theorem MethodRead.built {m : MethodDef} (h : MethodRead n c m c') :
    Built c.nodes c'.nodes m.body.statements := by
  cases h with
  | classSide _ _ header code =>
    rw [← header.moved.of_next.nodes_eq]
    exact code.built
  | instanceSide header code =>
    rw [← header.moved.nodes_eq]
    exact code.built

theorem MethodsRead.built {k : Nat} {ms : List MethodDef} (h : MethodsRead n k c ms c') :
    Built c.nodes c'.nodes (statementsOfMethods ms) := by
  induction h with
  | stop => exact .nil _
  | cons head _ _ ih => exact head.built.append ih

theorem ClassRead.built {d : ClassDef} (h : ClassRead n c d c') :
    Built c.nodes c'.nodes (statementsOfMethods d.methods) := by
  cases h with
  | mk _ _ _ fields methods _ =>
    rw [Cursor.nodes_next, ← fields.moved.of_next.of_next.of_next.of_next.nodes_eq]
    exact methods.built

theorem ClassRun.built {ds : List ClassDef} (h : ClassRun n c ds c') :
    Built c.nodes c'.nodes (statementsOfClasses ds) := by
  induction h with
  | nil => exact .nil _
  | cons _ head _ ih => exact head.built.append ih

end Definitions

end Smalltalk.ReadM

namespace Smalltalk

open Smalltalk.Expr Smalltalk.ReadM

/-- A unit that can be read has been built: its nodes are numbered from the cursor's count up to its
own node count, and all are well-formed. -/
theorem built_from_of_ofCursor {c : Cursor} {u : SourceUnit} (h : SourceUnit.ofCursor c = .ok u) :
    Built c.nodes u.nodeCount u.statements := by
  cases unitRead_of_ok h with
  | mk run body => exact run.built.append (body.built (readsValue_expressionAt _ _))

theorem built_of_ofCursor {c : Cursor} {u : SourceUnit} (hc : c.nodes = 0)
    (h : SourceUnit.ofCursor c = .ok u) : Built 0 u.nodeCount u.statements :=
  hc ▸ built_from_of_ofCursor h

theorem built_of_ofSource {source : String} {u : SourceUnit} (h : SourceUnit.ofSource source = .ok u) :
    Built 0 u.nodeCount u.statements := by
  refine built_of_ofCursor ?_ h
  unfold Cursor.ofTokens
  simp only
  split
  · rfl
  · split <;> rfl

end Smalltalk
