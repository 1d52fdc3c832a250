import Mathlib
import Smalltalk.Proofs.Spelling
import Smalltalk.Proofs.UnitGrammar
import Smalltalk.Proofs.Verification

/-!
# Messages have the arguments that their selectors ask for

How many arguments a message has is said twice in compiled code, by a number and by the selector. The two
agree. The selector is put together from the texts of tokens, the number comes from the phrases between
them, and the grammar has one phrase for each colon and each operator.
-/

namespace Smalltalk

open Bytecode Grammar

/-! ## Messages in trees -/

namespace Expr

/-- Whether a node has as many arguments as its selector asks for, if it is a message. -/
def HasArity : Expr → Prop
  | send _ _ selector arguments => arity selector.text = arguments.length
  | superSend _ selector arguments => arity selector.name = arguments.length
  | _ => True

/-- Whether all messages in a tree have as many arguments as their selectors ask for. -/
def Agrees (e : Expr) : Prop := ∀ n ∈ e.nodes, n.HasArity

theorem agrees_iff (e : Expr) : e.Agrees ↔ e.HasArity ∧ ∀ part ∈ e.children, part.Agrees :=
  forall_nodes_iff e

theorem text_bare (selector : Selector) : selector.bare.text = selector.text := by
  cases selector with
  | unary | binary => rfl
  | keyword parts =>
    rw [Selector.bare, Selector.text, Selector.text, Selector.joined, Selector.joined, List.map_map]
    rfl

theorem hasArity_bare (e : Expr) : e.bare.HasArity ↔ e.HasArity := by
  cases e with
  | send info receiver selector arguments =>
    rw [bare, HasArity, HasArity, text_bare, bareAll_eq_map, List.length_map]
  | superSend info selector arguments =>
    rw [bare, HasArity, HasArity, bareAll_eq_map, List.length_map]
    rfl
  | atom | name | array | block | assign | ret =>
    rw [bare]
    rfl

theorem children_bare (e : Expr) : e.bare.children = e.children.map bare := by
  cases e <;> simp [bare, children, bareAll_eq_map]

theorem agrees_bare (e : Expr) : e.bare.Agrees ↔ e.Agrees := by
  induction e using children_induction with
  | block info params locals statements close ih =>
    rw [agrees_iff, agrees_iff, hasArity_bare, children_bare, List.forall_mem_map]
    exact and_congr_right fun _ => forall₂_congr ih
  | other e _ ih =>
    rw [agrees_iff, agrees_iff, hasArity_bare, children_bare, List.forall_mem_map]
    exact and_congr_right fun _ => forall₂_congr ih

end Expr

/-! ## Messages in phrases -/

/-- Whether all of some tokens are spelled as their kinds ask. -/
def AllSpelled (ts : List Token) : Prop := ∀ t ∈ ts, t.IsSpelled

namespace Grammar

section Phrases

variable {k n : Nat} {t : Token} {ts us rest : List Token}

theorem Leaves.allSpelled (h : Leaves k ts rest) (hts : AllSpelled ts) : AllSpelled rest := by
  obtain ⟨phrase, rfl, -, -⟩ := h
  exact (List.forall_mem_append.mp hts).2

/-- What holds of each of several phrases, one after the other. Here, and below, it need only be known for
few tokens. -/
theorem Many.forall_mem {α : Type} {P : List Token → α → List Token → Prop} {Q : α → Prop} {as : List α}
    (h : Many P ts as rest) (hP : ∀ ts a rest, ts.length ≤ n → AllSpelled ts → P ts a rest → Q a)
    (hleaves : ∀ ts a rest, P ts a rest → Leaves 1 ts rest) (hn : ts.length ≤ n) (hts : AllSpelled ts) :
    ∀ a ∈ as, Q a := by
  induction h with
  | nil => exact fun a ha => absurd ha List.not_mem_nil
  | cons head _ ih =>
    have hleft := hleaves _ _ _ head
    have htail := ih (hleft.length_le.trans hn) (hleft.allSpelled hts)
    exact List.forall_mem_cons.mpr ⟨hP _ _ _ hn hts head, htail⟩

theorem Separated.forall_mem {α : Type} {P : List Token → α → List Token → Prop} {Q : α → Prop} {as : List α}
    (h : Separated P ts as rest) (hP : ∀ ts a rest, ts.length ≤ n → AllSpelled ts → P ts a rest → Q a)
    (hleaves : ∀ ts a rest, P ts a rest → Leaves 1 ts rest) (hn : ts.length ≤ n) (hts : AllSpelled ts) :
    ∀ a ∈ as, Q a := by
  induction h with
  | none => exact fun a ha => absurd ha List.not_mem_nil
  | dot _ _ ih =>
    rw [List.length_cons] at hn
    exact ih (by omega) (List.forall_mem_cons.mp hts).2
  | last item => exact List.forall_mem_singleton.mpr (hP _ _ _ hn hts item)
  | item item dot _ ih =>
    have hleft := (hleaves _ _ _ item).tail dot TokenKind.noConfusion
    have htail := ih (hleft.length_le.trans hn) (hleft.allSpelled hts)
    exact List.forall_mem_cons.mpr ⟨hP _ _ _ hn hts item, htail⟩

/-! ### Selectors -/

theorem Name.arity_eq {x : Ident} (h : Name ts x rest) (hts : AllSpelled ts) : arity x.name = 0 := by
  cases h with
  | mk token =>
    have hspelled := (List.forall_mem_cons.mp hts).1
    rw [Token.IsSpelled, token] at hspelled
    exact arity_of_isName hspelled

theorem IsOperator.arity_eq {t : Token} (h : IsOperator t) (ht : t.IsSpelled) : arity t.lexeme = 1 := by
  rw [Token.IsSpelled] at ht
  rcases h with ⟨op, hop⟩ | hbar
  · rw [hop] at ht
    exact arity_of_isOperatorText ht
  · rw [hbar] at ht
    have hlexeme : t.lexeme = "|" := String.toList_inj.mp ht
    rw [hlexeme, arity_bar]

theorem isKeyword_of_isSpelled {word : String} (ht : t.IsSpelled) (htoken : t.kind = .keyword word) :
    IsKeyword word.toList := by
  rw [Token.IsSpelled, htoken] at ht
  exact ht

theorem arity_keywordSelector {parts : List (Ident × Expr)} (hne : parts ≠ [])
    (hparts : ∀ part ∈ parts, IsKeyword part.1.name.toList) : arity (keywordSelector parts).text = parts.length := by
  have htext : (keywordSelector parts).text = String.join (parts.map (·.1.name)) := by
    rw [keywordSelector, Selector.text, Selector.joined, List.map_map]
    rfl
  have hwords : ∀ w ∈ parts.map (·.1.name), IsKeyword w.toList := List.forall_mem_map.mpr hparts
  rw [htext, arity_join (mt List.map_eq_nil_iff.mp hne) hwords, List.length_map]

end Phrases

/-! ### Messages -/

theorem agrees_name (x : String) : (Expr.name .none x).Agrees :=
  (Expr.agrees_iff _).mpr ⟨trivial, fun _ h => absurd h List.not_mem_nil⟩

theorem agrees_sendUnary {receiver : Expr} {word : Ident} (hreceiver : receiver.Agrees)
    (hword : arity word.name = 0) : (sendUnary receiver word).Agrees := by
  rw [Expr.agrees_iff]
  exact ⟨hword, List.forall_mem_singleton.mpr hreceiver⟩

theorem agrees_foldl_sendUnary {words : List Ident} {receiver : Expr} (hreceiver : receiver.Agrees)
    (hwords : ∀ word ∈ words, arity word.name = 0) : (words.foldl sendUnary receiver).Agrees := by
  induction words generalizing receiver with
  | nil => exact hreceiver
  | cons word words ih =>
    obtain ⟨hword, hwords⟩ := List.forall_mem_cons.mp hwords
    exact ih (agrees_sendUnary hreceiver hword) hwords

theorem agrees_sendBinary {receiver : Expr} {part : BinaryPart} (hreceiver : receiver.Agrees)
    (hpart : arity part.1.name = 1 ∧ part.2.Agrees) : (sendBinary receiver part).Agrees := by
  rw [Expr.agrees_iff]
  exact ⟨hpart.1, List.forall_mem_cons.mpr ⟨hreceiver, List.forall_mem_singleton.mpr hpart.2⟩⟩

theorem agrees_foldl_sendBinary {parts : List BinaryPart} {receiver : Expr} (hreceiver : receiver.Agrees)
    (hparts : ∀ part ∈ parts, arity part.1.name = 1 ∧ part.2.Agrees) :
    (parts.foldl sendBinary receiver).Agrees := by
  induction parts generalizing receiver with
  | nil => exact hreceiver
  | cons part parts ih =>
    obtain ⟨hpart, hparts⟩ := List.forall_mem_cons.mp hparts
    exact ih (agrees_sendBinary hreceiver hpart) hparts

theorem agrees_superSend {selector : Ident} {arguments : List Expr}
    (hselector : arity selector.name = arguments.length) (harguments : ∀ e ∈ arguments, e.Agrees) :
    (Expr.superSend .none selector arguments).Agrees :=
  (Expr.agrees_iff _).mpr ⟨hselector, harguments⟩

/-! ### Phrases -/

section Nested

variable {n : Nat} {ts rest : List Token}

-- Inside of a phrase there are only phrases of fewer tokens, about which this is known.
variable (hnested : ∀ ts e rest, ts.length < n → AllSpelled ts → Expression ts e rest → e.Agrees)

include hnested

theorem Statement.agrees_of_lt {e : Expr} (h : Statement ts e rest) (hn : ts.length < n)
    (hts : AllSpelled ts) : e.Agrees := by
  cases h with
  | assign target mark value =>
    simp only [List.length_cons] at hn
    obtain ⟨-, hts⟩ := List.forall_mem_cons.mp hts
    obtain ⟨-, hts⟩ := List.forall_mem_cons.mp hts
    have hvalue := hnested _ _ _ (by omega) hts value
    exact (Expr.agrees_iff _).mpr
      ⟨trivial, List.forall_mem_cons.mpr ⟨agrees_name _, List.forall_mem_singleton.mpr hvalue⟩⟩
  | ret mark value =>
    rw [List.length_cons] at hn
    obtain ⟨-, hts⟩ := List.forall_mem_cons.mp hts
    have hvalue := hnested _ _ _ (by omega) hts value
    exact (Expr.agrees_iff _).mpr ⟨trivial, List.forall_mem_singleton.mpr hvalue⟩
  | expression value => exact hnested _ _ _ hn hts value

theorem BodyPhrase.agrees_of_lt {b : Body} (h : BodyPhrase ts b rest) (hn : ts.length < n)
    (hts : AllSpelled ts) : ∀ e ∈ b.statements, e.Agrees := by
  cases h with
  | mk locals statements =>
    have hlocals := locals.leaves
    have hlength := hlocals.length_le
    exact statements.forall_mem (n := n - 1)
      (fun ts e rest hlt hspelled h => h.agrees_of_lt hnested (by omega) hspelled)
      (fun _ _ _ => Statement.leaves) (by omega) (hlocals.allSpelled hts)

theorem Primary.agrees_of_le {e : Expr} (h : Primary ts e rest) (hn : ts.length ≤ n)
    (hts : AllSpelled ts) : e.Agrees := by
  cases h with
  | literal token | name token =>
    exact (Expr.agrees_iff _).mpr ⟨trivial, fun _ h => absurd h List.not_mem_nil⟩
  | block opening body closing =>
    rw [List.length_cons] at hn
    obtain ⟨-, hts⟩ := List.forall_mem_cons.mp hts
    exact (Expr.agrees_iff _).mpr ⟨trivial, body.agrees_of_lt hnested (by omega) hts⟩
  | blockWithParameters opening params separator body closing =>
    rw [List.length_cons] at hn
    obtain ⟨-, hts⟩ := List.forall_mem_cons.mp hts
    have hparams :=
      (params.leaves (fun _ _ _ _ => BlockArgument.leaves) le_rfl).tail separator TokenKind.noConfusion
    have hlength := hparams.length_le
    exact (Expr.agrees_iff _).mpr
      ⟨trivial, body.agrees_of_lt hnested (by omega) (hparams.allSpelled hts)⟩
  | blockOfParameters opening params closing =>
    exact (Expr.agrees_iff _).mpr ⟨trivial, fun _ h => absurd h List.not_mem_nil⟩
  | parentheses opening inner closing =>
    rw [List.length_cons] at hn
    obtain ⟨-, hts⟩ := List.forall_mem_cons.mp hts
    exact hnested _ _ _ (by omega) hts inner
  | array opening elements closing =>
    rw [List.length_cons] at hn
    obtain ⟨-, hts⟩ := List.forall_mem_cons.mp hts
    have helements := elements.forall_mem (n := n - 1)
      (fun ts e rest hlt hspelled => hnested ts e rest (by omega) hspelled)
      (fun _ _ _ => Expression.leaves) (by omega) hts
    exact (Expr.agrees_iff _).mpr ⟨trivial, helements⟩

theorem Unary.agrees_of_le {e : Expr} (h : Unary ts e rest) (hn : ts.length ≤ n)
    (hts : AllSpelled ts) : e.Agrees := by
  have hnames : ∀ ts x rest, ts.length ≤ n → AllSpelled ts → Name ts x rest → arity x.name = 0 :=
    fun _ _ _ _ hts h => h.arity_eq hts
  cases h with
  | plain operand messages =>
    have hoperand := operand.leaves
    refine agrees_foldl_sendUnary (operand.agrees_of_le hnested hn hts) ?_
    exact messages.forall_mem hnames (fun _ _ _ => Name.leaves) (hoperand.length_le.trans hn)
      (hoperand.allSpelled hts)
  | super word messages =>
    rw [List.length_cons] at hn
    obtain ⟨-, hts⟩ := List.forall_mem_cons.mp hts
    have hwords := messages.forall_mem hnames (fun _ _ _ => Name.leaves) (by omega) hts
    obtain ⟨hfirst, hwords⟩ := List.forall_mem_cons.mp hwords
    exact agrees_foldl_sendUnary
      (agrees_superSend hfirst fun _ h => absurd h List.not_mem_nil) hwords

theorem BinaryArgument.agrees_of_le {part : BinaryPart} (h : BinaryArgument ts part rest)
    (hn : ts.length ≤ n) (hts : AllSpelled ts) : arity part.1.name = 1 ∧ part.2.Agrees := by
  cases h with
  | mk operator argument =>
    rw [List.length_cons] at hn
    obtain ⟨ht, hts⟩ := List.forall_mem_cons.mp hts
    exact ⟨operator.arity_eq ht, argument.agrees_of_le hnested (by omega) hts⟩

theorem Binary.agrees_of_le {e : Expr} (h : Binary ts e rest) (hn : ts.length ≤ n)
    (hts : AllSpelled ts) : e.Agrees := by
  have hparts : ∀ ts part rest, ts.length ≤ n → AllSpelled ts → BinaryArgument ts part rest →
      arity part.1.name = 1 ∧ part.2.Agrees :=
    fun _ _ _ hn hts h => h.agrees_of_le hnested hn hts
  cases h with
  | plain operand messages =>
    have hoperand := operand.leaves
    refine agrees_foldl_sendBinary (operand.agrees_of_le hnested hn hts) ?_
    exact messages.forall_mem hparts (fun _ _ _ => BinaryArgument.leaves)
      (hoperand.length_le.trans hn) (hoperand.allSpelled hts)
  | super word first messages =>
    rw [List.length_cons] at hn
    obtain ⟨-, hts⟩ := List.forall_mem_cons.mp hts
    have hfirst := hparts _ _ _ (by omega) hts first
    have hleft := first.leaves
    have hlength := hleft.length_le
    have hrest := messages.forall_mem hparts (fun _ _ _ => BinaryArgument.leaves) (by omega)
      (hleft.allSpelled hts)
    exact agrees_foldl_sendBinary
      (agrees_superSend hfirst.1 (List.forall_mem_singleton.mpr hfirst.2)) hrest

theorem KeywordArgument.agrees_of_le {part : Ident × Expr} (h : KeywordArgument ts part rest)
    (hn : ts.length ≤ n) (hts : AllSpelled ts) : IsKeyword part.1.name.toList ∧ part.2.Agrees := by
  cases h with
  | mk token argument =>
    rw [List.length_cons] at hn
    obtain ⟨ht, hts⟩ := List.forall_mem_cons.mp hts
    exact ⟨isKeyword_of_isSpelled ht token, argument.agrees_of_le hnested (by omega) hts⟩

theorem Expression.agrees_of_le {e : Expr} (h : Expression ts e rest) (hn : ts.length ≤ n)
    (hts : AllSpelled ts) : e.Agrees := by
  have hparts : ∀ ts part rest, ts.length ≤ n → AllSpelled ts → KeywordArgument ts part rest →
      IsKeyword part.1.name.toList ∧ part.2.Agrees :=
    fun _ _ _ hn hts h => h.agrees_of_le hnested hn hts
  cases h with
  | plain operand => exact operand.agrees_of_le hnested hn hts
  | keywords operand messages =>
    have hoperand := operand.leaves
    have hmessages := messages.forall_mem hparts (fun _ _ _ => KeywordArgument.leaves)
      (hoperand.length_le.trans hn) (hoperand.allSpelled hts)
    have harity := arity_keywordSelector (List.cons_ne_nil _ _) fun part hpart => (hmessages part hpart).1
    rw [Expr.agrees_iff]
    refine ⟨harity.trans (List.length_map _).symm, ?_⟩
    refine List.forall_mem_cons.mpr ⟨operand.agrees_of_le hnested hn hts, ?_⟩
    exact List.forall_mem_map.mpr fun part hpart => (hmessages part hpart).2
  | superKeywords word messages =>
    rw [List.length_cons] at hn
    obtain ⟨-, hts⟩ := List.forall_mem_cons.mp hts
    have hmessages := messages.forall_mem hparts (fun _ _ _ => KeywordArgument.leaves) (by omega) hts
    have harity := arity_keywordSelector (List.cons_ne_nil _ _) fun part hpart => (hmessages part hpart).1
    refine agrees_superSend (harity.trans (List.length_map _).symm) ?_
    exact List.forall_mem_map.mpr fun part hpart => (hmessages part hpart).2

end Nested

section Phrases

variable {ts rest : List Token}

/-- The messages in an expression have as many arguments as their selectors ask for. -/
theorem Expression.agrees {e : Expr} (h : Expression ts e rest) (hts : AllSpelled ts) : e.Agrees := by
  have hbounded : ∀ n ts e rest, ts.length < n → AllSpelled ts → Expression ts e rest → e.Agrees := by
    intro n
    induction n with
    | zero => exact fun _ _ _ hn => absurd hn (Nat.not_lt_zero _)
    | succ n ih => exact fun _ _ _ hn hts h => h.agrees_of_le ih (by omega) hts
  exact hbounded _ _ _ _ (Nat.lt_succ_self _) hts h

theorem BodyPhrase.agrees {b : Body} (h : BodyPhrase ts b rest) (hts : AllSpelled ts) :
    ∀ e ∈ b.statements, e.Agrees :=
  h.agrees_of_lt (fun _ _ _ _ hts h => h.agrees hts) (Nat.lt_succ_self _) hts

/-! ### Definitions -/

theorem KeywordParameter.isKeyword {part : String × Ident} (h : KeywordParameter ts part rest)
    (hts : AllSpelled ts) : IsKeyword part.1.toList := by
  cases h with
  | mk token name => exact isKeyword_of_isSpelled (List.forall_mem_cons.mp hts).1 token

theorem MethodHeader.arity_eq {header : Ident × List Ident} (h : MethodHeader ts header rest)
    (hts : AllSpelled ts) : arity header.1.name = header.2.length := by
  cases h with
  | unary token =>
    have ht := (List.forall_mem_cons.mp hts).1
    rw [Token.IsSpelled, token] at ht
    exact arity_of_isName ht
  | binary operator param => exact operator.arity_eq (List.forall_mem_cons.mp hts).1
  | @keyword _ _ part parts words =>
    have hkeywords := words.forall_mem (fun _ _ _ _ hts h => h.isKeyword hts)
      (fun _ _ _ => KeywordParameter.leaves) le_rfl hts
    have hwords : ∀ w ∈ (part :: parts).map (·.1), IsKeyword w.toList := List.forall_mem_map.mpr hkeywords
    have hne : (part :: parts).map (·.1) ≠ [] := List.cons_ne_nil _ _
    calc arity (String.join ((part :: parts).map (·.1)))
        = ((part :: parts).map (·.1)).length := arity_join hne hwords
      _ = ((part :: parts).map (·.2)).length := by rw [List.length_map, List.length_map]

end Phrases

end Grammar

/-- Whether a method has as many parameters as its selector asks for, and so have the messages in it. -/
structure MethodDef.Agrees (m : MethodDef) : Prop where
  arity_eq : arity m.selector.name = m.params.length
  statements : ∀ e ∈ m.body.statements, e.Agrees

theorem MethodBody.statements_bare (b : MethodBody) : b.bare.statements = b.statements.map Expr.bare := by
  cases b with
  | code body => rfl
  | primitive name => rfl

theorem MethodDef.agrees_of_bare {m : MethodDef} (h : m.bare.Agrees) : m.Agrees := by
  have hparams : m.bare.params.length = m.params.length := List.length_map _
  refine ⟨h.arity_eq.trans hparams, fun e he => (Expr.agrees_bare e).mp ?_⟩
  refine h.statements e.bare ?_
  rw [MethodDef.bare, MethodBody.statements_bare]
  exact List.mem_map_of_mem he

namespace Grammar

variable {ts rest : List Token}

theorem MethodBlock.agrees {b : MethodBody} (h : MethodBlock ts b rest) (hts : AllSpelled ts) :
    ∀ e ∈ b.statements, e.Agrees := by
  cases h with
  | code opening body closing => exact body.agrees (List.forall_mem_cons.mp hts).2
  | primitive => exact fun e he => absurd he List.not_mem_nil

theorem Member.agrees {m : MethodDef} (h : Member ts m rest) (hts : AllSpelled ts) : m.Agrees := by
  cases h with
  | instanceSide head block =>
    exact ⟨head.arity_eq hts, block.agrees (head.leaves.allSpelled hts)⟩
  | classSide word head block =>
    have hts := (List.forall_mem_cons.mp hts).2
    exact ⟨head.arity_eq hts, block.agrees (head.leaves.allSpelled hts)⟩

/-- What a class phrase says about its name and its methods. -/
theorem ClassPhrase.agrees {d : ClassDef} (h : ClassPhrase ts d rest) (hts : AllSpelled ts) :
    IsSymbolName d.name.name.toList ∧ ∀ m ∈ d.methods, m.Agrees := by
  cases h with
  | mk superclass word symbol hopening fields bar members hclosing =>
    obtain ⟨-, hts⟩ := List.forall_mem_cons.mp hts
    obtain ⟨-, hts⟩ := List.forall_mem_cons.mp hts
    obtain ⟨hname, hts⟩ := List.forall_mem_cons.mp hts
    obtain ⟨-, hts⟩ := List.forall_mem_cons.mp hts
    rw [Token.IsSpelled, symbol] at hname
    refine ⟨hname, ?_⟩
    exact members.forall_mem (fun _ _ _ _ hts h => h.agrees hts) (fun _ _ _ => Member.leaves) le_rfl
      (fields.leaves.allSpelled hts)

end Grammar

/-! ## Units -/

section Units

variable {source : String} {u : SourceUnit}

/-- What the spelling of tokens says about a unit that is read from a text. -/
theorem SourceUnit.agrees_of_ofSource (h : SourceUnit.ofSource source = .ok u) :
    (∀ c ∈ u.classes, IsSymbolName c.name.name.toList) ∧ ∀ c ∈ u.allClasses, ∀ m ∈ c.methods, m.Agrees := by
  have hts : AllSpelled (Cursor.ofTokens (tokens source)).tokens :=
    isSpelled_of_mem_ofTokens isSpelled_of_mem_tokens
  obtain ⟨us, rest, hclasses, hmain, -⟩ := SourceUnit.phrases_of_ofCursor (ofTokens_ne_nil _) h
  have hphrases := hclasses.forall_mem (fun _ _ _ _ hts h => h.agrees hts) (fun _ _ _ => ClassPhrase.leaves)
    le_rfl hts
  have hleft := hclasses.leaves (fun _ _ _ _ => ClassPhrase.leaves) le_rfl
  rw [List.forall_mem_map] at hphrases
  refine ⟨fun c hc => (hphrases c hc).1, fun c hc => ?_⟩
  rcases List.mem_append.mp hc with hc | hc
  · intro m hm
    exact MethodDef.agrees_of_bare ((hphrases c hc).2 m.bare (List.mem_map_of_mem hm))
  · unfold mainClass? at hc
    split at hc
    · cases hc
    · cases List.mem_singleton.mp hc
      have hname : mainMethodName.toList.all isNameChar := by decide
      have harity : arity mainMethodName = 0 := arity_of_isName ⟨by decide, List.all_eq_true.mp hname⟩
      refine List.forall_mem_singleton.mpr ⟨harity, fun e he => (Expr.agrees_bare e).mp ?_⟩
      exact hmain.agrees (hleft.allSpelled hts) e.bare (List.mem_map_of_mem he)

end Units

/-! ## Messages in code -/

/-- Whether an instruction passes as many arguments as its selector asks for, if it sends a message. -/
def SymbolicInstruction.HasArity : SymbolicInstruction → Prop
  | send count selector | sendSuper count selector => count = arity selector
  | _ => True

namespace Expr

theorem hasArity_markAt (file : Option String) (p : Position) : ∀ i ∈ markAt file p, i.HasArity := by
  cases file with
  | none => exact fun i hi => absurd hi List.not_mem_nil
  | some name => exact List.forall_mem_singleton.mpr trivial

theorem hasArity_storeInto (s : Surroundings) (e : Expr) : ∀ i ∈ e.storeInto s, i.HasArity := by
  cases e with
  | name info x =>
    rw [storeInto]
    cases s.refer x with
    | slot | field => exact List.forall_mem_singleton.mpr trivial
    | global => exact fun i hi => absurd hi List.not_mem_nil
  | atom | array | block | send | superSend | assign | ret => exact fun i hi => absurd hi List.not_mem_nil

theorem hasArity_translateAll {es : List Expr} (h : ∀ e ∈ es, ∀ s k, ∀ i ∈ e.translate s k, i.HasArity)
    (s : Surroundings) (k : Nat) : ∀ i ∈ translateAll s k es, i.HasArity := by
  induction es generalizing k with
  | nil =>
    rw [translateAll]
    exact fun i hi => absurd hi List.not_mem_nil
  | cons e es ih =>
    obtain ⟨he, hes⟩ := List.forall_mem_cons.mp h
    rw [translateAll, List.forall_mem_append]
    exact ⟨he s k, ih hes _⟩

theorem hasArity_translate (e : Expr) (he : e.Agrees) : ∀ s k, ∀ i ∈ e.translate s k, i.HasArity := by
  induction e using tree_induction with
  | atom info value =>
    intro s k
    rw [translate, List.forall_mem_singleton]
    cases value <;> trivial
  | name info x =>
    intro s k
    rw [translate, List.forall_mem_singleton]
    cases s.refer x <;> trivial
  | array info items ih =>
    intro s k
    obtain ⟨-, hitems⟩ := (agrees_iff _).mp he
    rw [translate, List.forall_mem_append, List.forall_mem_singleton]
    exact ⟨hasArity_translateAll (fun e hmem => ih e hmem (hitems e hmem)) s k, trivial⟩
  | block info params locals statements close ih =>
    intro s k
    rw [translate, List.forall_mem_singleton]
    trivial
  | send info receiver selector arguments ihr iha =>
    intro s k
    obtain ⟨hself, hparts⟩ := (agrees_iff _).mp he
    obtain ⟨hreceiver, harguments⟩ := List.forall_mem_cons.mp hparts
    rw [translate, List.forall_mem_append, List.forall_mem_append, List.forall_mem_singleton]
    exact ⟨⟨ihr hreceiver s k, hasArity_translateAll (fun e hmem => iha e hmem (harguments e hmem)) s _⟩,
      hself.symm⟩
  | superSend info selector arguments ih =>
    intro s k
    obtain ⟨hself, harguments⟩ := (agrees_iff _).mp he
    rw [translate, List.forall_mem_append, List.forall_mem_cons, List.forall_mem_singleton]
    exact ⟨⟨trivial, hasArity_translateAll (fun e hmem => ih e hmem (harguments e hmem)) s k⟩, hself.symm⟩
  | assign info target value iht ihv =>
    intro s k
    obtain ⟨-, hparts⟩ := (agrees_iff _).mp he
    rw [translate, List.forall_mem_append]
    exact ⟨ihv (hparts value (by simp [children])) s _, hasArity_storeInto s target⟩
  | ret info value ih =>
    intro s k
    obtain ⟨-, hparts⟩ := (agrees_iff _).mp he
    rw [translate, List.forall_mem_append, List.forall_mem_append, List.forall_mem_singleton]
    exact ⟨⟨ih (hparts value List.mem_cons_self) s k, hasArity_markAt _ _⟩, trivial⟩

theorem hasArity_translateStatements {es : List Expr} (hes : ∀ e ∈ es, e.Agrees) (s : Surroundings) (k : Nat) :
    ∀ i ∈ translateStatements s k es, i.HasArity := by
  intro i hi
  by_cases hpop : i = .pop
  · rw [hpop]
    trivial
  · exact hasArity_translateAll (fun e he => e.hasArity_translate (hes e he)) s k i
      ((mem_translateStatements hpop).mp hi)

/-- What holds of every block in a body: its messages agree, and no blocks are kept with it. -/
def BlockAgrees (b : SymbolicBlock) : Prop := (∀ i ∈ b.code, i.HasArity) ∧ b.blocks = []

theorem blockAgrees_blocksOfAll {es : List Expr} (h : ∀ e ∈ es, ∀ s k, ∀ b ∈ e.blocks s k, BlockAgrees b)
    (s : Surroundings) (k : Nat) : ∀ b ∈ blocksOfAll s k es, BlockAgrees b := by
  induction es generalizing k with
  | nil =>
    rw [blocksOfAll]
    exact fun b hb => absurd hb List.not_mem_nil
  | cons e es ih =>
    obtain ⟨he, hes⟩ := List.forall_mem_cons.mp h
    rw [blocksOfAll, List.forall_mem_append]
    exact ⟨he s k, ih hes _⟩

theorem blockAgrees_blocks (e : Expr) (he : e.Agrees) : ∀ s k, ∀ b ∈ e.blocks s k, BlockAgrees b := by
  induction e using tree_induction with
  | atom | name =>
    intro s k
    rw [blocks]
    exact fun b hb => absurd hb List.not_mem_nil
  | array info items ih =>
    intro s k
    obtain ⟨-, hitems⟩ := (agrees_iff _).mp he
    rw [blocks]
    exact blockAgrees_blocksOfAll (fun e hmem => ih e hmem (hitems e hmem)) s k
  | block info params locals statements close ih =>
    intro s k
    obtain ⟨-, hstatements⟩ := (agrees_iff _).mp he
    rw [blocks, List.forall_mem_cons]
    refine ⟨⟨?_, rfl⟩, blockAgrees_blocksOfAll (fun e hmem => ih e hmem (hstatements e hmem)) _ _⟩
    rw [List.forall_mem_append, List.forall_mem_append, List.forall_mem_singleton]
    exact ⟨⟨hasArity_translateStatements hstatements _ _, hasArity_markAt _ _⟩, trivial⟩
  | send info receiver selector arguments ihr iha =>
    intro s k
    obtain ⟨-, hparts⟩ := (agrees_iff _).mp he
    obtain ⟨hreceiver, harguments⟩ := List.forall_mem_cons.mp hparts
    rw [blocks, List.forall_mem_append]
    exact ⟨ihr hreceiver s k, blockAgrees_blocksOfAll (fun e hmem => iha e hmem (harguments e hmem)) s _⟩
  | superSend info selector arguments ih =>
    intro s k
    obtain ⟨-, harguments⟩ := (agrees_iff _).mp he
    rw [blocks]
    exact blockAgrees_blocksOfAll (fun e hmem => ih e hmem (harguments e hmem)) s k
  | assign info target value iht ihv =>
    intro s k
    obtain ⟨-, hparts⟩ := (agrees_iff _).mp he
    rw [blocks, List.forall_mem_append]
    exact ⟨iht (hparts target (by simp [children])) s k, ihv (hparts value (by simp [children])) s _⟩
  | ret info value ih =>
    intro s k
    obtain ⟨-, hparts⟩ := (agrees_iff _).mp he
    rw [blocks]
    exact ih (hparts value List.mem_cons_self) s k

end Expr

section Methods

variable {m : MethodDef} {file : Option String} {layers : List (List String)} {owner : String}

theorem MethodDef.Agrees.translate (h : m.Agrees) :
    (m.translate file layers owner).argumentCount = arity (m.translate file layers owner).name ∧
      (∀ i ∈ (m.translate file layers owner).code, i.HasArity) ∧
      ∀ b ∈ (m.translate file layers owner).blocks, Expr.BlockAgrees b := by
  have hstatements := h.statements
  unfold MethodDef.translate
  cases hbody : m.body with
  | primitive name =>
    exact ⟨h.arity_eq.symm, fun i hi => absurd hi List.not_mem_nil, fun b hb => absurd hb List.not_mem_nil⟩
  | code body =>
    rw [hbody] at hstatements
    refine ⟨h.arity_eq.symm, ?_, ?_⟩
    · simp only [List.forall_mem_append]
      refine ⟨⟨Expr.hasArity_translateStatements hstatements _ _, Expr.hasArity_markAt _ _⟩, ?_⟩
      exact List.forall_mem_cons.mpr ⟨trivial, List.forall_mem_singleton.mpr trivial⟩
    · exact Expr.blockAgrees_blocksOfAll (fun e he => e.blockAgrees_blocks (hstatements e he)) _ _

end Methods

/-! ## Messages in compiled code -/

/-- A method or block, a block in it, a block in such a block, and so on. -/
inductive CompiledBlock.Contains (m : CompiledBlock) : CompiledBlock → Prop where
  | self : Contains m m
  | block {outer b : CompiledBlock} : Contains m outer → b ∈ outer.blocks → Contains m b

section Compiled

variable {literals : Array String} {m b : CompiledBlock} {sym : SymbolicBlock}

/-- Whatever a compiled method contains reads as the method or as one of its blocks. -/
theorem exists_symbolic_of_contains (h : m.symbolic? literals = some sym)
    (hflat : ∀ inner ∈ sym.blocks, inner.blocks = []) (hb : m.Contains b) :
    ∃ inner, (inner = sym ∨ inner ∈ sym.blocks) ∧ b.symbolic? literals = some inner := by
  induction hb with
  | self => exact ⟨sym, .inl rfl, h⟩
  | block _ hmem ih =>
    obtain ⟨outer, houter, hsymbolic⟩ := ih
    obtain ⟨inner, hinner, hread⟩ := exists_mem_of_forall₂ (readsAs_of_symbolic? hsymbolic).blocks hmem
    rcases houter with rfl | houter
    · exact ⟨inner, .inr hinner, hread⟩
    · rw [hflat outer houter] at hinner
      exact absurd hinner List.not_mem_nil

theorem header_of_symbolic? (h : m.symbolic? literals = some sym) :
    m.name = sym.name ∧ m.argumentCount = sym.argumentCount := by
  obtain ⟨name, classSide, qualifiedName, primitive, argumentCount, localCount, bytes, blocks⟩ := m
  rw [CompiledBlock.symbolic?] at h
  obtain ⟨code, -, h⟩ := Option.bind_eq_some_iff.mp h
  obtain ⟨blocks', -, h⟩ := Option.bind_eq_some_iff.mp h
  cases h
  exact ⟨rfl, rfl⟩

theorem methods_of_symbolic? {c : CompiledClass} {sym : SymbolicClass} (h : c.symbolic? = some sym) :
    List.Forall₂ (fun m b => m.symbolic? c.literals = some b) c.methods sym.methods := by
  obtain ⟨methods, hmethods, h⟩ := Option.bind_eq_some_iff.mp h
  cases h
  exact CompiledBlock.symbolicAll?_eq_some_iff.mp hmethods

/-- A message instruction of compiled code names its selector, and passes the arguments that it asks for. -/
theorem exists_selector_of_symbolic? {i : Instruction} {s : SymbolicInstruction} {count literal : UInt16}
    (h : i.symbolic? literals = some s) (hs : s.HasArity)
    (hi : i = .send count literal ∨ i = .sendSuper count literal) :
    ∃ selector, literals[literal.toNat]? = some selector ∧ count.toNat = arity selector := by
  rcases hi with rfl | rfl
  · obtain ⟨selector, hselector, rfl⟩ := Option.map_eq_some_iff.mp h
    exact ⟨selector, hselector, hs⟩
  · obtain ⟨selector, hselector, rfl⟩ := Option.map_eq_some_iff.mp h
    exact ⟨selector, hselector, hs⟩

end Compiled

section Success

variable {source : String} {options : CompileOptions} {classes : List CompiledClass}

/-- Messages and methods of compiled code have the arguments that their selectors ask for. In every class
that comes out of a compilation, each method has as many arguments as its name asks for; and in its code,
and in that of all blocks in it, which can be decoded to the end, each instruction that sends a message
passes as many arguments as the selector that it names asks for. -/
theorem arity_of_compileSource (h : (compileSource source options).result = .ok classes) :
    ∀ c ∈ classes, ∀ m ∈ c.methods, m.argumentCount = arity m.name ∧
      ∀ b, m.Contains b → (decode b.code).failure? = none ∧
        ∀ count literal, .send count literal ∈ b.instructions ∨ .sendSuper count literal ∈ b.instructions →
          ∃ selector, c.literals[literal.toNat]? = some selector ∧ count.toNat = arity selector := by
  obtain ⟨u, hsource, -, -, hsymbolic⟩ := exists_unit_of_ok h
  obtain ⟨-, hagrees⟩ := SourceUnit.agrees_of_ofSource hsource
  intro c hc m hm
  obtain ⟨sym, hsym, hclass⟩ := exists_mem_of_forall₂ (mapM_eq_some_iff.mp hsymbolic) hc
  obtain ⟨d, hd, rfl⟩ := List.mem_map.mp hsym
  obtain ⟨sym, hsym, hmethod⟩ := exists_mem_of_forall₂ (methods_of_symbolic? hclass) hm
  obtain ⟨md, hmd, rfl⟩ := List.mem_map.mp hsym
  obtain ⟨hcount, hcode, hblocks⟩ := (hagrees d hd md hmd).translate
  obtain ⟨hname, harguments⟩ := header_of_symbolic? hmethod
  refine ⟨by rw [harguments, hname, hcount], fun b hb => ?_⟩
  obtain ⟨inner, hinner, hread⟩ := exists_symbolic_of_contains hmethod (fun b hb => (hblocks b hb).2) hb
  have hreads := readsAs_of_symbolic? hread
  refine ⟨hreads.decoded, fun count literal hsend => ?_⟩
  have hinstructions : ∀ i ∈ inner.code, i.HasArity := by
    rcases hinner with rfl | hinner
    · exact hcode
    · exact (hblocks inner hinner).1
  rcases hsend with hsend | hsend
  · obtain ⟨s, hs, hi⟩ := hreads.reads.exists_symbolic hsend
    exact exists_selector_of_symbolic? hi (hinstructions s hs) (.inl rfl)
  · obtain ⟨s, hs, hi⟩ := hreads.reads.exists_symbolic hsend
    exact exists_selector_of_symbolic? hi (hinstructions s hs) (.inr rfl)

/-- Messages of all three forms, to `super` as well, in methods of both sides, in nested blocks and in a main
program; one method is named by a bar, and one is a part of the machine. -/
theorem arity_of_compileSource_all_forms : ∃ classes,
    (compileSource ("Object subclass: #A [ + k [ ^[:i | [i foo - k]] ] x: a y: b <primitive: #p> class new [ ^super new ] ] "
        ++ "A subclass: #B [ at: k put: v [ ^super x: (super + k) y: k | v ] | z [ ^z ] ] (B new at: 1 put: 2) + 3")
        {}).result = .ok classes ∧
      classes.map (fun c => (c.literals.toList, c.methods.map fun m => (m.name, m.argumentCount))) =
        [(["foo", "-", "new"], [("+", 1), ("x:y:", 2), ("new", 0)]),
          (["+", "|", "x:y:"], [("at:put:", 2), ("|", 1)]), (["B", "new", "at:put:", "+"], [("main", 0)])] ∧
      ∀ c ∈ classes, ∀ m ∈ c.methods, m.argumentCount = arity m.name ∧
        ∀ b, m.Contains b → (decode b.code).failure? = none ∧
          ∀ count literal, .send count literal ∈ b.instructions ∨ .sendSuper count literal ∈ b.instructions →
            ∃ selector, c.literals[literal.toNat]? = some selector ∧ count.toNat = arity selector :=
  exists_ok_of_map (by decide +kernel) fun _ h => arity_of_compileSource h

end Success

end Smalltalk
