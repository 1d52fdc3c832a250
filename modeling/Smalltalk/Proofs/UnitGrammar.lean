import Mathlib
import Smalltalk.Proofs.ClassGrammar
import Smalltalk.Proofs.DefinitionSteps
import Smalltalk.Proofs.Lexemes
import Smalltalk.Proofs.Spelling

/-!
# The grammar of units

What the grammar says about expressions goes on to definitions: a class that can be read is a phrase of the
grammar, and a unit that can be read is a sequence of such classes with a body after them.
-/

namespace Smalltalk

open Grammar

namespace ReadM

section Methods

variable {n : Nat} {c c' : Cursor} {selector : Ident} {xs : List Ident}

theorem KeywordHeaderRead.many {k : Nat} {word : Ident} (h : KeywordHeaderRead k c word selector xs c') :
    ∃ parts, Many KeywordParameter c.tokens parts c'.tokens ∧
      selector.name = word.name ++ String.join (parts.map (·.1)) ∧ xs.map Ident.bare = parts.map (·.2) := by
  induction h with
  | out | stop => exact ⟨[], .nil, by simp, rfl⟩
  | @cons _ _ _ _ _ x _ s keyword param _ ih =>
    obtain ⟨parts, hparts, hword, hparams⟩ := ih
    refine ⟨(s, x.bare) :: parts, .cons ?_ hparts, ?_, by simp [hparams]⟩
    · rw [Cursor.tokens_of_kind keyword TokenKind.noConfusion]
      exact .mk keyword (name_of_isName param)
    · rw [hword, List.map_cons, String.join_cons, String.append_assoc]

theorem KeywordHeaderRead.ne_nil {k : Nat} {word : Ident} {s : String} (hk : 0 < k)
    (hkeyword : c.current.kind = .keyword s) (h : KeywordHeaderRead k c word selector xs c') : xs ≠ [] := by
  cases h with
  | out => exact absurd hk (Nat.lt_irrefl 0)
  | stop noKeyword => exact absurd hkeyword (noKeyword s)
  | cons => exact List.cons_ne_nil _ _

theorem MethodHeaderRead.phrase (hn : 0 < n) (h : MethodHeaderRead n c selector xs c') :
    MethodHeader c.tokens (selector.bare, xs.map Ident.bare) c'.tokens := by
  cases h with
  | unary word =>
    rw [Cursor.tokens_of_kind word TokenKind.noConfusion]
    exact .unary word
  | binary operator param =>
    have hoperator := isOperator_of_isBinaryOperator operator
    have hne : c.current.kind ≠ .endOfInput := by
      rcases hoperator with ⟨op, hop⟩ | hbar
      · simp [hop]
      · simp [hbar]
    rw [Cursor.tokens_eq_cons hne]
    exact .binary hoperator (name_of_isName param)
  | keyword keyword words =>
    obtain ⟨parts, hparts, hword, hparams⟩ := words.many
    have hne := words.ne_nil hn keyword
    cases parts with
    | nil => exact absurd (List.map_eq_nil_iff.mp hparams) hne
    | cons part parts =>
      rw [Ident.bare, hword, hparams]
      simpa using MethodHeader.keyword hparts

theorem MethodBodyRead.phrase {body : MethodBody} {close : Span} (h : MethodBodyRead n c body close c') :
    MethodBlock c.tokens body.bare c'.tokens := by
  cases h with
  | code opening body closing =>
    obtain ⟨hopening, htokens⟩ := Cursor.tokens_of_isAt opening
    obtain ⟨hclosing, hrest⟩ := Cursor.tokens_of_isAt closing
    have hbody := body.phrase (readsExpression_expressionAt n (n + 1))
    rw [hrest] at hbody
    rw [htokens]
    exact .code hopening hbody hclosing
  | primitive opening keyword name closing =>
    rw [Cursor.tokens_of_kind opening TokenKind.noConfusion, Cursor.tokens_of_kind keyword TokenKind.noConfusion,
      Cursor.tokens_of_kind name TokenKind.noConfusion, Cursor.tokens_of_kind closing TokenKind.noConfusion]
    exact .primitive opening keyword name closing

theorem MethodRead.phrase (hn : 0 < n) {m : MethodDef} (h : MethodRead n c m c') :
    Member c.tokens m.bare c'.tokens := by
  cases h with
  | classSide word _ header code =>
    rw [Cursor.tokens_of_kind word TokenKind.noConfusion]
    exact .classSide word (header.phrase hn) code.phrase
  | instanceSide header code => exact .instanceSide (header.phrase hn) code.phrase

theorem MethodsRead.many (hn : 0 < n) {k : Nat} {ms : List MethodDef} (h : MethodsRead n k c ms c') :
    Many Member c.tokens (ms.map MethodDef.bare) c'.tokens := by
  induction h with
  | stop => exact .nil
  | cons head _ _ ih => exact .cons (head.phrase hn) ih

end Methods

/-! ## Classes -/

section Classes

variable {n : Nat} {c c' : Cursor}

/-- A list of variables that takes nothing is none, and no bar stands there. -/
theorem VariablesRead.headKind_ne {xs : List Ident} (h : VariablesRead n c xs c') (htokens : c'.tokens = c.tokens) :
    headKind c.tokens ≠ .punctuation .bar := by
  cases h with
  | none noBar => exact of_decide_eq_false noBar
  | some opening names closing =>
    obtain ⟨-, hopening⟩ := Cursor.tokens_of_isAt opening
    obtain ⟨-, hclosing⟩ := Cursor.tokens_of_isAt closing
    have hnames := names.many fun _ _ => name_of_isName
    have hlength := (hnames.leaves (fun _ _ _ _ => Name.leaves) le_rfl).length_le
    rw [hclosing, htokens, hopening, List.length_cons, List.length_cons] at hlength
    omega

/-- What stands before a class definition, up to its name. -/
theorem tokens_of_isAtClass (h : c.isAtClass = true) :
    c.tokens = c.current :: c.next.current :: c.next.next.tokens ∧
      c.next.current.kind = .keyword "subclass:" ∧
      ((∃ x, c.current.kind = .identifier x) ∨ c.current.kind = .reserved .nilWord) := by
  obtain ⟨hhead, hword⟩ := Bool.and_eq_true_iff.mp h
  have hword := of_decide_eq_true hword
  have hstart : (∃ x, c.current.kind = .identifier x) ∨ c.current.kind = .reserved .nilWord := by
    revert hhead
    generalize c.current.kind = kind
    cases kind with
    | identifier x => exact fun _ => .inl ⟨x, rfl⟩
    | reserved word => cases word <;> simp
    | _ => exact fun h => Bool.noConfusion h
  have hne : c.current.kind ≠ .endOfInput ∧ c.following.kind ≠ c.current.kind := by
    rw [hword]
    rcases hstart with ⟨x, hx⟩ | hnil
    · simp [hx]
    · simp [hnil]
  have hnext : c.next.current.kind = .keyword "subclass:" := by
    rw [Cursor.current_next hne.1 hne.2, hword]
  refine ⟨?_, hnext, hstart⟩
  rw [Cursor.tokens_eq_cons hne.1, Cursor.tokens_of_kind hnext TokenKind.noConfusion]

theorem SuperclassAt.phrase {t : Token} {parent : Option Ident} (h : SuperclassAt t parent)
    (hstart : (∃ x, t.kind = .identifier x) ∨ t.kind = .reserved .nilWord) :
    Superclass t (parent.map Ident.bare) := by
  cases h with
  | name token => exact .name token
  | none noName =>
    rcases hstart with ⟨x, hx⟩ | hnil
    · exact absurd hx (noName x)
    · exact .none hnil

theorem ClassRead.phrase (hn : 0 < n) {d : ClassDef} (hat : c.isAtClass = true) (h : ClassRead n c d c') :
    ClassPhrase c.tokens d.bare c'.tokens := by
  cases h with
  | mk head name opening fields methods closing =>
    obtain ⟨htokens, hkeyword, hstart⟩ := tokens_of_isAtClass hat
    obtain ⟨hopening, hopenTokens⟩ := Cursor.tokens_of_isAt opening
    obtain ⟨hclosing, hcloseTokens⟩ := Cursor.tokens_of_isAt closing
    have hmembers := methods.many hn
    rw [hcloseTokens] at hmembers
    rw [htokens, Cursor.tokens_of_kind name TokenKind.noConfusion, hopenTokens]
    exact .mk (head.phrase hstart) hkeyword name hopening fields.phrase fields.headKind_ne hmembers hclosing

theorem ClassRun.many (hn : 0 < n) {ds : List ClassDef} (h : ClassRun n c ds c') :
    Many ClassPhrase c.tokens (ds.map ClassDef.bare) c'.tokens := by
  induction h with
  | nil => exact .nil
  | cons atClass head _ ih => exact .cons (head.phrase hn atClass) ih

end Classes

end ReadM

open ReadM

/-- A unit that can be read consists of classes and a body, up to the end of the text, which it notes. -/
theorem SourceUnit.phrases_of_ofCursor {c : Cursor} {u : SourceUnit} (hc : c.tokens ≠ [])
    (h : SourceUnit.ofCursor c = .ok u) :
    ∃ us rest, Many ClassPhrase c.tokens (u.classes.map ClassDef.bare) us ∧ BodyPhrase us u.main.bare rest ∧
      headKind rest = .endOfInput ∧ u.finish = (rest.headD default).span := by
  cases unitRead_of_ok h with
  | mk run body =>
    exact ⟨_, _, run.many (List.length_pos_iff.mpr hc), body.phrase (readsExpression_expressionAt _ _),
      of_decide_eq_true body.isAtEnd, rfl⟩

theorem Grammar.ClassPhrase.leaves {ts rest : List Token} {d : ClassDef} (h : ClassPhrase ts d rest) : Leaves 1 ts rest := by
  cases h with
  | @mk head t name opening closing us vs _ _ _ _ _ superclass word symbol hopening fields bar members
      hclosing =>
    have hmembers := (members.leaves (fun _ _ _ _ => Member.leaves) le_rfl).tail hclosing TokenKind.noConfusion
    have hbody := (fields.leaves.trans hmembers).cons hopening TokenKind.noConfusion
    have hname := hbody.cons symbol TokenKind.noConfusion
    have hword := hname.cons word TokenKind.noConfusion
    exact (hword.cons rfl (ne_finish_of_superclass superclass)).mono (by omega)

/-- The tokens of a text that can be read are those of the classes and of the body, and the end of the
text. -/
theorem SourceUnit.phrases_of_ofSource {source : String} {u : SourceUnit}
    (h : SourceUnit.ofSource source = .ok u) :
    ∃ us, Many ClassPhrase (Cursor.ofTokens (tokens source)).tokens (u.classes.map ClassDef.bare) us ∧
      BodyPhrase us u.main.bare [.finish (Position.advance {} source.toList)] ∧
      u.finish = .point (Position.advance {} source.toList) := by
  obtain ⟨read, htokens, hread⟩ := (laidOut_tokens source).eq_append_finish
  rw [List.nil_append] at htokens
  obtain ⟨us, rest, hclasses, hmain, hend, hfinish⟩ := phrases_of_ofCursor (ofTokens_ne_nil _) h
  have hleaves := (hclasses.leaves (fun _ _ _ _ => ClassPhrase.leaves) le_rfl).trans hmain.leaves
  rw [htokens, Cursor.ofTokens_filter rfl] at hleaves
  have hrest : rest = [.finish (Position.advance {} source.toList)] := by
    refine hleaves.eq_of_finish (fun t ht => ?_) rfl hend
    exact of_decide_eq_false (hread t (List.mem_of_mem_filter ht))
  rw [hrest] at hmain hfinish
  exact ⟨us, hclasses, hmain, hfinish⟩

end Smalltalk
