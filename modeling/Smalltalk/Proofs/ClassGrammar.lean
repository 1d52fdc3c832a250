import Mathlib
import Smalltalk.Proofs.Acceptance
import Smalltalk.Proofs.DefinitionSteps

/-!
# The grammar of class definitions

The word `class` marks a method of the class side and is also a possible selector. One token after
it decides: if a method can start there, the word is taken for the mark. A body between brackets does
not start like a method, but the pragma of a primitive does, with an operator. So the grammar and
the reader agree on every class but those in which an instance method that is a primitive is named
`class`, and these cannot be read.
-/

namespace Smalltalk

open Grammar

/-! ## Bare definitions -/

def MethodBody.bare : MethodBody → MethodBody
  | code body => code body.bare
  | primitive name => primitive name.bare

def MethodDef.bare (m : MethodDef) : MethodDef :=
  ⟨m.selector.bare, m.params.map Ident.bare, m.classSide, m.body.bare, {}, {}⟩

def ClassDef.bare (d : ClassDef) : ClassDef :=
  ⟨d.name.bare, d.superclass.map Ident.bare, d.fields.map Ident.bare, d.methods.map MethodDef.bare, {}⟩

/-! ## Phrases -/

namespace Grammar

inductive KeywordParameter : List Token → String × Ident → List Token → Prop
  | mk {t : Token} {ts rest : List Token} {word : String} {x : Ident} (token : t.kind = .keyword word)
    (name : Name ts x rest) : KeywordParameter (t :: ts) (word, x) rest

/-- Selectors and parameters: `ID | BINOP ID | (KEYWORD ID)+` -/
inductive MethodHeader : List Token → Ident × List Ident → List Token → Prop
  | unary {t : Token} {rest : List Token} {x : String} (token : t.kind = .identifier x) :
    MethodHeader (t :: rest) (⟨x, {}⟩, []) rest
  | binary {t : Token} {ts rest : List Token} {x : Ident} (operator : IsOperator t)
    (param : Name ts x rest) : MethodHeader (t :: ts) (⟨t.lexeme, {}⟩, [x]) rest
  | keyword {ts rest : List Token} {part : String × Ident} {parts : List (String × Ident)}
    (words : Many KeywordParameter ts (part :: parts) rest) :
    MethodHeader ts (⟨String.join ((part :: parts).map (·.1)), {}⟩, (part :: parts).map (·.2)) rest

/-- What methods do: `'[' body ']' | '<' 'primitive:' SYMBOL '>'` -/
inductive MethodBlock : List Token → MethodBody → List Token → Prop
  | code {t t' : Token} {ts rest : List Token} {b : Body} (opening : t.kind = .punctuation .leftBracket)
    (body : BodyPhrase ts b (t' :: rest)) (closing : t'.kind = .punctuation .rightBracket) :
    MethodBlock (t :: ts) (.code b) rest
  | primitive {opening t t' closing : Token} {rest : List Token} {x : String}
    (hopening : opening.kind = .operator "<") (word : t.kind = .keyword "primitive:")
    (symbol : t'.kind = .symbol x) (hclosing : closing.kind = .operator ">") :
    MethodBlock (opening :: t :: t' :: closing :: rest) (.primitive ⟨x, {}⟩) rest

/-- Methods: `'class'? header block` -/
inductive Member : List Token → MethodDef → List Token → Prop
  | instanceSide {ts us rest : List Token} {header : Ident × List Ident} {b : MethodBody}
    (head : MethodHeader ts header us) (block : MethodBlock us b rest) :
    Member ts ⟨header.1, header.2, false, b, {}, {}⟩ rest
  | classSide {t : Token} {ts us rest : List Token} {header : Ident × List Ident} {b : MethodBody}
    (word : t.kind = .identifier "class") (head : MethodHeader ts header us)
    (block : MethodBlock us b rest) : Member (t :: ts) ⟨header.1, header.2, true, b, {}, {}⟩ rest

/-- `ID` or the word for no superclass. -/
inductive Superclass : Token → Option Ident → Prop
  | name {t : Token} {x : String} (token : t.kind = .identifier x) : Superclass t (some ⟨x, {}⟩)
  | none {t : Token} (token : t.kind = .reserved .nilWord) : Superclass t none

/-- Classes: `(ID | nil) 'subclass:' SYMBOL '[' ('|' ID* '|')? member* ']'`. A bar after the bracket
opens the fields, so a class without fields does not start with a method named by a bar. -/
inductive ClassPhrase : List Token → ClassDef → List Token → Prop
  | mk {head t name opening closing : Token} {ts us rest : List Token} {parent : Option Ident}
    {x : String} {xs : List Ident} {ms : List MethodDef} (superclass : Superclass head parent)
    (word : t.kind = .keyword "subclass:") (symbol : name.kind = .symbol x)
    (hopening : opening.kind = .punctuation .leftBracket) (fields : Variables ts xs us)
    (bar : us = ts → headKind ts ≠ .punctuation .bar) (members : Many Member us ms (closing :: rest))
    (hclosing : closing.kind = .punctuation .rightBracket) :
    ClassPhrase (head :: t :: name :: opening :: ts) ⟨⟨x, {}⟩, parent, xs, ms, {}⟩ rest

/-- An instance method that is a primitive named `class`. -/
def IsPrimitiveClass (m : MethodDef) : Prop :=
  m.classSide = false ∧ m.selector.name = "class" ∧ m.params = [] ∧ m.body.code? = none

/-! ## What phrases take -/

section Leaves

variable {ts rest : List Token}

theorem KeywordParameter.leaves {part : String × Ident} (h : KeywordParameter ts part rest) :
    Leaves 1 ts rest := by
  cases h with
  | mk token name => exact (name.leaves.cons token (by simp)).mono (by omega)

theorem MethodHeader.leaves {header : Ident × List Ident} (h : MethodHeader ts header rest) :
    Leaves 1 ts rest := by
  cases h with
  | unary token => exact Leaves.refl.cons token (by simp)
  | binary operator param => exact (param.leaves.cons rfl operator.ne_finish).mono (by omega)
  | keyword words =>
    exact (words.leaves (fun _ _ _ _ => KeywordParameter.leaves) le_rfl).mono (by simp)

theorem MethodBlock.leaves {b : MethodBody} (h : MethodBlock ts b rest) : Leaves 1 ts rest := by
  cases h with
  | code opening body closing =>
    have hbody := body.leaves.tail closing (by simp)
    exact (hbody.cons opening (by simp)).mono (by omega)
  | primitive hopening word symbol hclosing =>
    have hclose : Leaves 1 (_ :: rest) rest := Leaves.refl.cons hclosing (by simp)
    have hname := hclose.cons symbol (by simp)
    exact ((hname.cons word (by simp)).cons hopening (by simp)).mono (by omega)

theorem MethodBlock.ne_keyword {b : MethodBody} (h : MethodBlock ts b rest) (word : String) :
    headKind ts ≠ .keyword word := by
  cases h with
  | code opening | primitive opening => simp [opening]

theorem Member.leaves {m : MethodDef} (h : Member ts m rest) : Leaves 1 ts rest := by
  cases h with
  | instanceSide head block => exact (head.leaves.trans block.leaves).mono (by omega)
  | classSide word head block =>
    exact ((head.leaves.trans block.leaves).cons word (by simp)).mono (by omega)

end Leaves

end Grammar

/-! ## Reading methods -/

namespace ReadM

section Methods

variable {n : Nat} {ts us rest : List Token}

/-- A selector with its parameters, without places. -/
def bareHeader (header : Ident × List Ident) : Ident × List Ident := (header.1.bare, header.2.map Ident.bare)

theorem takes_keywordHeader {parts : List (String × Ident)} {k : Nat}
    (h : Many KeywordParameter ts parts rest) (hrest : ∀ word, headKind rest ≠ .keyword word)
    (hk : parts.length ≤ k) (word : Ident) :
    Takes (fun c (r : Ident × List Ident) c' => KeywordHeaderRead k c word r.1 r.2 c') bareHeader ts
      (⟨word.name ++ String.join (parts.map (·.1)), {}⟩, parts.map (·.2)) rest := by
  induction h generalizing k word with
  | nil =>
    rintro c rfl
    have hstop : KeywordHeaderRead k c word word [] c :=
      KeywordHeaderRead.iff_of_stop (.inr hrest) |>.mpr ⟨rfl, rfl, rfl⟩
    exact ⟨(word, []), c, hstop, rfl, by simp [bareHeader, Ident.bare]⟩
  | cons head _ ih =>
    rw [List.length_cons] at hk
    obtain ⟨k, rfl⟩ := Nat.exists_eq_succ_of_ne_zero (by omega : k ≠ 0)
    intro c hc
    cases head with
    | @mk t _ _ keyword x token name =>
      obtain ⟨hkeyword, hnext⟩ := Cursor.of_tokens_cons hc token (by simp)
      obtain ⟨y, hy, rfl, hnext⟩ := takes_name name hnext
      obtain ⟨⟨selector, ys⟩, c', htail, hc', hview⟩ :=
        ih (k := k) hrest (by omega) ⟨word.name ++ keyword, word.span.merge c.current.span⟩ c.next.next hnext
      obtain ⟨hselector, hparams⟩ := Prod.mk.inj hview
      refine ⟨(selector, y :: ys), c', .cons hkeyword hy htail, hc', ?_⟩
      simp [bareHeader, hselector, hparams, String.append_assoc]

/-- The head of a method is taken, in all three forms. -/
theorem takes_methodHeader {header : Ident × List Ident} (h : MethodHeader ts header rest)
    (hrest : ∀ word, headKind rest ≠ .keyword word) (hn : ts.length ≤ n) :
    Takes (fun c (r : Ident × List Ident) c' => MethodHeaderRead n c r.1 r.2 c') bareHeader ts header rest := by
  intro c hc
  cases h with
  | @unary _ _ x token =>
    obtain ⟨hword, hnext⟩ := Cursor.of_tokens_cons hc token (by simp)
    exact ⟨(⟨x, c.current.span⟩, []), c.next, .unary hword, hnext, rfl⟩
  | binary operator param =>
    obtain ⟨hkind, hnext⟩ := Cursor.of_tokens_cons hc rfl operator.ne_finish
    obtain ⟨y, hy, rfl, hnext⟩ := takes_name param hnext
    refine ⟨(⟨c.current.lexeme, c.current.span⟩, [y]), c.next.next, ?_, hnext, ?_⟩
    · exact .binary (hkind ▸ isBinaryOperator_of_isOperator operator) hy
    · rw [Cursor.current_of_tokens hc]
      rfl
  | keyword words =>
    have hlength := (words.leaves (fun _ _ _ _ => KeywordParameter.leaves) le_rfl).length_add_le
    obtain ⟨r, c', hr, hc', hview⟩ :=
      takes_keywordHeader words hrest (k := n) (by omega) ⟨"", c.current.span⟩ c hc
    cases words with
    | cons head tail =>
      cases head with
      | mk token name =>
        obtain ⟨hkeyword, -⟩ := Cursor.of_tokens_cons hc token (by simp)
        exact ⟨r, c', .keyword hkeyword hr, hc', by simpa using hview⟩

/-- The code of a method is taken, and so is the pragma of a primitive. -/
theorem takes_methodBody {b : MethodBody} (h : MethodBlock ts b rest) (hn : ts.length ≤ n) :
    Takes (fun c (r : MethodBody × Span) c' => MethodBodyRead n c r.1 r.2 c') (·.1.bare) ts b rest := by
  intro c hc
  cases h with
  | @code _ t' _ _ _ opening body closing =>
    rw [List.length_cons] at hn
    have hinner := takesExpressions_expressionWithin n
    have hend : headKind (t' :: rest) = BodyEnd.bracket.kind := closing
    obtain ⟨hopening, hnext⟩ := Cursor.of_tokens_mark hc opening
    obtain ⟨b', c₁, hb', hc₁, rfl⟩ := takes_body hinner body hend (n := n) (by omega) (by omega) c.next hnext
    obtain ⟨hclosing, hrest⟩ := Cursor.of_tokens_mark hc₁ closing
    exact ⟨(.code b', c₁.current.span), c₁.next, .code hopening hb' hclosing, hrest, rfl⟩
  | primitive hopening word symbol hclosing =>
    obtain ⟨hopening, hnext⟩ := Cursor.of_tokens_cons hc hopening (by simp)
    obtain ⟨hword, hnext⟩ := Cursor.of_tokens_cons hnext word (by simp)
    obtain ⟨hsymbol, hnext⟩ := Cursor.of_tokens_cons hnext symbol (by simp)
    obtain ⟨hclosing, hrest⟩ := Cursor.of_tokens_cons hnext hclosing (by simp)
    exact ⟨(_, _), _, .primitive hopening hword hsymbol hclosing, hrest, rfl⟩

/-- A method without the mark of the class side: its header is taken, and then its body. -/
theorem takes_methodTail {header : Ident × List Ident} {b : MethodBody} (head : MethodHeader ts header us)
    (block : MethodBlock us b rest) (hn : ts.length ≤ n) {c : Cursor} (hc : c.tokens = ts) :
    ∃ selector params c₁ body close c', MethodHeaderRead n c selector params c₁ ∧
      MethodBodyRead n c₁ body close c' ∧ c'.tokens = rest ∧
      bareHeader (selector, params) = header ∧ body.bare = b := by
  have hlength := head.leaves.length_le
  obtain ⟨⟨selector, params⟩, c₁, hheader, hc₁, hview⟩ := takes_methodHeader head block.ne_keyword hn c hc
  obtain ⟨⟨body, close⟩, c', hbody, hc', hb⟩ := takes_methodBody block (n := n) (by omega) c₁ hc₁
  exact ⟨selector, params, c₁, body, close, c', hheader, hbody, hc', hview, hb⟩

theorem startsMethod_of_methodHeader {header : Ident × List Ident} (h : MethodHeader ts header rest) :
    startsMethod (headKind ts) = true := by
  cases h with
  | unary token => rw [headKind_cons, token]; rfl
  | binary operator param =>
    rcases operator with ⟨op, hop⟩ | hbar
    · rw [headKind_cons, hop]; rfl
    · rw [headKind_cons, hbar]; rfl
  | keyword words =>
    cases words with
    | cons head tail =>
      cases head with
      | mk token name => rw [headKind_cons, token]; rfl

/-- Whether the word `class` at the cursor is taken for the mark of the class side. -/
def marksClassSide (c : Cursor) : Bool :=
  c.current.kind = .identifier "class" && startsMethod c.following.kind

/-- The word `class` in front of an instance method is its name; it is taken for the mark only if the method
is a primitive. -/
theorem marksClassSide_of_instanceSide {header : Ident × List Ident} {b : MethodBody} {c : Cursor}
    (head : MethodHeader ts header us) (block : MethodBlock us b rest) (hc : c.tokens = ts) :
    marksClassSide c = true ↔ IsPrimitiveClass ⟨header.1, header.2, false, b, {}, {}⟩ := by
  obtain ⟨tokens, nodes⟩ := c
  subst hc
  cases head with
  | @unary t _ x token =>
    cases block with
    | code opening body closing =>
      simp [marksClassSide, IsPrimitiveClass, Cursor.following, startsMethod, opening, MethodBody.code?]
    | primitive hopening word symbol hclosing =>
      simp [marksClassSide, IsPrimitiveClass, Cursor.current, Cursor.following, startsMethod, token,
        hopening, MethodBody.code?]
  | @binary t _ _ _ operator param =>
    have ht : t.kind ≠ .identifier "class" := by
      rcases operator with ⟨op, hop⟩ | hbar
      · simp [hop]
      · simp [hbar]
    simp [marksClassSide, IsPrimitiveClass, Cursor.current, ht]
  | keyword words =>
    cases words with
    | cons head tail =>
      cases head with
      | mk token name => simp [marksClassSide, IsPrimitiveClass, Cursor.current, token]

/-- Methods are taken, unless they are primitives of the instance side named `class`. -/
theorem takes_method {m : MethodDef} (h : Member ts m rest) (hm : ¬ IsPrimitiveClass m)
    (hn : ts.length ≤ n) : Takes (MethodRead n) MethodDef.bare ts m rest := by
  intro c hc
  cases h with
  | instanceSide head block =>
    have hmark : marksClassSide c = false :=
      Bool.eq_false_iff.mpr (mt (marksClassSide_of_instanceSide head block hc).mp hm)
    have hnoMark := (Bool.and_eq_false_iff.mp hmark).imp_left of_decide_eq_false
    obtain ⟨selector, params, c₁, body, close, c', hheader, hbody, hc', rfl, rfl⟩ :=
      takes_methodTail head block hn hc
    exact ⟨_, c', .instanceSide hheader hbody hnoMark, hc', rfl⟩
  | @classSide t us _ _ _ _ word head block =>
    rw [List.length_cons] at hn
    obtain ⟨hword, hnext⟩ := Cursor.of_tokens_cons hc word (by simp)
    have hfollows : startsMethod c.following.kind = true := by
      have hstart := startsMethod_of_methodHeader head
      have hne := head.leaves.length_add_le
      cases us with
      | nil => simp at hne
      | cons t' us =>
        rw [Cursor.following, hc]
        exact hstart
    obtain ⟨selector, params, c₁, body, close, c', hheader, hbody, hc', rfl, rfl⟩ :=
      takes_methodTail head block (n := n) (by omega) hnext
    exact ⟨_, c', .classSide hword hfollows hheader hbody, hc', rfl⟩

/-- Where a method starts, the methods of a class do not end. -/
theorem isOpen_of_member {m : MethodDef} {c : Cursor} (h : Member c.tokens m rest) :
    (c.isAt .rightBracket || c.current.isFinish) = false := by
  have hstart : startsMethod c.current.kind = true := by
    show startsMethod (headKind c.tokens) = true
    generalize c.tokens = ts at h
    cases h with
    | instanceSide head block => exact startsMethod_of_methodHeader head
    | classSide word head block => rw [headKind_cons, word]; rfl
  refine Bool.eq_false_iff.mpr fun hend => ?_
  rcases Bool.or_eq_true_iff.mp hend with hend | hend
  · rw [show c.current.kind = .punctuation .rightBracket from of_decide_eq_true hend] at hstart
    cases hstart
  · rw [show c.current.kind = .endOfInput from of_decide_eq_true hend] at hstart
    cases hstart

/-- Methods are taken, up to the bracket that closes their class. -/
theorem takes_methods {ms : List MethodDef} {t : Token} {k : Nat} (h : Many Member ts ms (t :: rest))
    (ht : t.kind = .punctuation .rightBracket) (hms : ∀ m ∈ ms, ¬ IsPrimitiveClass m)
    (hn : ts.length ≤ n) (hk : ms.length ≤ k) :
    Takes (MethodsRead n k) (List.map MethodDef.bare) ts ms (t :: rest) := by
  generalize hus : t :: rest = us at h ⊢
  induction h generalizing k with
  | nil =>
    subst hus
    intro c hc
    have hends := (Cursor.of_tokens_mark hc ht).1
    exact ⟨[], c, .stop (.inr (Bool.or_eq_true_iff.mpr (.inl hends))), hc, rfl⟩
  | cons head _ ih =>
    rw [List.length_cons] at hk
    obtain ⟨k, rfl⟩ := Nat.exists_eq_succ_of_ne_zero (by omega : k ≠ 0)
    obtain ⟨hm, htail⟩ := List.forall_mem_cons.mp hms
    have hlength := head.leaves.length_le
    rintro c rfl
    obtain ⟨m', c₁, hm', hc₁, rfl⟩ := takes_method head hm hn c rfl
    obtain ⟨ms', c', hms', hc', rfl⟩ := ih (k := k) htail (by omega) (by omega) hus c₁ hc₁
    exact ⟨m' :: ms', c', .cons hm' (isOpen_of_member head) hms', hc', rfl⟩

end Methods

/-! ## Where reading fails -/

section Fails

variable {n : Nat} {c c' : Cursor} {rest : List Token}

/-- The operator that opens the pragma is taken for a selector, and its keyword for a parameter. -/
theorem not_methodRead {m m' : MethodDef} (h : Member c.tokens m rest) (hm : IsPrimitiveClass m) :
    ¬ MethodRead n c m' c' := by
  obtain ⟨hside, hname, hparams, hbody⟩ := id hm
  generalize hc : c.tokens = ts at h
  cases h with
  | classSide => cases hside
  | instanceSide head block =>
    have hmark := (marksClassSide_of_instanceSide head block hc).mpr hm
    obtain ⟨hclass, hfollows⟩ := Bool.and_eq_true_iff.mp hmark
    intro hread
    cases hread with
    | instanceSide _ _ noMark =>
      rcases noMark with hno | hno
      · exact hno (of_decide_eq_true hclass)
      · rw [hfollows] at hno
        cases hno
    | classSide _ _ header _ =>
      cases head with
      | binary | keyword => cases hparams
      | unary token =>
        cases block with
        | code => cases hbody
        | primitive hopening word symbol hclosing =>
          obtain ⟨-, hnext⟩ := Cursor.of_tokens_cons hc token (by simp)
          obtain ⟨hopening, hnext⟩ := Cursor.of_tokens_cons hnext hopening (by simp)
          obtain ⟨hword, -⟩ := Cursor.of_tokens_cons hnext word (by simp)
          cases header with
          | unary name => simp [hopening] at name
          | binary _ param =>
            have hname := param.1
            rw [hword] at hname
            cases hname
          | keyword keyword => simp [hopening] at keyword

/-- One method that cannot be read makes the methods of its class unreadable. -/
theorem not_methodsRead {ms ms' : List MethodDef} {k : Nat} (h : Many Member c.tokens ms rest)
    (hms : ∃ m ∈ ms, IsPrimitiveClass m) (hn : c.tokens.length ≤ n) (hk : ms.length ≤ k) :
    ¬ MethodsRead n k c ms' c' := by
  generalize hc : c.tokens = ts at h hn
  induction h generalizing k c ms' with
  | nil => simp at hms
  | @cons _ _ _ m ms head _ ih =>
    subst hc
    intro hread
    have hopen := isOpen_of_member head
    cases hread with
    | stop ends =>
      rcases ends with rfl | hend
      · simp at hk
      · rw [hopen] at hend
        cases hend
    | cons head' _ tail' =>
      rw [List.length_cons] at hk
      have hlength := head.leaves.length_le
      by_cases hm : IsPrimitiveClass m
      · exact not_methodRead head hm head'
      -- the method is read in one way only, so that the next one starts where it does in the grammar
      · obtain ⟨m'', c₁, hm'', hc₁, -⟩ := takes_method head hm hn c rfl
        obtain ⟨-, rfl⟩ := EStateM.Result.ok.inj
          ((method_eq_ok_iff.mpr hm'').symm.trans (method_eq_ok_iff.mpr head'))
        refine ih ?_ (by omega) hc₁ (by omega) tail'
        obtain ⟨m', hmem, hm'⟩ := hms
        rcases List.mem_cons.mp hmem with rfl | hmem
        · exact absurd hm' hm
        · exact ⟨m', hmem, hm'⟩

end Fails

/-! ## Reading classes -/

section Classes

variable {n : Nat} {ts rest : List Token} {d : ClassDef}

theorem ne_finish_of_superclass {t : Token} {parent : Option Ident} (h : Superclass t parent) :
    t.kind ≠ .endOfInput := by
  cases h with
  | name token | none token => simp [token]

theorem superclassAt_of_superclass {t : Token} {parent : Option Ident} (h : Superclass t parent) :
    ∃ parent', SuperclassAt t parent' ∧ parent'.map Ident.bare = parent := by
  cases h with
  | @name x token => exact ⟨some ⟨x, t.span⟩, .name token, rfl⟩
  | none token => exact ⟨none, .none (by simp [token]), rfl⟩

/-- Classes are taken, unless they hold a method that is not. -/
theorem takes_classDef (h : ClassPhrase ts d rest) (hd : ∀ m ∈ d.methods, ¬ IsPrimitiveClass m)
    (hn : ts.length ≤ n) : Takes (ClassRead n) ClassDef.bare ts d rest := by
  intro c hc
  cases h with
  | mk superclass word symbol hopening fields bar members hclosing =>
    have hfields := fields.leaves.length_le
    have hmembers := (members.leaves (fun _ _ _ _ => Member.leaves) le_rfl).length_add_le
    simp only [List.length_cons] at hn hmembers
    obtain ⟨parent, hparent, rfl⟩ := superclassAt_of_superclass superclass
    obtain ⟨-, hnext⟩ := Cursor.of_tokens_cons hc rfl (ne_finish_of_superclass superclass)
    obtain ⟨-, hnext⟩ := Cursor.of_tokens_cons hnext word (by simp)
    obtain ⟨hname, hnext⟩ := Cursor.of_tokens_cons hnext symbol (by simp)
    obtain ⟨hopening, hnext⟩ := Cursor.of_tokens_mark hnext hopening
    obtain ⟨xs, c₁, hxs, hc₁, rfl⟩ := takes_variables fields bar (n := n) (by omega) _ hnext
    obtain ⟨ms, c₂, hms, hc₂, rfl⟩ :=
      takes_methods members hclosing hd (n := n) (k := n) (by omega) (by omega) c₁ hc₁
    obtain ⟨hclosing, hrest⟩ := Cursor.of_tokens_mark hc₂ hclosing
    rw [← Cursor.current_of_tokens hc] at hparent
    exact ⟨_, _, .mk hparent hname hopening hxs hms hclosing, hrest, rfl⟩

/-- A class with a method that cannot be read cannot be read. -/
theorem not_classRead {d' : ClassDef} {c c' : Cursor} (h : ClassPhrase c.tokens d rest)
    (hd : ∃ m ∈ d.methods, IsPrimitiveClass m) (hn : c.tokens.length ≤ n) : ¬ ClassRead n c d' c' := by
  generalize hc : c.tokens = ts at h hn
  intro hread
  cases h with
  | mk superclass word symbol hopening fields bar members hclosing =>
    have hfields := fields.leaves.length_le
    have hmembers := (members.leaves (fun _ _ _ _ => Member.leaves) le_rfl).length_add_le
    simp only [List.length_cons] at hn hmembers
    obtain ⟨-, hnext⟩ := Cursor.of_tokens_cons hc rfl (ne_finish_of_superclass superclass)
    obtain ⟨-, hnext⟩ := Cursor.of_tokens_cons hnext word (by simp)
    obtain ⟨-, hnext⟩ := Cursor.of_tokens_cons hnext symbol (by simp)
    obtain ⟨-, hnext⟩ := Cursor.of_tokens_mark hnext hopening
    obtain ⟨xs, c₁, hxs, rfl, -⟩ := takes_variables fields bar (n := n) (by omega) _ hnext
    cases hread with
    | mk _ _ _ fields' methods' _ =>
      obtain ⟨-, rfl⟩ := EStateM.Result.ok.inj
        ((variableList_eq_ok_iff.mpr hxs).symm.trans (variableList_eq_ok_iff.mpr fields'))
      exact not_methodsRead members hd (by omega) (by omega) methods'

end Classes

end ReadM

/-- A class of the grammar is read, and stands for what it does in the grammar, exactly if no
instance method that is a primitive is named `class`. -/
theorem classDef_reads_iff {n : Nat} {ts rest : List Token} {d : ClassDef} (h : ClassPhrase ts d rest)
    (hn : ts.length ≤ n) (nodes : Nat) :
    (∃ d' nodes', ReadM.classDef n ⟨ts, nodes⟩ = .ok d' ⟨rest, nodes'⟩ ∧ d'.bare = d) ↔
      ∀ m ∈ d.methods, ¬ IsPrimitiveClass m := by
  constructor
  · rintro ⟨d', nodes', hok, -⟩ m hmem hm
    have hread := ReadM.classDef_eq_ok_iff.mp hok
    exact ReadM.not_classRead (c := ⟨ts, nodes⟩) h ⟨m, hmem, hm⟩ hn hread
  · intro hd
    obtain ⟨d', ⟨_, nodes'⟩, hread, rfl, hbare⟩ := ReadM.takes_classDef h hd hn ⟨ts, nodes⟩ rfl
    exact ⟨d', nodes', ReadM.classDef_eq_ok_iff.mpr hread, hbare⟩

/-- All uses of the word `class` that are read, and a method named by a bar after the fields:
`nil subclass: #T [ | f | | x [ ] class class <primitive: #p> class [ ] class | x [ ] ]`. -/
theorem classDef_reads_class_words :
    let token : TokenKind → Token := fun kind => { kind }
    let bar : Token := ⟨.punctuation .bar, {}, "|"⟩
    let ts : List Token := [token (.reserved .nilWord), token (.keyword "subclass:"),
      token (.symbol "T"), token (.punctuation .leftBracket), bar, token (.identifier "f"), bar,
      bar, token (.identifier "x"), token (.punctuation .leftBracket),
      token (.punctuation .rightBracket), token (.identifier "class"), token (.identifier "class"),
      token (.operator "<"), token (.keyword "primitive:"), token (.symbol "p"), token (.operator ">"),
      token (.identifier "class"), token (.punctuation .leftBracket),
      token (.punctuation .rightBracket), token (.identifier "class"), bar, token (.identifier "x"),
      token (.punctuation .leftBracket), token (.punctuation .rightBracket),
      token (.punctuation .rightBracket)]
    let d : ClassDef := ⟨⟨"T", {}⟩, none, [⟨"f", {}⟩],
      [⟨⟨"|", {}⟩, [⟨"x", {}⟩], false, .code {}, {}, {}⟩,
        ⟨⟨"class", {}⟩, [], true, .primitive ⟨"p", {}⟩, {}, {}⟩,
        ⟨⟨"class", {}⟩, [], false, .code {}, {}, {}⟩,
        ⟨⟨"|", {}⟩, [⟨"x", {}⟩], true, .code {}, {}, {}⟩], {}⟩
    ClassPhrase ts d [] ∧
      ∃ d' nodes, ReadM.classDef ts.length ⟨ts, 0⟩ = .ok d' ⟨[], nodes⟩ ∧ d'.bare = d := by
  intro token bar ts d
  have hempty : ∀ {us : List Token}, BodyPhrase us {} us := .mk .none .none
  have hphrase : ClassPhrase ts d [] :=
    .mk (.none rfl) rfl rfl rfl (.some rfl (.cons (.mk rfl) .nil) rfl) (by simp)
      (.cons (.instanceSide (.binary (.inr rfl) (.mk rfl)) (.code rfl hempty rfl))
        (.cons (.classSide rfl (.unary rfl) (.primitive rfl rfl rfl rfl))
          (.cons (.instanceSide (.unary rfl) (.code rfl hempty rfl))
            (.cons (.classSide rfl (.binary (.inr rfl) (.mk rfl)) (.code rfl hempty rfl)) .nil)))) rfl
  refine ⟨hphrase, (classDef_reads_iff hphrase le_rfl 0).mpr ?_⟩
  simp [d, IsPrimitiveClass, MethodBody.code?]

/-- The class `Object subclass: #T [ class <primitive: #T_class> ]` is in the grammar and cannot be
read. -/
theorem classDef_primitive_class :
    let kinds : List TokenKind := [.identifier "Object", .keyword "subclass:", .symbol "T",
      .punctuation .leftBracket, .identifier "class", .operator "<", .keyword "primitive:",
      .symbol "T_class", .operator ">", .punctuation .rightBracket]
    let ts : List Token := kinds.map fun kind => { kind }
    (∃ d, ClassPhrase ts d []) ∧
      ∃ c, ReadM.classDef ts.length ⟨ts, 0⟩
        = .error ⟨.expected .identifier (.keyword "primitive:"), {}⟩ c := by
  intro kinds ts
  have hphrase : ∃ d, ClassPhrase ts d [] :=
    ⟨_, .mk (.name rfl) rfl rfl rfl .none (by simp)
      (.cons (.instanceSide (.unary rfl) (.primitive rfl rfl rfl rfl)) .nil) rfl⟩
  exact ⟨hphrase, _, rfl⟩

end Smalltalk
