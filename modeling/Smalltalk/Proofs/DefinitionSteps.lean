import Mathlib
import Smalltalk.Proofs.ReadSteps

/-!
# What a reader of definitions does when it succeeds

The readers for methods and classes are taken apart like those for expressions: each succeeds exactly if a
relation holds between the cursor it starts from, its result and the cursor it ends at. Of a unit it is only
said what has been done when it has been read.
-/

namespace Smalltalk.ReadM

section Definitions

variable {n : Nat} {c c' : Cursor}

/-- At most `k` keywords of a method after `word`, each with its parameter. -/
inductive KeywordHeaderRead : Nat → Cursor → Ident → Ident → List Ident → Cursor → Prop where
  | out {c : Cursor} {word : Ident} : KeywordHeaderRead 0 c word word [] c
  | stop {k : Nat} {c : Cursor} {word : Ident} (noKeyword : ∀ s, c.current.kind ≠ .keyword s) :
    KeywordHeaderRead (k + 1) c word word [] c
  | cons {k : Nat} {c c' : Cursor} {word selector x : Ident} {xs : List Ident} {s : String}
    (keyword : c.current.kind = .keyword s) (param : c.next.current.IsName x)
    (tail : KeywordHeaderRead k c.next.next ⟨word.name ++ s, word.span.merge c.current.span⟩ selector xs c') :
    KeywordHeaderRead (k + 1) c word selector (x :: xs) c'

inductive MethodHeaderRead (n : Nat) (c : Cursor) : Ident → List Ident → Cursor → Prop where
  | unary {x : String} (word : c.current.kind = .identifier x) :
    MethodHeaderRead n c ⟨x, c.current.span⟩ [] c.next
  | binary {x : Ident} (operator : isBinaryOperator c.current.kind = true) (param : c.next.current.IsName x) :
    MethodHeaderRead n c ⟨c.current.lexeme, c.current.span⟩ [x] c.next.next
  | keyword {s : String} {selector : Ident} {xs : List Ident} {c' : Cursor} (keyword : c.current.kind = .keyword s)
    (words : KeywordHeaderRead n c ⟨"", c.current.span⟩ selector xs c') : MethodHeaderRead n c selector xs c'

inductive MethodBodyRead (n : Nat) (c : Cursor) : MethodBody → Span → Cursor → Prop where
  | code {b : Body} {c₁ : Cursor} (opening : c.isAt .leftBracket = true)
    (body : BodyRead n (expressionWithin n) .bracket c.next b c₁) (closing : c₁.isAt .rightBracket = true) :
    MethodBodyRead n c (.code b) c₁.current.span c₁.next
  | primitive {x : String} (opening : c.current.kind = .operator "<")
    (keyword : c.next.current.kind = .keyword "primitive:") (name : c.next.next.current.kind = .symbol x)
    (closing : c.next.next.next.current.kind = .operator ">") :
    MethodBodyRead n c (.primitive ⟨x, c.next.next.current.span⟩) c.next.next.next.current.span
      c.next.next.next.next

inductive MethodRead (n : Nat) (c : Cursor) : MethodDef → Cursor → Prop where
  | classSide {selector : Ident} {params : List Ident} {body : MethodBody} {close : Span} {c₁ c' : Cursor}
    (word : c.current.kind = .identifier "class") (follows : startsMethod c.following.kind = true)
    (header : MethodHeaderRead n c.next selector params c₁) (code : MethodBodyRead n c₁ body close c') :
    MethodRead n c { selector, params, classSide := true, body, span := c.current.span.merge close, close } c'
  | instanceSide {selector : Ident} {params : List Ident} {body : MethodBody} {close : Span} {c₁ c' : Cursor}
    (header : MethodHeaderRead n c selector params c₁) (code : MethodBodyRead n c₁ body close c')
    (noMark : c.current.kind ≠ .identifier "class" ∨ startsMethod c.following.kind = false) :
    MethodRead n c { selector, params, classSide := false, body, span := c.current.span.merge close, close } c'

/-- As many methods as there are, but at most `k`. -/
inductive MethodsRead (n : Nat) : Nat → Cursor → List MethodDef → Cursor → Prop where
  | stop {k : Nat} {c : Cursor} (ends : k = 0 ∨ (c.isAt .rightBracket || c.current.isFinish) = true) :
    MethodsRead n k c [] c
  | cons {k : Nat} {c c₁ c' : Cursor} {m : MethodDef} {ms : List MethodDef} (head : MethodRead n c m c₁)
    (isOpen : (c.isAt .rightBracket || c.current.isFinish) = false) (tail : MethodsRead n k c₁ ms c') :
    MethodsRead n (k + 1) c (m :: ms) c'

/-- The superclass that the first token of a class stands for. -/
inductive SuperclassAt (t : Token) : Option Ident → Prop where
  | name {x : String} (token : t.kind = .identifier x) : SuperclassAt t (some ⟨x, t.span⟩)
  | none (noName : ∀ x, t.kind ≠ .identifier x) : SuperclassAt t none

inductive ClassRead (n : Nat) (c : Cursor) : ClassDef → Cursor → Prop where
  | mk {x : String} {superclass : Option Ident} {xs : List Ident} {ms : List MethodDef} {c₁ c₂ : Cursor}
    (head : SuperclassAt c.current superclass) (name : c.next.next.current.kind = .symbol x)
    (opening : c.next.next.next.isAt .leftBracket = true) (fields : VariablesRead n c.next.next.next.next xs c₁)
    (methods : MethodsRead n n c₁ ms c₂) (closing : c₂.isAt .rightBracket = true) :
    ClassRead n c {
      name := ⟨x, c.next.next.current.span⟩
      superclass := superclass
      fields := xs
      methods := ms
      span := c.current.span.merge c₂.current.span } c₂.next

/-- Classes one after the other, none of them refused. -/
inductive ClassRun (n : Nat) : Cursor → List ClassDef → Cursor → Prop where
  | nil {c : Cursor} : ClassRun n c [] c
  | cons {c c₁ c' : Cursor} {d : ClassDef} {ds : List ClassDef} (atClass : c.isAtClass = true)
    (head : ClassRead n c d c₁) (tail : ClassRun n c₁ ds c') : ClassRun n c (d :: ds) c'

inductive UnitRead (c : Cursor) : SourceUnit → Prop where
  | mk {classes : List ClassDef} {main : Body} {c₁ c₂ : Cursor} (run : ClassRun c.tokens.length c classes c₁)
    (body : BodyRead c.tokens.length (expressionWithin c.tokens.length) .finish c₁ main c₂) :
    UnitRead c { classes, main, finish := c₂.current.span, nodeCount := c₂.nodes }

/-- Where no keyword stands, the selector is complete. -/
theorem KeywordHeaderRead.iff_of_stop {k : Nat} {word selector : Ident} {xs : List Ident}
    (h : k = 0 ∨ ∀ s, c.current.kind ≠ .keyword s) :
    KeywordHeaderRead k c word selector xs c' ↔ word = selector ∧ xs = [] ∧ c = c' := by
  constructor
  · intro hread
    cases hread with
    | out | stop => exact ⟨rfl, rfl, rfl⟩
    | cons keyword => simp [keyword] at h
  · rintro ⟨rfl, rfl, rfl⟩
    cases k with
    | zero => exact .out
    | succ k => exact .stop (h.resolve_left k.succ_ne_zero)

/-- Keywords are joined to one selector, `word` being the part before; each has a parameter. -/
theorem keywordHeader_eq_ok_iff {k : Nat} {word : Ident} {params : Array Ident} {r : Ident × List Ident} :
    keywordHeader k word params c = .ok r c' ↔
      ∃ xs, r.2 = params.toList ++ xs ∧ KeywordHeaderRead k c word r.1 xs c' := by
  obtain ⟨selector, rs⟩ := r
  induction k generalizing word params c with
  | zero =>
    simp only [keywordHeader, pure_eq_ok_iff, KeywordHeaderRead.iff_of_stop (.inl rfl)]
    simp [eq_comm, and_assoc, and_left_comm]
  | succ k ih =>
    rw [keywordHeader, run_get]
    cases hkind : c.current.kind with
    | keyword s =>
      simp only [run_advance, bind_eq_ok_iff, identifier_eq_ok_iff, ih]
      constructor
      · rintro ⟨x, _, ⟨param, rfl⟩, xs, rfl, hxs⟩
        exact ⟨x :: xs, by simp, .cons hkind param hxs⟩
      · rintro ⟨xs, rfl, h⟩
        cases h with
        | stop noKeyword => exact absurd hkind (noKeyword s)
        | cons keyword param tail =>
          obtain rfl := TokenKind.keyword.inj (hkind.symm.trans keyword)
          exact ⟨_, _, ⟨param, rfl⟩, _, by simp, tail⟩
    | _ =>
      simp only [pure_eq_ok_iff, KeywordHeaderRead.iff_of_stop (c := c) (.inr (by simp [hkind]))]
      simp [eq_comm, and_assoc, and_left_comm]

/-- The first token of a method tells whether its selector is a name, an operator or made of keywords. -/
theorem methodHeader_eq_ok_iff {r : Ident × List Ident} :
    methodHeader n c = .ok r c' ↔ MethodHeaderRead n c r.1 r.2 c' := by
  obtain ⟨selector, xs⟩ := r
  -- a binary selector is an operator or a bar, and both are read in this way
  have hbinary : isBinaryOperator c.current.kind = true →
      ((do
        let _ ← advance
        let param ← identifier
        return (⟨c.current.lexeme, c.current.span⟩, [param]) : ReadM (Ident × List Ident)) c =
          .ok (selector, xs) c' ↔ MethodHeaderRead n c selector xs c') := by
    intro hoperator
    simp only [run_advance, bind_eq_ok_iff, identifier_eq_ok_iff, pure_eq_ok_iff, Prod.mk.injEq]
    constructor
    · rintro ⟨x, _, ⟨param, rfl⟩, ⟨rfl, rfl⟩, rfl⟩
      exact .binary hoperator param
    · intro h
      cases h with
      | unary word => simp [word, isBinaryOperator] at hoperator
      | binary _ param => exact ⟨_, _, ⟨param, rfl⟩, ⟨rfl, rfl⟩, rfl⟩
      | keyword keyword => simp [keyword, isBinaryOperator] at hoperator
  have hnone : (∀ x, c.current.kind ≠ .identifier x) → isBinaryOperator c.current.kind = false →
      (∀ s, c.current.kind ≠ .keyword s) → ¬ MethodHeaderRead n c selector xs c' := by
    intro hword hoperator hkeyword h
    cases h with
    | unary word => exact hword _ word
    | binary operator => simp [hoperator] at operator
    | keyword keyword => exact hkeyword _ keyword
  rw [methodHeader, run_get]
  generalize hkind : c.current.kind = kind at hbinary hnone
  cases kind with
  | identifier x =>
    simp only [run_advance, pure_eq_ok_iff, Prod.mk.injEq]
    constructor
    · rintro ⟨⟨rfl, rfl⟩, rfl⟩
      exact .unary hkind
    · intro h
      cases h with
      | unary word =>
        obtain rfl := TokenKind.identifier.inj (hkind.symm.trans word)
        exact ⟨⟨rfl, rfl⟩, rfl⟩
      | binary operator => simp [hkind, isBinaryOperator] at operator
      | keyword keyword => simp [hkind] at keyword
  | operator op => exact hbinary rfl
  | punctuation mark =>
    cases mark with
    | bar => exact hbinary rfl
    | _ => exact iff_of_false unexpected_ne_ok (hnone (by simp) rfl (by simp))
  | keyword s =>
    rw [keywordHeader_eq_ok_iff]
    constructor
    · rintro ⟨ys, rfl, words⟩
      exact .keyword hkind words
    · intro h
      cases h with
      | unary word => simp [hkind] at word
      | binary operator => simp [hkind, isBinaryOperator] at operator
      | keyword _ words => exact ⟨_, rfl, words⟩
  | _ => exact iff_of_false unexpected_ne_ok (hnone (by simp) rfl (by simp))

/-- A method has code between brackets, or a pragma that names a part of the machine. -/
theorem methodBody_eq_ok_iff {r : MethodBody × Span} :
    methodBody n c = .ok r c' ↔ MethodBodyRead n c r.1 r.2 c' := by
  obtain ⟨b, close⟩ := r
  rw [methodBody, run_get]
  constructor
  · intro h
    change EStateM.run _ c = _ at h
    split at h
    · next hopening =>
      simp only [run_eq, run_advance, bind_eq_ok_iff, body_eq_ok_iff, expect_eq_ok_iff, pure_eq_ok_iff,
        Prod.mk.injEq] at h
      obtain ⟨b, c₁, hbody, _, _, ⟨hclosing, rfl, rfl⟩, ⟨rfl, rfl⟩, rfl⟩ := h
      exact .code (decide_eq_true hopening) hbody hclosing
    · next hopening =>
      simp only [run_eq, run_advance, run_get] at h
      split at h
      · next hkeyword =>
        simp only [run_advance, run_get] at h
        generalize hkind : c.next.next.current.kind = kind at h
        cases kind with
        | symbol x =>
          simp only [run_advance, run_get] at h
          split at h
          · next hclosing =>
            simp only [run_advance, pure_eq_ok_iff, Prod.mk.injEq] at h
            obtain ⟨⟨rfl, rfl⟩, rfl⟩ := h
            exact .primitive hopening hkeyword hkind hclosing
          · exact absurd h unexpected_ne_ok
        | _ => exact absurd h unexpected_ne_ok
      · rw [bind_eq_ok_iff] at h
        obtain ⟨_, _, h, -⟩ := h
        exact absurd h unexpected_ne_ok
    · exact absurd h unexpected_ne_ok
  · intro h
    cases h with
    | code opening body closing =>
      have hkind : c.current.kind = .punctuation .leftBracket := of_decide_eq_true opening
      simp only [hkind, run_advance, bind_eq_ok_iff, body_eq_ok_iff, expect_eq_ok_iff, pure_eq_ok_iff]
      exact ⟨_, _, body, _, _, ⟨closing, rfl, rfl⟩, rfl, rfl⟩
    | primitive opening keyword name closing =>
      simp only [opening, run_advance, run_get, if_pos keyword, name, if_pos closing, pure_eq_ok_iff, and_self]

/-- The word `class` marks a method of the class side if another token follows that a method can start with. -/
theorem method_eq_ok_iff {m : MethodDef} : method n c = .ok m c' ↔ MethodRead n c m c' := by
  rw [method, run_get]
  constructor
  · intro h
    split at h
    · next hmark =>
      simp only [run_advance, bind_eq_ok_iff, methodHeader_eq_ok_iff, methodBody_eq_ok_iff, pure_eq_ok_iff] at h
      obtain ⟨_, _, header, _, _, code, rfl, rfl⟩ := h
      obtain ⟨hword, hfollows⟩ := Bool.and_eq_true_iff.mp hmark
      rw [hmark]
      exact .classSide (of_decide_eq_true hword) hfollows header code
    · next hmark =>
      simp only [bind_eq_ok_iff, methodHeader_eq_ok_iff, methodBody_eq_ok_iff, pure_eq_ok_iff] at h
      obtain ⟨_, _, header, _, _, code, rfl, rfl⟩ := h
      have hmark := Bool.eq_false_iff.mpr hmark
      rw [hmark]
      exact .instanceSide header code ((Bool.and_eq_false_iff.mp hmark).imp_left of_decide_eq_false)
  · intro h
    cases h with
    | classSide word follows header code =>
      have hmark : (decide (c.current.kind = .identifier "class") && startsMethod c.following.kind) = true := by
        rw [decide_eq_true word, follows]
        rfl
      simp only [hmark, if_true, run_advance, bind_eq_ok_iff, methodHeader_eq_ok_iff, methodBody_eq_ok_iff,
        pure_eq_ok_iff]
      exact ⟨(_, _), _, header, (_, _), _, code, rfl, rfl⟩
    | instanceSide header code noMark =>
      have hmark : (decide (c.current.kind = .identifier "class") && startsMethod c.following.kind) = false :=
        Bool.and_eq_false_iff.mpr (noMark.imp_left decide_eq_false)
      simp only [hmark, Bool.false_eq_true, if_false, bind_eq_ok_iff, methodHeader_eq_ok_iff,
        methodBody_eq_ok_iff, pure_eq_ok_iff]
      exact ⟨(_, _), _, header, (_, _), _, code, rfl, rfl⟩

/-- Where methods end, none is taken. -/
theorem MethodsRead.iff_of_stop {k : Nat} {ms : List MethodDef}
    (h : k = 0 ∨ (c.isAt .rightBracket || c.current.isFinish) = true) :
    MethodsRead n k c ms c' ↔ ms = [] ∧ c = c' := by
  constructor
  · intro hread
    cases hread with
    | stop => exact ⟨rfl, rfl⟩
    | cons _ isOpen => simp [isOpen] at h
  · rintro ⟨rfl, rfl⟩
    exact .stop h

/-- Methods are taken up to a bracket or the end of the text; `done` holds the methods before. -/
theorem methods_eq_ok_iff {k : Nat} {done : Array MethodDef} {ms : List MethodDef} :
    methods n k done c = .ok ms c' ↔ ∃ new, ms = done.toList ++ new ∧ MethodsRead n k c new c' := by
  induction k generalizing done c with
  | zero =>
    simp only [methods, pure_eq_ok_iff, MethodsRead.iff_of_stop (.inl rfl)]
    simp [eq_comm]
  | succ k ih =>
    rw [methods, run_get]
    by_cases hend : (c.isAt .rightBracket || c.current.isFinish) = true
    · simp only [if_pos hend, pure_eq_ok_iff, MethodsRead.iff_of_stop (.inr hend)]
      simp [eq_comm]
    · simp only [if_neg hend, bind_eq_ok_iff, method_eq_ok_iff, ih]
      constructor
      · rintro ⟨m, _, head, new, rfl, tail⟩
        exact ⟨m :: new, by simp, .cons head (Bool.eq_false_iff.mpr hend) tail⟩
      · rintro ⟨new, rfl, h⟩
        cases h with
        | stop ends => simp [hend] at ends
        | cons head _ tail => exact ⟨_, _, head, _, by simp, tail⟩

/-- Whether a class can be read, and what it holds. -/
theorem classDef_eq_ok_iff {d : ClassDef} : classDef n c = .ok d c' ↔ ClassRead n c d c' := by
  rw [classDef, run_advance, run_advance, run_get]
  constructor
  · intro h
    generalize hkind : c.next.next.current.kind = kind at h
    cases kind with
    | symbol x =>
      simp only [run_advance, bind_eq_ok_iff, expect_eq_ok_iff, variableList_eq_ok_iff, methods_eq_ok_iff,
        pure_eq_ok_iff] at h
      obtain ⟨_, _, ⟨opening, -, rfl⟩, xs, c₁, fields, _, c₂, ⟨ms, rfl, methods⟩, _, _, ⟨closing, rfl, rfl⟩,
        rfl, rfl⟩ := h
      refine .mk ?_ hkind opening fields methods closing
      split
      · next hname => exact .name hname
      · next hname => exact .none hname
    | _ => exact absurd h unexpected_ne_ok
  · intro h
    cases h with
    | @mk x superclass xs ms c₁ c₂ head name opening fields methods closing =>
      simp only [name, run_advance, bind_eq_ok_iff, expect_eq_ok_iff, variableList_eq_ok_iff, methods_eq_ok_iff,
        pure_eq_ok_iff]
      refine ⟨_, _, ⟨opening, rfl, rfl⟩, xs, c₁, fields, ms, c₂, ⟨ms, rfl, methods⟩, _, _, ⟨closing, rfl, rfl⟩,
        ?_, rfl⟩
      cases head with
      | name token => simp only [token]
      | none noName =>
        split
        · next hname => exact absurd hname (noName _)
        · rfl

end Definitions

/-- Classes have been read one after the other if no error has been met. -/
theorem classRun_of_readClasses {n k : Nat} {r : ClassesRead} (h : (readClasses n k r).errors = #[]) :
    r.errors = #[] ∧ ∃ new, (readClasses n k r).classes.toList = r.classes.toList ++ new ∧
      ClassRun n r.cursor new (readClasses n k r).cursor := by
  induction k generalizing r with
  | zero => exact ⟨h, [], (List.append_nil _).symm, .nil⟩
  | succ k ih =>
    rw [readClasses] at h ⊢
    split at h
    · next hclass =>
      rw [if_pos hclass]
      split at h
      · next d cursor hd =>
        obtain ⟨herrors, new, hnew, hrun⟩ := ih h
        refine ⟨herrors, d :: new, ?_, .cons hclass (classDef_eq_ok_iff.mp hd) hrun⟩
        rw [hnew, Array.toList_push, List.append_assoc]
        rfl
      · obtain ⟨herrors, -⟩ := ih h
        exact absurd herrors (by simp)
    · next hclass =>
      rw [if_neg hclass]
      exact ⟨h, [], (List.append_nil _).symm, .nil⟩

/-- A unit that has been read consists of classes, none of them refused, and a main program. -/
theorem unitRead_of_ok {c : Cursor} {u : SourceUnit} (h : SourceUnit.ofCursor c = .ok u) : UnitRead c u := by
  unfold SourceUnit.ofCursor at h
  simp only at h
  split at h
  · next main cursor hmain =>
    split at h
    · next herrors =>
      cases h
      obtain ⟨-, new, hnew, hrun⟩ := classRun_of_readClasses (Array.isEmpty_iff.mp herrors)
      rw [hnew, List.nil_append]
      exact .mk hrun (body_eq_ok_iff.mp hmain)
    · cases h
  · cases h

end Smalltalk.ReadM
