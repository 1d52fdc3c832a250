import Mathlib
import Smalltalk.Proofs.PlaceFreeReading
import Smalltalk.Proofs.Relabeling
import Smalltalk.Proofs.Respacing
import Smalltalk.Proofs.Verifier

/-!
# Compilation without marks does not look at places

Places of nodes end up in error messages and, if positions are marked, in the code. A unit without its places
is a unit under other labels: it has errors exactly if the unit itself has some, and without position marks both
are compiled to the same classes.
-/

namespace Smalltalk

/-! ## Taking places away is a relabeling -/

namespace Relabeling

/-- Everything stands nowhere, and all else is kept. -/
def unplacing : Relabeling where
  rename := id
  span _ := {}
  info := NodeInfo.unplaced
  expr := Expr.unplaced
  rename_injective := Function.injective_id
  span_default := rfl
  span_info _ := rfl
  expr_atom _ _ := by rw [Expr.unplaced]
  expr_name _ _ := by rw [Expr.unplaced, id]
  expr_array _ _ := by rw [Expr.unplaced, Expr.unplacedAll_eq_map]
  expr_block _ _ _ _ _ := by
    rw [Expr.unplaced, Expr.unplacedAll_eq_map]
    rfl
  expr_send _ _ m _ := by
    rw [Expr.unplaced, Expr.unplacedAll_eq_map]
    cases m <;> rfl
  expr_superSend _ _ _ := by
    rw [Expr.unplaced, Expr.unplacedAll_eq_map]
    rfl
  expr_assign _ _ _ := by rw [Expr.unplaced]
  expr_ret _ _ := by rw [Expr.unplaced]

theorem method_unplacing (m : MethodDef) : unplacing.method m = m.unplaced := by
  have hbody : unplacing.methodBody m.body = m.body.unplaced := by
    cases m.body <;> rfl
  rw [method, hbody]
  rfl

theorem unit_unplacing (u : SourceUnit) : unplacing.unit u = u.unplaced := by
  have hclass : ∀ c, unplacing.classDef c = c.unplaced := fun c => by
    rw [classDef, List.map_congr_left fun m _ => method_unplacing m]
    rfl
  rw [unit, List.map_congr_left fun c _ => hclass c]
  rfl

end Relabeling

namespace SourceUnit

variable {u u' : SourceUnit} {options : CompileOptions}

/-- Without position marks, a unit is compiled as it is without places. -/
theorem compile_unplaced_eq_ok_iff (hu : u.IsUnshared) (hdebug : options.debugInfo = false)
    {classes : List CompiledClass} :
    (u.unplaced.compile options).result = .ok classes ↔ (u.compile options).result = .ok classes := by
  have hfile : options.markedFile = none := by
    rw [CompileOptions.markedFile, hdebug]
    rfl
  have hsame : ∀ cs : List CompiledClass, cs.map (CompiledClass.withFieldsRenamed id) = cs :=
    List.map_id'' CompiledClass.withFieldsRenamed_id
  rw [← Relabeling.unit_unplacing,
    Relabeling.compile_unit_eq_ok_iff (fun _ _ _ _ => rfl) (fun _ => rfl) hu (.inl hfile)]
  constructor
  · rintro ⟨cs, hcs, rfl⟩
    exact (hsame cs).symm ▸ hcs
  · exact fun h => ⟨classes, h, (hsame classes).symm⟩

/-- Two units that are equal but for places are both compiled without position marks, to the same classes, or
none of them is. -/
theorem compile_eq_ok_congr (hu : u.IsUnshared) (hu' : u'.IsUnshared) (h : u.unplaced = u'.unplaced)
    (hdebug : options.debugInfo = false) {classes : List CompiledClass} :
    (u.compile options).result = .ok classes ↔ (u'.compile options).result = .ok classes := by
  rw [← compile_unplaced_eq_ok_iff hu hdebug, h, compile_unplaced_eq_ok_iff hu' hdebug]

/-- Comments do not matter to a reader, which leaves them out itself. -/
theorem ofTokens_filter_comments (ts : List Token) : ofTokens (ts.filter (!·.isComment)) = ofTokens ts := by
  rw [ofTokens, ofTokens, Cursor.ofTokens, Cursor.ofTokens, List.filter_filter]
  simp only [Bool.and_self]

/-- Texts with the same tokens, but for places and comments, are read alike. -/
theorem unplacedResult_ofSource_congr {source text : String}
    (h : (tokens text).map Token.unplaced = ((tokens source).filter (!·.isComment)).map Token.unplaced) :
    unplacedResult (ofSource text) = unplacedResult (ofSource source) := by
  rw [ofSource, ofSource, ← ofTokens_unplaced, h, ofTokens_unplaced, ofTokens_filter_comments]

end SourceUnit

/-! ## Source texts -/

/-- Texts that are read alike, but for places, are compiled alike without position marks. -/
theorem compileSource_eq_ok_congr {source text : String} {options : CompileOptions} {classes : List CompiledClass}
    (h : SourceUnit.unplacedResult (SourceUnit.ofSource text) = SourceUnit.unplacedResult (SourceUnit.ofSource source))
    (hdebug : options.debugInfo = false) :
    (compileSource text options).result = .ok classes ↔ (compileSource source options).result = .ok classes := by
  rw [compileSource, compileSource]
  cases htext : SourceUnit.ofSource text with
  | error errors =>
    cases hsource : SourceUnit.ofSource source with
    | error errors' => simp
    | ok u => rw [htext, hsource] at h; cases h
  | ok u =>
    cases hsource : SourceUnit.ofSource source with
    | error errors' => rw [htext, hsource] at h; cases h
    | ok u' =>
      rw [htext, hsource] at h
      have hunshared := SourceUnit.isUnshared_of_built (built_of_ofSource htext)
      have hunshared' := SourceUnit.isUnshared_of_built (built_of_ofSource hsource)
      exact SourceUnit.compile_eq_ok_congr hunshared hunshared' (Except.ok.inj h) hdebug

/-- Layout and comments do not matter. Take the lexemes of a source without error tokens, leave out the comments
and join the rest by single spaces, with or without the empty lexeme at the end. This text has the tokens of the
source, in kind and lexeme, without its comments. Both are read to the same tree or fail with the same errors, up
to places. And without position marks both are compiled to the same classes, or none of them is. -/
theorem layout_irrelevant {source text : String} (herror : ∀ t ∈ tokens source, t.isError = false)
    (htext : text = respaced ((tokens source).filter (!·.isComment)) ∨
      text = respaced ((tokens source).filter (!·.isComment)).dropLast) :
    (tokens text).map (fun t => (t.kind, t.lexeme))
        = ((tokens source).filter (!·.isComment)).map (fun t => (t.kind, t.lexeme)) ∧
      SourceUnit.unplacedResult (SourceUnit.ofSource text) = SourceUnit.unplacedResult (SourceUnit.ofSource source) ∧
      ∀ options : CompileOptions, options.debugInfo = false → ∀ classes,
        (compileSource text options).result = .ok classes ↔ (compileSource source options).result = .ok classes := by
  have htokens := map_unplaced_tokens_respaced herror htext
  have hread := SourceUnit.unplacedResult_ofSource_congr htokens
  refine ⟨?_, hread, fun options hdebug classes => compileSource_eq_ok_congr hread hdebug⟩
  have hpairs := congrArg (List.map fun t : Token => (t.kind, t.lexeme)) htokens
  rw [List.map_map, List.map_map] at hpairs
  exact hpairs

/-- A class with comments, where a space more or less would tell tokens apart: after a keyword, before an
assignment, between a number and a period, and in a character. -/
theorem layout_irrelevant_class : ∃ classes,
    (compileSource "A subclass:#B[|x|at:k[\"a\"x:=k.^x+16r1F-3.5e2. x:=3.^$ ,'it''s']]" {}).result = .ok classes ∧
    classes.map (fun c => (c.literals.toList, c.methods.map (·.instructions))) =
      [(["+", "-", "it's", ","], [[.pushLocal 0 0, .storeField 0, .pop, .pushField 0, .pushInt 31, .send 1 0,
        .pushFloat 1135542272, .send 1 1, .methodReturn, .pop, .pushInt 3, .storeField 0, .pop, .pushChar 32,
        .pushLiteral 2, .send 1 3, .methodReturn, .pushSelf, .methodReturn]])] ∧
    (compileSource
      "A subclass: #B [ | x | at: k [ x := k . ^ x + 16r1F - 3.5e2 . x := 3 . ^ $  , 'it''s' ] ]" {}).result
      = .ok classes := by
  have hlayout := @layout_irrelevant
    "A subclass:#B[|x|at:k[\"a\"x:=k.^x+16r1F-3.5e2. x:=3.^$ ,'it''s']]"
    "A subclass: #B [ | x | at: k [ x := k . ^ x + 16r1F - 3.5e2 . x := 3 . ^ $  , 'it''s' ] ]"
    (by decide +kernel) (.inr (by decide +kernel))
  exact exists_ok_of_map (by decide +kernel) fun classes => (hlayout.2.2 {} rfl classes).mpr

end Smalltalk
