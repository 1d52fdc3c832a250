import Mathlib
import Smalltalk.Proofs.Compilation

/-!
# Position marks only add

Code with its position marks taken out is the code that would have been generated without them. Literal
numbers may differ throughout, since the file name is a literal too, but not the strings that they stand
for.
-/

namespace Smalltalk

/-! ## Taking marks out -/

/-- Code without its position marks. -/
def withoutMarks (code : List SymbolicInstruction) : List SymbolicInstruction :=
  code.filter (!·.isMark)

@[simp]
theorem withoutMarks_append (code code' : List SymbolicInstruction) :
    withoutMarks (code ++ code') = withoutMarks code ++ withoutMarks code' :=
  List.filter_append ..

@[simp]
theorem withoutMarks_markAt (file : Option String) (p : Position) : withoutMarks (markAt file p) = [] := by
  cases file <;> rfl

mutual

/-- A method or a block, and the blocks in it, without position marks. -/
def SymbolicBlock.unmarked : SymbolicBlock → SymbolicBlock
  | ⟨name, classSide, qualifiedName, primitive, argumentCount, localCount, code, blocks⟩ =>
    ⟨name, classSide, qualifiedName, primitive, argumentCount, localCount, withoutMarks code,
      SymbolicBlock.unmarkedAll blocks⟩

/-- Several methods or blocks without position marks. -/
def SymbolicBlock.unmarkedAll : List SymbolicBlock → List SymbolicBlock
  | [] => []
  | b :: bs => b.unmarked :: SymbolicBlock.unmarkedAll bs

end

/-- A class without position marks. -/
def SymbolicClass.unmarked (c : SymbolicClass) : SymbolicClass :=
  { c with methods := SymbolicBlock.unmarkedAll c.methods }

theorem SymbolicBlock.unmarkedAll_eq_map (bs : List SymbolicBlock) :
    SymbolicBlock.unmarkedAll bs = bs.map SymbolicBlock.unmarked := by
  induction bs with
  | nil => rw [unmarkedAll, List.map_nil]
  | cons b bs ih => rw [unmarkedAll, List.map_cons, ih]

/-- The same surroundings, but positions are not marked. -/
def Surroundings.unmarked (s : Surroundings) : Surroundings := { s with file := none }

/-! ## Expressions -/

namespace Expr

theorem withoutMarks_translateAll {es : List Expr}
    (h : ∀ e ∈ es, ∀ s k, withoutMarks (e.translate s k) = e.translate s.unmarked k) (s : Surroundings)
    (k : Nat) : withoutMarks (translateAll s k es) = translateAll s.unmarked k es := by
  induction es generalizing k with
  | nil =>
    rw [translateAll, translateAll]
    rfl
  | cons e es ih =>
    rw [translateAll, translateAll, withoutMarks_append, h e List.mem_cons_self,
      ih fun e' he' => h e' (List.mem_cons_of_mem e he')]

theorem withoutMarks_translateStatements {es : List Expr}
    (h : ∀ e ∈ es, ∀ s k, withoutMarks (e.translate s k) = e.translate s.unmarked k) (s : Surroundings)
    (k : Nat) : withoutMarks (translateStatements s k es) = translateStatements s.unmarked k es := by
  induction es generalizing k with
  | nil => rfl
  | cons e es ih =>
    have hfirst := h e List.mem_cons_self s k
    cases es with
    | nil => exact hfirst
    | cons f es =>
      have hrest := ih (fun e' he' => h e' (List.mem_cons_of_mem e he')) (k + e.blockCount)
      rw [translateStatements_cons_cons, translateStatements_cons_cons, withoutMarks_append,
        withoutMarks_append, hfirst, hrest]
      rfl

theorem withoutMarks_translate (e : Expr) :
    ∀ s k, withoutMarks (e.translate s k) = e.translate s.unmarked k := by
  induction e using tree_induction with
  | atom info value =>
    intro s k
    rw [translate, translate]
    cases value <;> rfl
  | name info x =>
    intro s k
    rw [translate, translate]
    show withoutMarks [(s.refer x).push x] = [(s.refer x).push x]
    cases s.refer x <;> rfl
  | array info items ih =>
    intro s k
    rw [translate, translate, withoutMarks_append, withoutMarks_translateAll ih]
    rfl
  | block info params locals statements close ih =>
    intro s k
    rw [translate, translate]
    rfl
  | send info receiver selector arguments ihr iha =>
    intro s k
    rw [translate, translate, withoutMarks_append, withoutMarks_append, ihr, withoutMarks_translateAll iha]
    rfl
  | superSend info selector arguments ih =>
    intro s k
    rw [translate, translate, withoutMarks_append, ← List.singleton_append, withoutMarks_append,
      withoutMarks_translateAll ih]
    rfl
  | assign info target value iht ihv =>
    intro s k
    have hstore : withoutMarks (target.storeInto s) = target.storeInto s.unmarked := by
      cases target with
      | name info' x =>
        show withoutMarks (s.refer x).store = (s.refer x).store
        cases s.refer x <;> rfl
      | atom | array | block | send | superSend | assign | ret => rfl
    rw [translate, translate, withoutMarks_append, ihv, hstore]
  | ret info value ih =>
    intro s k
    rw [translate, translate, withoutMarks_append, withoutMarks_append, ih, withoutMarks_markAt]
    rfl

theorem unmarkedAll_blocksOfAll {es : List Expr}
    (h : ∀ e ∈ es, ∀ s k, SymbolicBlock.unmarkedAll (e.blocks s k) = e.blocks s.unmarked k)
    (s : Surroundings) (k : Nat) :
    SymbolicBlock.unmarkedAll (blocksOfAll s k es) = blocksOfAll s.unmarked k es := by
  induction es generalizing k with
  | nil =>
    rw [blocksOfAll, blocksOfAll, SymbolicBlock.unmarkedAll]
  | cons e es ih =>
    have hrest := ih (fun e' he' => h e' (List.mem_cons_of_mem e he')) (k + e.blockCount)
    have hfirst := h e List.mem_cons_self s k
    rw [SymbolicBlock.unmarkedAll_eq_map] at hfirst hrest ⊢
    rw [blocksOfAll, blocksOfAll, List.map_append, hfirst, hrest]

theorem unmarkedAll_blocks (e : Expr) :
    ∀ s k, SymbolicBlock.unmarkedAll (e.blocks s k) = e.blocks s.unmarked k := by
  have happend : ∀ bs bs', SymbolicBlock.unmarkedAll (bs ++ bs')
      = SymbolicBlock.unmarkedAll bs ++ SymbolicBlock.unmarkedAll bs' := fun bs bs' => by
    simp only [SymbolicBlock.unmarkedAll_eq_map, List.map_append]
  induction e using tree_induction with
  | atom info value | name info x =>
    intro s k
    rw [blocks, blocks, SymbolicBlock.unmarkedAll]
  | array info items ih =>
    intro s k
    rw [blocks, blocks, unmarkedAll_blocksOfAll ih]
  | block info params locals statements close ih =>
    intro s k
    rw [blocks, blocks, SymbolicBlock.unmarkedAll, unmarkedAll_blocksOfAll ih, SymbolicBlock.unmarked,
      SymbolicBlock.unmarkedAll, withoutMarks_append, withoutMarks_append, withoutMarks_markAt,
      withoutMarks_translateStatements fun e _ => e.withoutMarks_translate]
    rfl
  | send info receiver selector arguments ihr iha =>
    intro s k
    rw [blocks, blocks, happend, ihr, unmarkedAll_blocksOfAll iha]
  | superSend info selector arguments ih =>
    intro s k
    rw [blocks, blocks, unmarkedAll_blocksOfAll ih]
  | assign info target value iht ihv =>
    intro s k
    rw [blocks, blocks, happend, iht, ihv]
  | ret info value ih =>
    intro s k
    rw [blocks, blocks, ih]

end Expr

/-! ## Definitions -/

theorem MethodDef.unmarked_translate (file : Option String) (layers : List (List String)) (owner : String)
    (m : MethodDef) : (m.translate file layers owner).unmarked = m.translate none layers owner := by
  unfold MethodDef.translate
  cases m.body with
  | primitive name => rw [SymbolicBlock.unmarked, SymbolicBlock.unmarkedAll]; rfl
  | code body =>
    simp only
    rw [SymbolicBlock.unmarked, withoutMarks_append, withoutMarks_append, withoutMarks_markAt,
      Expr.withoutMarks_translateStatements fun e _ => e.withoutMarks_translate,
      Expr.unmarkedAll_blocksOfAll fun e _ => e.unmarkedAll_blocks]
    rfl

theorem ClassDef.unmarked_translate (file : Option String) (classes : List ClassDef) (c : ClassDef) :
    (c.translate file classes).unmarked = c.translate none classes := by
  rw [SymbolicClass.unmarked, SymbolicBlock.unmarkedAll_eq_map, ClassDef.translate, ClassDef.translate,
    List.map_map]
  congr 1
  exact List.map_congr_left fun m _ => m.unmarked_translate file _ _

/-- The direct translation of a unit without its position marks. -/
theorem SourceUnit.map_unmarked_translate (u : SourceUnit) (file : Option String) :
    (u.translate file).map SymbolicClass.unmarked = u.translate none := by
  rw [SourceUnit.translate, SourceUnit.translate, List.map_map]
  exact List.map_congr_left fun c _ => c.unmarked_translate file _

/-! ## What marks need -/

theorem withoutMarks_flatMap {α : Type} (f : α → List SymbolicInstruction) (l : List α) :
    withoutMarks (l.flatMap f) = l.flatMap fun a => withoutMarks (f a) := by
  induction l with
  | nil => rfl
  | cons a l ih => rw [List.flatMap_cons, List.flatMap_cons, withoutMarks_append, ih]

theorem SymbolicBlock.instructions_unmarked (b : SymbolicBlock) :
    b.unmarked.instructions = withoutMarks b.instructions := by
  obtain ⟨name, classSide, qualifiedName, primitive, argumentCount, localCount, code, blocks⟩ := b
  have hcode : ∀ c : SymbolicBlock, c.unmarked.code = withoutMarks c.code := fun c => by
    cases c
    rw [unmarked]
  rw [unmarked, instructions, instructions, withoutMarks_append, withoutMarks_flatMap, unmarkedAll_eq_map,
    List.flatMap_map]
  simp only [hcode]

theorem SymbolicClass.instructions_unmarked (c : SymbolicClass) :
    c.unmarked.instructions = withoutMarks c.instructions := by
  rw [unmarked, instructions, instructions, withoutMarks_flatMap, SymbolicBlock.unmarkedAll_eq_map,
    List.flatMap_map]
  simp only [SymbolicBlock.instructions_unmarked]

/-- Without marks a class needs no more than with them. -/
theorem SymbolicClass.Fits.unmarked {c : SymbolicClass} (h : c.Fits) : c.unmarked.Fits := by
  have hsubset : c.unmarked.instructions ⊆ c.instructions := by
    rw [c.instructions_unmarked]
    exact fun i hi => List.mem_of_mem_filter hi
  refine ⟨fun i hi => h.instructions_fit i (hsubset hi), ?_⟩
  have hstrings : c.unmarked.strings ⊆ c.strings := List.filterMap_subset _ hsubset
  refine le_trans ?_ h.strings_le
  rw [← List.card_toFinset, ← List.card_toFinset]
  exact Finset.card_le_card fun x hx => List.mem_toFinset.mpr (hstrings (List.mem_toFinset.mp hx))

theorem SourceUnit.Fits.unmarked {u : SourceUnit} {file : Option String} (h : u.Fits file) :
    u.Fits none := by
  intro c hc
  rw [← u.map_unmarked_translate file, List.mem_map] at hc
  obtain ⟨c, hc, rfl⟩ := hc
  exact (h c hc).unmarked

/-! ## Compilations -/

theorem SourceUnit.complaints_congr (u : SourceUnit) {options options' : CompileOptions}
    (h : options.strictGlobals = options'.strictGlobals) :
    u.complaints options = u.complaints options' := by
  rw [complaints, complaints, resolveUnit, resolveUnit, h]

/-- Position marks only add: if a text can be compiled with them, it can be compiled without them, and
gives the same classes, methods and blocks, with the same code but for the marks. -/
theorem compileSource_without_marks {source : String} {options : CompileOptions}
    {marked : List CompiledClass}
    (h : (compileSource source { options with debugInfo := true }).result = .ok marked) :
    ∃ plain code, (compileSource source { options with debugInfo := false }).result = .ok plain ∧
      marked.mapM CompiledClass.symbolic? = some code ∧
      plain.mapM CompiledClass.symbolic? = some (code.map SymbolicClass.unmarked) := by
  obtain ⟨u, hsource, hcomplaints, hfits, hmarked⟩ := exists_unit_of_ok h
  have hcomplaints' : u.complaints { options with debugInfo := false } = [] :=
    (u.complaints_congr rfl).trans hcomplaints
  obtain ⟨-, plain, hplain, hsymbolic⟩ | ⟨hnot, -⟩ := cases_of_complaints_eq_nil hsource hcomplaints'
  · refine ⟨plain, _, hplain, hmarked, ?_⟩
    rw [u.map_unmarked_translate]
    exact hsymbolic
  · exact absurd hfits.unmarked hnot

/-- A literal of the program that is also the file name, and returns from nested blocks. -/
theorem compileSource_without_marks_file_name_literal :
    ∃ marked, (compileSource "Object subclass: #A [ | f | m: x [ 'f.st' print. f := x. ^[:y | ^f + y] ] ]"
        { fileName := "f.st", debugInfo := true }).result = .ok marked ∧
      marked.map (·.literals.toList) = [["f.st", "print", "+"]] ∧
      ∃ plain code, (compileSource
          "Object subclass: #A [ | f | m: x [ 'f.st' print. f := x. ^[:y | ^f + y] ] ]"
          { fileName := "f.st", debugInfo := false }).result = .ok plain ∧
        marked.mapM CompiledClass.symbolic? = some code ∧
        plain.mapM CompiledClass.symbolic? = some (code.map SymbolicClass.unmarked) :=
  exists_ok_of_map (by decide +kernel) fun _ h => @compileSource_without_marks _ { fileName := "f.st" } _ h

end Smalltalk
