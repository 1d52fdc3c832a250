import Mathlib
import Smalltalk.Proofs.BindingReports

/-!
# Labels do not matter

A tree has labels that a compiler needs to tell things apart, and that say nothing by themselves: the names of
variables, and the numbers and the places of nodes. A relabeling changes labels and keeps the shape of trees.
Nothing is wrong with a unit exactly if nothing is wrong with it under other labels, and the code of its classes is
the same. Two conditions come with this: names that are left to the running program are kept, and so are
places if positions are marked in the code.

The walks through trees are made here once, for all labels. To renumber nodes, to move them and to rename
variables are three ways to relabel.
-/

namespace Smalltalk

open Registration

/-! ## Relabelings -/

/-- Other labels for the parts of trees. -/
structure Labeling where
  /-- The name that a variable gets. -/
  rename : String → String
  /-- The place that something gets. -/
  span : Span → Span
  /-- The number and the place that a node gets. -/
  info : NodeInfo → NodeInfo
  /-- Different names stay different. -/
  rename_injective : Function.Injective rename
  /-- What stands nowhere gets no place. -/
  span_default : span {} = {}
  span_info (i : NodeInfo) : (info i).span = span i.span

namespace Labeling

/-- Where places are kept, what stands nowhere stays there. -/
theorem span_default_id : id ({} : Span) = {} := rfl

variable (ρ : Labeling)

/-- A variable under its new name. -/
def ident (x : Ident) : Ident := ⟨ρ.rename x.name, ρ.span x.span⟩

/-- A name of something else than a variable is kept. -/
def word (x : Ident) : Ident := ⟨x.name, ρ.span x.span⟩

/-- A keyword of a message in its new place. -/
def part (p : KeywordPart) : KeywordPart := ⟨ρ.word p.keyword, ρ.span p.span⟩

/-- The selector of a message in its new place. -/
def selector : Selector → Selector
  | .unary w => .unary (ρ.word w)
  | .binary operator => .binary (ρ.word operator)
  | .keyword parts => .keyword (parts.map ρ.part)

theorem text_selector (m : Selector) : (ρ.selector m).text = m.text := by
  cases m with
  | unary | binary => rfl
  | keyword parts =>
    rw [selector, Selector.text, Selector.text, Selector.joined, Selector.joined, List.map_map]
    rfl

theorem namesOf_map_ident (xs : List Ident) : namesOf (xs.map ρ.ident) = (namesOf xs).map ρ.rename := by
  rw [namesOf, namesOf, List.map_map, List.map_map]
  rfl

/-- Names are left as they are if variables and places are. -/
theorem map_ident_eq_self {ρ : Labeling} (hrename : ∀ x, ρ.rename x = x) (hspan : ∀ s, ρ.span s = s)
    (xs : List Ident) : xs.map ρ.ident = xs :=
  List.map_id'' (fun x => by rw [ident, hrename, hspan]) xs

theorem word_eq_self {ρ : Labeling} (hspan : ∀ s, ρ.span s = s) (x : Ident) : ρ.word x = x := by
  rw [word, hspan]

theorem selector_eq_self {ρ : Labeling} (hspan : ∀ s, ρ.span s = s) (m : Selector) : ρ.selector m = m := by
  cases m with
  | unary w => rw [selector, word_eq_self hspan]
  | binary operator => rw [selector, word_eq_self hspan]
  | keyword parts => rw [selector, List.map_id'' fun p => by rw [part, word_eq_self hspan, hspan]]

/-- Places can be changed unless code marks positions. -/
def Suits (file : Option String) : Prop := file = none ∨ ∀ s, ρ.span s = s

/-- Names are kept, as those must be that are left to the running program. -/
def Keeps (xs : List String) : Prop := ∀ x ∈ xs, ρ.rename x = x

theorem keeps_append {ρ : Labeling} {xs ys : List String} : ρ.Keeps (xs ++ ys) ↔ ρ.Keeps xs ∧ ρ.Keeps ys :=
  List.forall_mem_append

/-- Every field is in the same place, under its new name. -/
def KeepsFields (layers layers' : List (List String)) : Prop :=
  ∀ x, findField layers' (ρ.rename x) = findField layers x

theorem markOutput_span {ρ : Labeling} {file : Option String} (h : ρ.Suits file) (s : Span) :
    markOutput file (ρ.span s).start = markOutput file s.start := by
  rcases h with rfl | h
  · rfl
  · rw [h s]

end Labeling

/-- A way through trees that changes labels and nothing else. -/
structure Relabeling extends Labeling where
  /-- An expression with other labels. -/
  expr : Expr → Expr
  expr_atom (i : NodeInfo) (value : Atom) : expr (.atom i value) = .atom (info i) value
  expr_name (i : NodeInfo) (x : String) : expr (.name i x) = .name (info i) (rename x)
  expr_array (i : NodeInfo) (items : List Expr) : expr (.array i items) = .array (info i) (items.map expr)
  expr_block (i : NodeInfo) (params locals : List Ident) (statements : List Expr) (close : Span) :
    expr (.block i params locals statements close) = .block (info i) (params.map toLabeling.ident)
      (locals.map toLabeling.ident) (statements.map expr) (span close)
  expr_send (i : NodeInfo) (receiver : Expr) (m : Selector) (arguments : List Expr) :
    expr (.send i receiver m arguments) =
      .send (info i) (expr receiver) (toLabeling.selector m) (arguments.map expr)
  expr_superSend (i : NodeInfo) (m : Ident) (arguments : List Expr) :
    expr (.superSend i m arguments) = .superSend (info i) (toLabeling.word m) (arguments.map expr)
  expr_assign (i : NodeInfo) (target value : Expr) :
    expr (.assign i target value) = .assign (info i) (expr target) (expr value)
  expr_ret (i : NodeInfo) (value : Expr) : expr (.ret i value) = .ret (info i) (expr value)

namespace Relabeling

attribute [simp] expr_atom expr_name expr_array expr_block expr_send expr_superSend expr_assign expr_ret

variable (ρ : Relabeling)

/-- A body with other labels. -/
def body (b : Body) : Body := ⟨b.locals.map ρ.ident, b.statements.map ρ.expr⟩

/-- What a method does, with other labels. -/
def methodBody : MethodBody → MethodBody
  | .code b => .code (ρ.body b)
  | .primitive name => .primitive (ρ.word name)

/-- A method with other labels. -/
def method (m : MethodDef) : MethodDef :=
  ⟨ρ.word m.selector, m.params.map ρ.ident, m.classSide, ρ.methodBody m.body, ρ.span m.span, ρ.span m.close⟩

/-- A class with other labels. -/
def classDef (c : ClassDef) : ClassDef :=
  ⟨ρ.word c.name, c.superclass.map ρ.word, c.fields.map ρ.ident, c.methods.map ρ.method, ρ.span c.span⟩

/-- A unit with other labels. -/
def unit (u : SourceUnit) : SourceUnit :=
  ⟨u.classes.map ρ.classDef, ρ.body u.main, ρ.span u.finish, u.nodeCount⟩

/-! ## The shape of trees -/

section Shape

open Smalltalk.Expr

theorem children_expr (e : Expr) : (ρ.expr e).children = e.children.map ρ.expr := by
  cases e <;> simp [children]

theorem info_expr (e : Expr) : (ρ.expr e).info = ρ.info e.info := by
  cases e <;> simp [info]

theorem isBlock_expr (e : Expr) : (ρ.expr e).isBlock = e.isBlock := by
  cases e <;> simp [isBlock]

theorem blockCountOfAll_map {es : List Expr} (h : ∀ e ∈ es, (ρ.expr e).blockCount = e.blockCount) :
    blockCountOfAll (es.map ρ.expr) = blockCountOfAll es := by
  induction es with
  | nil => rfl
  | cons e es ih =>
    rw [List.map_cons, blockCountOfAll, blockCountOfAll, h e List.mem_cons_self,
      ih fun e' he' => h e' (List.mem_cons_of_mem e he')]

/-- Blocks are counted, not told apart by labels. -/
theorem blockCount_expr (e : Expr) : (ρ.expr e).blockCount = e.blockCount := by
  induction e using children_induction with
  | block info params locals statements close ih =>
    rw [ρ.expr_block, blockCount, blockCount, ρ.blockCountOfAll_map ih]
  | other e he ih =>
    rw [blockCount_eq_children ((ρ.isBlock_expr e).trans he), children_expr, ρ.blockCountOfAll_map ih,
      blockCount_eq_children he]

theorem isProper_expr {e : Expr} (h : e.IsProper) : (ρ.expr e).IsProper := by
  cases e with
  | atom info value =>
    rw [ρ.expr_atom]
    cases value <;> exact h
  | send info receiver m arguments =>
    rw [ρ.expr_send]
    cases m with
    | keyword parts => exact ⟨by simpa using h.1, by simpa using h.2⟩
    | unary | binary => trivial
  | assign info target value =>
    have hname : (ρ.expr target).isName = target.isName := by cases target <;> simp [isName]
    rw [ρ.expr_assign]
    exact hname.trans h
  | name | array | block | superSend | ret => simp [Expr.IsProper]

theorem nodesOfAll_map {es : List Expr} (h : ∀ e ∈ es, (ρ.expr e).nodes = e.nodes.map ρ.expr) :
    nodesOfAll (es.map ρ.expr) = (nodesOfAll es).map ρ.expr := by
  induction es with
  | nil => rw [List.map_nil, nodesOfAll_nil, List.map_nil]
  | cons e es ih =>
    rw [List.map_cons, nodesOfAll_cons, nodesOfAll_cons, List.map_append, h e List.mem_cons_self,
      ih fun e' he' => h e' (List.mem_cons_of_mem e he')]

/-- Labels are changed node by node. -/
theorem nodes_expr (e : Expr) : (ρ.expr e).nodes = e.nodes.map ρ.expr := by
  have step : ∀ e : Expr, (∀ part ∈ e.children, (ρ.expr part).nodes = part.nodes.map ρ.expr) →
      (ρ.expr e).nodes = e.nodes.map ρ.expr := by
    intro e hparts
    rw [nodes_eq, nodes_eq, children_expr, ρ.nodesOfAll_map hparts, List.map_cons]
  induction e using children_induction with
  | block info params locals statements close ih => exact step _ ih
  | other e _ ih => exact step e ih

end Shape

theorem statements_methodBody (b : MethodBody) : (ρ.methodBody b).statements = b.statements.map ρ.expr := by
  cases b <;> rfl

theorem locals_methodBody (b : MethodBody) : (ρ.methodBody b).locals = b.locals.map ρ.ident := by
  cases b <;> rfl

/-! ### Units -/

/-- The code of a unit is kept, but for its labels. -/
theorem statements_unit (u : SourceUnit) : (ρ.unit u).statements = u.statements.map ρ.expr := by
  simp [SourceUnit.statements, statementsOfClasses, statementsOfMethods, unit, classDef, method, body,
    statements_methodBody, List.map_flatMap, List.flatMap_map]

/-- If nodes keep their numbers, none comes to be shared. -/
theorem isUnshared_unit (hids : ∀ i, (ρ.info i).id = i.id) {u : SourceUnit} (hu : u.IsUnshared) :
    (ρ.unit u).IsUnshared := by
  refine ⟨?_, ?_⟩
  · have hkept : ∀ e ∈ Expr.nodesOfAll u.statements, (Expr.id ∘ ρ.expr) e = e.id := fun e _ =>
      (congrArg NodeInfo.id (ρ.info_expr e)).trans (hids e.info)
    rw [statements_unit, Expr.ids, ρ.nodesOfAll_map fun e _ => ρ.nodes_expr e, List.map_map,
      List.map_congr_left hkept]
    exact hu.nodup_ids
  · rw [statements_unit, ρ.nodesOfAll_map fun e _ => ρ.nodes_expr e, List.forall_mem_map]
    exact fun n hn => ρ.isProper_expr (hu.isProper n hn)

theorem isEmpty_body (b : Body) : (ρ.body b).isEmpty = b.isEmpty := by
  simp [body, Body.isEmpty]

theorem mainSpan_unit (u : SourceUnit) : (ρ.unit u).mainSpan = ρ.span u.mainSpan := by
  rw [SourceUnit.mainSpan, SourceUnit.mainSpan, unit, body]
  cases u.main.statements with
  | nil => rfl
  | cons e es => exact (congrArg NodeInfo.span (ρ.info_expr e)).trans (ρ.span_info e.info)

theorem mainClass?_unit (u : SourceUnit) : (ρ.unit u).mainClass? = u.mainClass?.map ρ.classDef := by
  have hempty : (ρ.unit u).main.isEmpty = u.main.isEmpty := ρ.isEmpty_body u.main
  rw [SourceUnit.mainClass?, SourceUnit.mainClass?, hempty]
  split
  · rfl
  · simp [classDef, method, methodBody, unit, Labeling.word, ρ.span_default]

/-- The classes of a unit get their labels one by one, that of the main program among them. -/
theorem allClasses_unit (u : SourceUnit) : (ρ.unit u).allClasses = u.allClasses.map ρ.classDef := by
  rw [SourceUnit.allClasses, SourceUnit.allClasses, List.map_append, ← Option.toList_map, mainClass?_unit]
  rfl

theorem declaredMain?_unit (u : SourceUnit) : (ρ.unit u).declaredMain? = u.declaredMain?.map ρ.classDef := by
  rw [SourceUnit.declaredMain?, SourceUnit.declaredMain?, mainClass?_unit, mainSpan_unit, Option.map_map,
    Option.map_map]
  simp [Function.comp_def, classDef, method, methodBody, unit, Labeling.word, ρ.span_default]

theorem declaredClasses_unit (u : SourceUnit) :
    (ρ.unit u).declaredClasses = u.declaredClasses.map ρ.classDef := by
  rw [SourceUnit.declaredClasses, SourceUnit.declaredClasses, List.map_append, ← Option.toList_map,
    declaredMain?_unit]
  rfl

end Relabeling

/-! ## Declarations

Names clash under other labels exactly if they did before. Only names of variables change, and they clash with
nothing else: the fields and the methods of a class are told apart.
-/

namespace Registration

/-- A declared name under another name, if it can be the name of a variable. -/
def renamed (r : String → String) (x : Registration) : Registration :=
  if x.space = .values then { x with name := r x.name } else x

variable {r : String → String}

theorem kind_renamed (x : Registration) : (x.renamed r).kind = x.kind := by
  unfold renamed
  split <;> rfl

theorem space_renamed (x : Registration) : (x.renamed r).space = x.space := by
  unfold renamed
  split <;> rfl

/-- Two declared names clash under their new names exactly if they did before, since different names stay
different. -/
theorem clashes_renamed (hr : Function.Injective r) (x y : Registration) :
    (x.renamed r).clashes (y.renamed r) = x.clashes y := by
  rw [clashes, clashes, space_renamed, space_renamed]
  by_cases hspace : x.space = y.space
  · by_cases hvalues : y.space = .values
    · simp [renamed, hspace, hvalues, hr.eq_iff]
    · simp [renamed, hspace, hvalues]
  · simp [hspace]

theorem any_clashes_renamed (hr : Function.Injective r) (old : List Registration) (x : Registration) :
    (old.map (renamed r)).any (x.renamed r).clashes = old.any x.clashes := by
  rw [List.any_map]
  exact List.any_congr rfl fun y => clashes_renamed hr x y

theorem onCounter_renamed (old : List Registration) (x : Registration) :
    (x.renamed r).onCounter (old.map (renamed r)) = x.onCounter old := by
  rw [onCounter, onCounter, List.countP_map]
  refine List.countP_congr fun y _ => ?_
  simp [kind_renamed]

/-- A name is declared, or refused, as before. -/
theorem register_renamed (hr : Function.Injective r) (old : List Registration) (x : Registration) :
    register (old.map (renamed r)) (x.renamed r) = (register old x).map (renamed r) := by
  rw [register, register, any_clashes_renamed hr, onCounter_renamed]
  split_ifs
  · rfl
  · rfl
  · rw [List.map_append, List.map_singleton]

/-- Other names and places bring no clash about and settle none. -/
theorem complaintsOfAll_renamed_eq_nil_iff (hr : Function.Injective r) (σ : Span → Span) (place : String)
    (old : List Registration) (news : List (Registration × Span)) :
    complaintsOfAll place (old.map (renamed r)) (news.map (Prod.map (renamed r) σ)) = [] ↔
      complaintsOfAll place old news = [] := by
  induction news generalizing old with
  | nil => rfl
  | cons new news ih =>
    have hfirst : (new.1.renamed r).complaints place (old.map (renamed r)) (σ new.2) = [] ↔
        new.1.complaints place old new.2 = [] := by
      rw [complaints, complaints, any_clashes_renamed hr, onCounter_renamed]
      split_ifs <;> simp
    rw [List.map_cons, complaintsOfAll, List.append_eq_nil_iff, complaintsOfAll, List.append_eq_nil_iff]
    exact and_congr hfirst (by rw [Prod.map_fst, register_renamed hr, ih])

end Registration

namespace Relabeling

section Declarations

open Smalltalk.Expr

variable (ρ : Relabeling)

/-- A registration under other labels. -/
def registration : Registration × Span → Registration × Span :=
  Prod.map (Registration.renamed ρ.rename) ρ.span

theorem complaintsOfAll_eq_nil_iff (place : String) (news : List (Registration × Span)) :
    complaintsOfAll place [] (news.map ρ.registration) = [] ↔ complaintsOfAll place [] news = [] :=
  complaintsOfAll_renamed_eq_nil_iff ρ.rename_injective ρ.span place [] news

theorem variableRegistrations_map (kind : SymbolKind) (xs : List Ident) :
    DeclareM.variableRegistrations kind (xs.map ρ.ident)
      = (DeclareM.variableRegistrations kind xs).map ρ.registration := by
  rw [DeclareM.variableRegistrations, DeclareM.variableRegistrations, List.map_map, List.map_map]
  exact List.map_congr_left fun x _ => by simp [registration, Registration.renamed, Labeling.ident]

/-- The parameters and locals of a body are declared in the same order. -/
theorem slotRegistrations_map (params locals : List Ident) :
    slotRegistrations (params.map ρ.ident) (locals.map ρ.ident)
      = (slotRegistrations params locals).map ρ.registration := by
  rw [slotRegistrations, slotRegistrations, List.map_append, variableRegistrations_map,
    variableRegistrations_map]

/-- Several expressions have errors in their declarations if one of them has. -/
theorem declarationErrorsOfAll_map {method : String} {es : List Expr}
    (h : ∀ e ∈ es, ∀ path k, (ρ.expr e).declarationErrors method path k = [] ↔
      e.declarationErrors method path k = []) (path : List String) (k : Nat) :
    declarationErrorsOfAll method path k (es.map ρ.expr) = [] ↔
      declarationErrorsOfAll method path k es = [] := by
  induction es generalizing k with
  | nil => rfl
  | cons e es ih =>
    rw [List.map_cons, declarationErrorsOfAll, declarationErrorsOfAll, List.append_eq_nil_iff,
      List.append_eq_nil_iff, h e List.mem_cons_self, blockCount_expr,
      ih fun e' he' => h e' (List.mem_cons_of_mem e he')]

/-- The declarations of the blocks in an expression are in order exactly if they are under other labels. -/
theorem declarationErrors_expr (method : String) (e : Expr) : ∀ path k,
    (ρ.expr e).declarationErrors method path k = [] ↔ e.declarationErrors method path k = [] := by
  induction e using children_induction with
  | block info params locals statements close ih =>
    intro path k
    rw [ρ.expr_block, declarationErrors, declarationErrors]
    split
    · simp
    · rw [List.append_eq_nil_iff, List.append_eq_nil_iff, slotRegistrations_map, ρ.complaintsOfAll_eq_nil_iff,
        ρ.declarationErrorsOfAll_map ih]
  | other e he ih =>
    intro path k
    rw [declarationErrors_eq_children ((ρ.isBlock_expr e).trans he), children_expr,
      ρ.declarationErrorsOfAll_map ih, declarationErrors_eq_children he]

/-- The declarations of a method are in order exactly if they are under other labels. -/
theorem declarationErrors_method (owner : String) (m : MethodDef) :
    (ρ.method m).declarationErrors owner = [] ↔ m.declarationErrors owner = [] := by
  rw [MethodDef.declarationErrors, MethodDef.declarationErrors, List.append_eq_nil_iff,
    List.append_eq_nil_iff, method, statements_methodBody, locals_methodBody, slotRegistrations_map,
    ρ.complaintsOfAll_eq_nil_iff, ρ.declarationErrorsOfAll_map fun e _ => ρ.declarationErrors_expr _ e]
  rfl

theorem registration_method (m : MethodDef) :
    (ρ.method m).registration = ρ.registration m.registration := by
  rw [MethodDef.registration, MethodDef.registration, method]
  cases m.body <;> cases m.classSide <;> rfl

/-- The declarations of a class are in order exactly if they are under other labels. -/
theorem declarationErrors_classDef (c : ClassDef) :
    (ρ.classDef c).declarationErrors = [] ↔ c.declarationErrors = [] := by
  have hregistrations : (ρ.classDef c).fieldRegistrations
        ++ (ρ.classDef c).methods.map MethodDef.registration
      = (c.fieldRegistrations ++ c.methods.map MethodDef.registration).map ρ.registration := by
    rw [ClassDef.fieldRegistrations, ClassDef.fieldRegistrations, classDef, variableRegistrations_map,
      List.map_append, List.map_map, List.map_map]
    exact congrArg _ (List.map_congr_left fun m _ => ρ.registration_method m)
  rw [ClassDef.declarationErrors_eq_nil_iff, ClassDef.declarationErrors_eq_nil_iff, hregistrations,
    ρ.complaintsOfAll_eq_nil_iff, classDef, List.forall_mem_map]
  exact and_congr_right fun _ => forall₂_congr fun m _ => ρ.declarationErrors_method _ m

/-- The declarations of a unit are in order exactly if they are under other labels. -/
theorem declarationErrors_unit (u : SourceUnit) :
    (ρ.unit u).declarationErrors = [] ↔ u.declarationErrors = [] := by
  have hnames : (u.declaredClasses.map ρ.classDef).map (·.name.name) = u.declaredClasses.map (·.name.name) := by
    rw [List.map_map]
    rfl
  rw [SourceUnit.declarationErrors_eq_nil_iff, SourceUnit.declarationErrors_eq_nil_iff, declaredClasses_unit,
    hnames, List.length_map, List.forall_mem_map]
  exact and_congr_right fun _ => forall₂_congr fun c _ => ρ.declarationErrors_classDef c

end Declarations

end Relabeling

/-! ## Classes that classes inherit from -/

section Inheritance

variable (r : String → String)

/-- What a class says about itself, with other names for its fields. -/
def ClassHeader.renamed (c : ClassHeader) : ClassHeader := { c with fields := c.fields.map r }

theorem without_map_renamed (classes : List ClassHeader) (x : String) :
    without (classes.map (ClassHeader.renamed r)) x = (without classes x).map (ClassHeader.renamed r) := by
  rw [without, without, List.filter_map]
  rfl

/-- Classes keep their names, so each inherits from the same classes. -/
theorem ancestry_map_renamed (classes : List ClassHeader) (name : Option String) :
    ancestry (classes.map (ClassHeader.renamed r)) name
      = (ancestry classes name).map (ClassHeader.renamed r) := by
  have hfind : ∀ (classes : List ClassHeader) x, (classes.map (ClassHeader.renamed r)).find? (·.name = x)
      = (classes.find? (·.name = x)).map (ClassHeader.renamed r) := fun _ _ => List.find?_map
  induction classes, name using ancestry.induct with
  | case1 classes => rw [ancestry, ancestry, List.map_nil]
  | case2 classes x hnone =>
    rw [ancestry_of_find?_eq_none hnone, ancestry_of_find?_eq_none (by rw [hfind, hnone]; rfl), List.map_nil]
  | case3 classes x c hsome _ ih =>
    have hsome' : (classes.map (ClassHeader.renamed r)).find? (·.name = x) = some (c.renamed r) := by
      rw [hfind, hsome, Option.map_some]
    rw [ancestry_of_find?_eq_some hsome, ancestry_of_find?_eq_some hsome', without_map_renamed,
      List.map_cons]
    exact congrArg _ ih

theorem acyclic_map_renamed (classes : List ClassHeader) :
    Acyclic (classes.map (ClassHeader.renamed r)) ↔ Acyclic classes := by
  have hextends : DirectlyExtends (classes.map (ClassHeader.renamed r)) = DirectlyExtends classes := by
    funext x y
    simp [DirectlyExtends, ClassHeader.renamed]
  rw [Acyclic, Acyclic, hextends]

variable {r}

theorem idxOf?_map_of_injective (hr : Function.Injective r) (xs : List String) (x : String) :
    (xs.map r).idxOf? (r x) = xs.idxOf? x := by
  rw [List.idxOf?, List.idxOf?, List.findIdx?_map]
  congr 1
  funext y
  simp [hr.eq_iff]

/-- A variable is found in the same slot under its new name. -/
theorem findSlot_renamed (hr : Function.Injective r) (frames : List (List String)) (x : String) :
    findSlot (frames.map (List.map r)) (r x) = findSlot frames x := by
  induction frames with
  | nil => rfl
  | cons frame frames ih => rw [List.map_cons, findSlot, findSlot, idxOf?_map_of_injective hr, ih]

theorem fieldTotal_renamed (layers : List (List String)) :
    fieldTotal (layers.map (List.map r)) = fieldTotal layers := by
  induction layers with
  | nil => rfl
  | cons layer layers ih => rw [List.map_cons, fieldTotal, fieldTotal, ih, List.length_map]

/-- A field is found in the same place under its new name. -/
theorem findField_renamed (hr : Function.Injective r) (layers : List (List String)) (x : String) :
    findField (layers.map (List.map r)) (r x) = findField layers x := by
  induction layers with
  | nil => rfl
  | cons layer layers ih =>
    rw [List.map_cons, findField, findField, idxOf?_map_of_injective hr, fieldTotal_renamed, ih]

end Inheritance

namespace Relabeling

variable (ρ : Relabeling)

theorem header_classDef (c : ClassDef) : (ρ.classDef c).header = c.header.renamed ρ.rename := by
  rw [ClassDef.header, ClassDef.header, ClassDef.superclassName, ClassDef.superclassName, classDef,
    ρ.namesOf_map_ident, Option.map_map]
  rfl

theorem map_header_map (classes : List ClassDef) : (classes.map ρ.classDef).map ClassDef.header
    = (classes.map ClassDef.header).map (ClassHeader.renamed ρ.rename) := by
  rw [List.map_map, List.map_map]
  exact List.map_congr_left fun c _ => ρ.header_classDef c

/-- A class inherits the same fields, under their new names. -/
theorem layers_classDef (classes : List ClassDef) (c : ClassDef) :
    (ρ.classDef c).layers (classes.map ρ.classDef) = (c.layers classes).map (List.map ρ.rename) := by
  rw [ClassDef.layers, ClassDef.layers, header_classDef, map_header_map, ClassHeader.layers,
    ClassHeader.layers, ClassHeader.renamed, without_map_renamed, ancestry_map_renamed, List.map_cons,
    List.map_cons, List.map_cons, List.map_map, List.map_map]
  rfl

end Relabeling

/-! ## What names refer to -/

/-- What is neither a slot nor a field is left to the running program. -/
theorem Surroundings.refer_eq_global_iff (s : Surroundings) (x : String) :
    s.refer x = .global ↔ findSlot s.frames x = none ∧ findField s.layers x = none := by
  rw [refer]
  cases findSlot s.frames x with
  | some found => simp
  | none => cases findField s.layers x <;> simp

namespace Expr

section Globals

variable (layers : List (List String))

mutual

/-- The names in an expression that neither the bodies around them nor the fields of their class
declare. -/
def globals (frames : List (List String)) : Expr → List String
  | atom _ _ => []
  | name _ x => if findSlot frames x = none ∧ findField layers x = none then [x] else []
  | array _ items => globalsOfAll frames items
  | block _ params locals statements _ =>
    globalsOfAll ((namesOf params ++ namesOf locals) :: frames) statements
  | send _ receiver _ arguments => receiver.globals frames ++ globalsOfAll frames arguments
  | superSend _ _ arguments => globalsOfAll frames arguments
  | assign _ target value => target.globals frames ++ value.globals frames
  | ret _ value => value.globals frames

/-- The names in several expressions that are left to the running program. -/
def globalsOfAll (frames : List (List String)) : List Expr → List String
  | [] => []
  | e :: es => e.globals frames ++ globalsOfAll frames es

end

end Globals

/-- A name is left to the running program exactly if it refers to nothing in its surroundings. -/
theorem mem_globals_name {s : Surroundings} {info : NodeInfo} {x y : String} :
    y ∈ (name info x).globals s.layers s.frames ↔ s.refer x = .global ∧ y = x := by
  rw [globals, s.refer_eq_global_iff]
  split_ifs with h
  · simp [h]
  · simp [h]

end Expr

/-- The names in a method that are left to the running program. -/
def MethodDef.globals (layers : List (List String)) (m : MethodDef) : List String :=
  Expr.globalsOfAll layers [namesOf m.params ++ namesOf m.body.locals] m.body.statements

/-- The names in a class that are left to the running program. -/
def ClassDef.globals (classes : List ClassDef) (c : ClassDef) : List String :=
  c.methods.flatMap (MethodDef.globals (c.layers classes))

namespace Relabeling

/-- The surroundings `s'` are those of a tree under other labels, if `s` are those of the tree: every variable is
where it was, under its new name. -/
structure Around (ρ : Relabeling) (s s' : Surroundings) : Prop where
  suits : ρ.Suits s.file
  file_eq : s'.file = s.file
  method_eq : s'.method = s.method
  path_eq : s'.path = s.path
  frames_eq : s'.frames = s.frames.map (List.map ρ.rename)
  keepsFields : ρ.KeepsFields s.layers s'.layers

namespace Around

variable {ρ : Relabeling} {s s' : Surroundings}

/-- A name refers to the same thing under its new name. -/
theorem refer_eq (h : ρ.Around s s') (x : String) : s'.refer (ρ.rename x) = s.refer x := by
  rw [Surroundings.refer, Surroundings.refer, h.frames_eq, findSlot_renamed ρ.rename_injective,
    h.keepsFields x]

theorem blockName_eq (h : ρ.Around s s') (k : Nat) : s'.blockName k = s.blockName k := by
  rw [Surroundings.blockName, Surroundings.blockName, h.method_eq]

/-- The inside of a block gets its labels with its surroundings. -/
theorem enter (h : ρ.Around s s') (k : Nat) (params locals : List Ident) :
    ρ.Around (s.enter k (namesOf params ++ namesOf locals))
      (s'.enter k (namesOf (params.map ρ.ident) ++ namesOf (locals.map ρ.ident))) where
  suits := h.suits
  file_eq := h.file_eq
  method_eq := h.method_eq
  path_eq := by rw [Surroundings.enter, Surroundings.enter, h.path_eq, h.blockName_eq]
  frames_eq := by
    rw [Surroundings.enter, Surroundings.enter, ρ.namesOf_map_ident, ρ.namesOf_map_ident, ← List.map_append,
      h.frames_eq, List.map_cons]
  keepsFields := h.keepsFields

end Around

section Names

open Smalltalk.Expr

variable {ρ : Relabeling} {s s' : Surroundings} {unknown : String → Bool}

/-- A name is in order exactly if it is under its new label, if it is kept where it is left to the running
program. -/
theorem nameErrors_eq_nil_iff (h : ρ.Around s s') {i : NodeInfo} {x : String}
    (hkept : ρ.Keeps ((Expr.name i x).globals s.layers s.frames)) :
    nameErrors unknown s' (ρ.info i) (ρ.rename x) = [] ↔ nameErrors unknown s i x = [] := by
  rw [nameErrors, nameErrors, h.refer_eq]
  by_cases hglobal : s.refer x = .global
  · rw [hkept x (mem_globals_name.mpr ⟨hglobal, rfl⟩)]
    split_ifs <;> simp
  · rw [if_neg fun h => hglobal h.1, if_neg fun h => hglobal h.1]

/-- What is assigned to is in order exactly if it is under other labels. -/
theorem targetErrors_expr (h : ρ.Around s s') {e : Expr} (hkept : ρ.Keeps (e.globals s.layers s.frames)) :
    (ρ.expr e).targetErrors unknown s' = [] ↔ e.targetErrors unknown s = [] := by
  cases e with
  | name i x =>
    rw [ρ.expr_name, targetErrors, targetErrors, List.append_eq_nil_iff, List.append_eq_nil_iff,
      nameErrors_eq_nil_iff h hkept, h.refer_eq]
    split_ifs <;> simp
  | atom | array | block | send | superSend | assign | ret => simp [targetErrors]

theorem bindingErrorsOfAll_map {es : List Expr}
    (he : ∀ e ∈ es, ∀ s s' k, ρ.Around s s' → ρ.Keeps (e.globals s.layers s.frames) →
      ((ρ.expr e).bindingErrors unknown s' k = [] ↔ e.bindingErrors unknown s k = []))
    (h : ρ.Around s s') (hkept : ρ.Keeps (globalsOfAll s.layers s.frames es)) (k : Nat) :
    bindingErrorsOfAll unknown s' k (es.map ρ.expr) = [] ↔ bindingErrorsOfAll unknown s k es = [] := by
  induction es generalizing k with
  | nil => rfl
  | cons e es ih =>
    rw [globalsOfAll, Labeling.keeps_append] at hkept
    rw [List.map_cons, bindingErrorsOfAll, bindingErrorsOfAll, List.append_eq_nil_iff,
      List.append_eq_nil_iff, he e List.mem_cons_self s s' k h hkept.1, blockCount_expr,
      ih (fun e' he' => he e' (List.mem_cons_of_mem e he')) hkept.2]

/-- The names in an expression are in order exactly if they are under other labels. -/
theorem bindingErrors_expr (e : Expr) : ∀ s s' k, ρ.Around s s' → ρ.Keeps (e.globals s.layers s.frames) →
      ((ρ.expr e).bindingErrors unknown s' k = [] ↔ e.bindingErrors unknown s k = []) := by
  induction e using tree_induction with
  | atom info value =>
    intro s s' k _ _
    rw [ρ.expr_atom, bindingErrors, bindingErrors]
  | name info x =>
    intro s s' k h hkept
    rw [ρ.expr_name, bindingErrors, bindingErrors, nameErrors_eq_nil_iff h hkept]
  | array info items ih =>
    intro s s' k h hkept
    rw [globals] at hkept
    rw [ρ.expr_array, bindingErrors, bindingErrors, bindingErrorsOfAll_map ih h hkept]
  | block info params locals statements close ih =>
    intro s s' k h hkept
    rw [globals] at hkept
    rw [ρ.expr_block, bindingErrors, bindingErrors]
    exact bindingErrorsOfAll_map ih (h.enter k params locals) hkept (k + 1)
  | send info receiver selector arguments ihr iha =>
    intro s s' k h hkept
    rw [globals, Labeling.keeps_append] at hkept
    rw [ρ.expr_send, bindingErrors, bindingErrors, List.append_eq_nil_iff, List.append_eq_nil_iff,
      ihr s s' k h hkept.1, blockCount_expr, bindingErrorsOfAll_map iha h hkept.2]
  | superSend info selector arguments ih =>
    intro s s' k h hkept
    rw [globals] at hkept
    rw [ρ.expr_superSend, bindingErrors, bindingErrors, bindingErrorsOfAll_map ih h hkept]
  | assign info target value iht ihv =>
    intro s s' k h hkept
    rw [globals, Labeling.keeps_append] at hkept
    rw [ρ.expr_assign, bindingErrors, bindingErrors, List.append_eq_nil_iff, List.append_eq_nil_iff,
      ihv s s' _ h hkept.2, blockCount_expr, targetErrors_expr h hkept.1]
  | ret info value ih =>
    intro s s' k h hkept
    rw [globals] at hkept
    rw [ρ.expr_ret, bindingErrors, bindingErrors, ih s s' k h hkept]

end Names

end Relabeling

/-! ## Code -/

namespace Expr

theorem output_name (s : Surroundings) (k : Nat) (info : NodeInfo) (x : String) :
    (name info x).output s k = ⟨[(s.refer x).push x], (s.refer x).strings x, []⟩ := by
  simp [output]

/-- What an assignment contributes to its class, piece by piece. -/
theorem output_assign (s : Surroundings) (k : Nat) (info : NodeInfo) (target value : Expr) :
    (assign info target value).output s k = ⟨[], [], (target.output s k).blocks⟩
      ++ value.output s (k + target.blockCount) ++ ⟨target.storeInto s, [], []⟩ := by
  simp [output, translate, strings, blocks, Output.append_eq]

end Expr

namespace Relabeling

section Code

open Smalltalk.Expr

variable {ρ : Relabeling} {s s' : Surroundings}

/-- An assignment stores into the same place. -/
theorem storeInto_expr (h : ρ.Around s s') (e : Expr) : (ρ.expr e).storeInto s' = e.storeInto s := by
  cases e with
  | name info x => rw [ρ.expr_name, storeInto, storeInto, h.refer_eq]
  | atom | array | block | send | superSend | assign | ret => simp [storeInto]

theorem outputOfAll_map {es : List Expr}
    (he : ∀ e ∈ es, ∀ s s' k, ρ.Around s s' → ρ.Keeps (e.globals s.layers s.frames) →
      (ρ.expr e).output s' k = e.output s k)
    (h : ρ.Around s s') (hkept : ρ.Keeps (globalsOfAll s.layers s.frames es)) (k : Nat) :
    outputOfAll s' k (es.map ρ.expr) = outputOfAll s k es := by
  induction es generalizing k with
  | nil => rw [List.map_nil, outputOfAll_nil, outputOfAll_nil]
  | cons e es ih =>
    rw [globalsOfAll, Labeling.keeps_append] at hkept
    rw [List.map_cons, outputOfAll_cons, outputOfAll_cons, he e List.mem_cons_self s s' k h hkept.1,
      blockCount_expr, ih (fun e' he' => he e' (List.mem_cons_of_mem e he')) hkept.2]

/-- What statements contribute, where the statements contribute the same one by one. -/
theorem outputOfStatements_map {es : List Expr}
    (he : ∀ e ∈ es, ∀ s s' k, ρ.Around s s' → ρ.Keeps (e.globals s.layers s.frames) →
      (ρ.expr e).output s' k = e.output s k)
    (h : ρ.Around s s') (hkept : ρ.Keeps (globalsOfAll s.layers s.frames es)) (k : Nat) :
    outputOfStatements s' k (es.map ρ.expr) = outputOfStatements s k es := by
  induction es generalizing k with
  | nil => rw [List.map_nil, outputOfStatements_nil, outputOfStatements_nil]
  | cons e es ih =>
    rw [globalsOfAll, Labeling.keeps_append] at hkept
    have hfirst := he e List.mem_cons_self s s' k h hkept.1
    have hrest := ih (fun e' he' => he e' (List.mem_cons_of_mem e he')) hkept.2 (k + e.blockCount)
    cases es with
    | nil =>
      rw [List.map_singleton, outputOfStatements_singleton, outputOfStatements_singleton, hfirst]
    | cons f es =>
      rw [List.map_cons] at hrest
      rw [List.map_cons, List.map_cons, outputOfStatements_cons_cons, outputOfStatements_cons_cons,
        hfirst, blockCount_expr, hrest]

/-- What an expression contributes to its class does not depend on labels. -/
theorem output_expr (e : Expr) : ∀ s s' k, ρ.Around s s' → ρ.Keeps (e.globals s.layers s.frames) →
    (ρ.expr e).output s' k = e.output s k := by
  induction e using tree_induction with
  | atom info value =>
    intro s s' k _ _
    rw [ρ.expr_atom, output, output]
    cases value <;> simp
  | name info x =>
    intro s s' k h hkept
    rw [ρ.expr_name, output_name, output_name, h.refer_eq]
    cases hrefer : s.refer x with
    | global => rw [hkept x (mem_globals_name.mpr ⟨hrefer, rfl⟩)]
    | slot | field => rfl
  | array info items ih =>
    intro s s' k h hkept
    rw [globals] at hkept
    rw [ρ.expr_array, output_array, output_array, outputOfAll_map ih h hkept, List.length_map]
  | block info params locals statements close ih =>
    intro s s' k h hkept
    rw [globals] at hkept
    have hinner := h.enter k params locals
    rw [ρ.expr_block, output_block, output_block, bodyOutput, bodyOutput,
      outputOfStatements_map ih hinner hkept, hinner.file_eq, hinner.path_eq, h.blockName_eq,
      Labeling.markOutput_span hinner.suits, ρ.namesOf_map_ident, ρ.namesOf_map_ident, List.length_map,
      List.length_map]
  | send info receiver selector arguments ihr iha =>
    intro s s' k h hkept
    rw [globals, Labeling.keeps_append] at hkept
    rw [ρ.expr_send, output_send, output_send, ihr s s' k h hkept.1, blockCount_expr,
      outputOfAll_map iha h hkept.2, List.length_map, ρ.text_selector]
  | superSend info selector arguments ih =>
    intro s s' k h hkept
    rw [globals] at hkept
    rw [ρ.expr_superSend, output_superSend, output_superSend, outputOfAll_map ih h hkept,
      List.length_map]
    rfl
  | assign info target value iht ihv =>
    intro s s' k h hkept
    rw [globals, Labeling.keeps_append] at hkept
    rw [ρ.expr_assign, output_assign, output_assign, iht s s' k h hkept.1, ihv s s' _ h hkept.2,
      blockCount_expr, storeInto_expr h]
  | ret info value ih =>
    intro s s' k h hkept
    rw [globals] at hkept
    rw [ρ.expr_ret, output_ret, output_ret, ih s s' k h hkept, h.file_eq, ρ.span_info,
      Labeling.markOutput_span h.suits]

end Code

/-! ## Methods and classes -/

section Methods

variable {ρ : Relabeling} {file : Option String} {layers layers' : List (List String)} {owner : String}
  {m : MethodDef} (hfields : ρ.KeepsFields layers layers')

include hfields

/-- Around the code of a method there are its parameters and locals, and the fields of its class. -/
theorem around_surroundings (hsuits : ρ.Suits file) (locals : List Ident) :
    ρ.Around (m.surroundings file layers owner locals)
      ((ρ.method m).surroundings file layers' owner (locals.map ρ.ident)) where
  suits := hsuits
  file_eq := rfl
  method_eq := rfl
  path_eq := rfl
  frames_eq := by
    rw [MethodDef.surroundings, MethodDef.surroundings, method, ρ.namesOf_map_ident, ρ.namesOf_map_ident,
      ← List.map_append]
    rfl
  keepsFields := hfields

/-- The names in a method are in order exactly if they are under other labels. -/
theorem bindingErrors_method (unknown : String → Bool) (hkept : ρ.Keeps (m.globals layers)) :
    (ρ.method m).bindingErrors unknown layers' owner = [] ↔ m.bindingErrors unknown layers owner = [] := by
  have hbody : (ρ.method m).body = ρ.methodBody m.body := rfl
  rw [MethodDef.bindingErrors, MethodDef.bindingErrors, hbody, statements_methodBody, locals_methodBody]
  exact bindingErrorsOfAll_map (fun e _ => bindingErrors_expr e) (around_surroundings hfields (.inl rfl) _) hkept 0

/-- A method contributes the same to its class. -/
theorem output_method (hsuits : ρ.Suits file) (hkept : ρ.Keeps (m.globals layers)) :
    (ρ.method m).output file layers' owner = m.output file layers owner := by
  have hbody : (ρ.method m).body = ρ.methodBody m.body := rfl
  rw [MethodDef.globals] at hkept
  rw [MethodDef.output, MethodDef.output, hbody]
  cases hcode : m.body with
  | primitive name => rfl
  | code body =>
    rw [hcode] at hkept
    have hstatements : Expr.outputOfStatements
          ((ρ.method m).surroundings file layers' owner (body.locals.map ρ.ident)) 0 (body.statements.map ρ.expr)
        = Expr.outputOfStatements (m.surroundings file layers owner body.locals) 0 body.statements :=
      outputOfStatements_map (fun e _ => output_expr e) (around_surroundings hfields hsuits _) hkept 0
    have hclose : markOutput file (ρ.method m).close.start = markOutput file m.close.start :=
      Labeling.markOutput_span hsuits m.close
    simp only [methodBody, Relabeling.body, hstatements, hclose]

/-- A method has the same code. -/
theorem translate_method (hsuits : ρ.Suits file) (hkept : ρ.Keeps (m.globals layers)) :
    (ρ.method m).translate file layers' owner = m.translate file layers owner := by
  have hparams : (ρ.method m).params.length = m.params.length := List.length_map _
  cases hcode : m.body with
  | primitive name =>
    have hbody : (ρ.method m).body = .primitive (ρ.word name) := by
      rw [method, hcode]
      rfl
    rw [MethodDef.translate, MethodDef.translate, hbody, hcode, hparams]
    rfl
  | code body =>
    have hbody : (ρ.method m).body = .code (ρ.body body) := by
      rw [method, hcode]
      rfl
    have hlocals : (ρ.body body).locals.length = body.locals.length := List.length_map _
    rw [MethodDef.translate_of_code hbody, MethodDef.translate_of_code hcode,
      output_method hfields hsuits hkept, hparams, hlocals]
    rfl

theorem outputOfMethods_map (hsuits : ρ.Suits file) {ms : List MethodDef}
    (hkept : ∀ m ∈ ms, ρ.Keeps (m.globals layers)) :
    outputOfMethods file layers' owner (ms.map ρ.method) = outputOfMethods file layers owner ms := by
  induction ms with
  | nil => rfl
  | cons m ms ih =>
    rw [List.forall_mem_cons] at hkept
    rw [List.map_cons, outputOfMethods, outputOfMethods, output_method hfields hsuits hkept.1, ih hkept.2]

end Methods

end Relabeling

/-- A compiled class whose fields are called differently. -/
def CompiledClass.withFieldsRenamed (r : String → String) (c : CompiledClass) : CompiledClass :=
  { c with fields := c.fields.map r }

theorem CompiledClass.withFieldsRenamed_id (c : CompiledClass) : c.withFieldsRenamed id = c := by
  rw [withFieldsRenamed, List.map_id]

namespace Relabeling

section Classes

variable {ρ : Relabeling} {file : Option String} {classes classes' : List ClassDef} {c : ClassDef}

theorem forall_globals_methods (hkept : ρ.Keeps (c.globals classes)) :
    ∀ m ∈ c.methods, ρ.Keeps (m.globals (c.layers classes)) :=
  fun m hm y hy => hkept y (List.mem_flatMap.mpr ⟨m, hm, hy⟩)

variable (hfields : ρ.KeepsFields (c.layers classes) ((ρ.classDef c).layers classes'))
  (hkept : ρ.Keeps (c.globals classes))

include hfields hkept

/-- The names in a class are in order exactly if they are under other labels. -/
theorem bindingErrors_classDef (unknown : String → Bool) :
    (ρ.classDef c).bindingErrors unknown classes' = [] ↔ c.bindingErrors unknown classes = [] := by
  have hmethods : (ρ.classDef c).methods = c.methods.map ρ.method := rfl
  rw [ClassDef.bindingErrors, ClassDef.bindingErrors, hmethods, List.flatMap_eq_nil_iff,
    List.flatMap_eq_nil_iff, List.forall_mem_map]
  exact forall₂_congr fun m hm =>
    bindingErrors_method hfields unknown (forall_globals_methods hkept m hm)

/-- A class has the same code; only its fields are called differently. -/
theorem translate_classDef (hsuits : ρ.Suits file) :
    (ρ.classDef c).translate file classes'
      = { c.translate file classes with fields := (namesOf c.fields).map ρ.rename } := by
  have hmethods : (ρ.classDef c).methods.map
        (MethodDef.translate file ((ρ.classDef c).layers classes') c.name.name)
      = c.methods.map (MethodDef.translate file (c.layers classes) c.name.name) := by
    rw [classDef, List.map_map]
    exact List.map_congr_left fun m hm =>
      translate_method hfields hsuits (forall_globals_methods hkept m hm)
  have hheader := ρ.header_classDef c
  rw [ClassDef.header, ClassDef.header, ClassHeader.renamed, ClassHeader.mk.injEq] at hheader
  rw [ClassDef.translate, ClassDef.translate, hheader.2.1, hheader.2.2]
  exact congrArg _ hmethods

/-- A class has the same compiled form, but for the names of its fields. -/
theorem assembled_classDef (hsuits : ρ.Suits file) :
    (ρ.classDef c).assembled file classes' = (c.assembled file classes).withFieldsRenamed ρ.rename := by
  have houtput : (ρ.classDef c).output file classes' = c.output file classes :=
    outputOfMethods_map hfields hsuits (forall_globals_methods hkept)
  rw [ClassDef.assembled, ClassDef.assembled, translate_classDef hfields hkept hsuits, houtput]
  rfl

end Classes

/-! ## Units -/

section Units

variable {ρ : Relabeling} {u : SourceUnit} {options : CompileOptions} {file : Option String}

/-- The fields of a class are in the same places if all classes around it get their labels too. -/
theorem keepsFields_layers (classes : List ClassDef) (c : ClassDef) :
    ρ.KeepsFields (c.layers classes) ((ρ.classDef c).layers (classes.map ρ.classDef)) := by
  intro x
  rw [layers_classDef, findField_renamed ρ.rename_injective]

theorem isUnknown_unit : (ρ.unit u).isUnknown options = u.isUnknown options := by
  funext x
  rw [SourceUnit.isUnknown, SourceUnit.isUnknown, allClasses_unit, List.all_map]
  rfl

variable (hkept : ∀ c ∈ u.allClasses, ρ.Keeps (c.globals u.allClasses))

include hkept

/-- Nothing is wrong with a unit exactly if nothing is wrong with it under other labels. -/
theorem complaints_unit_eq_nil_iff (hids : ∀ i, (ρ.info i).id = i.id) (hu : u.IsUnshared) :
    (ρ.unit u).complaints options = [] ↔ u.complaints options = [] := by
  rw [SourceUnit.complaints_eq_nil_iff hu.nodup_ids,
    SourceUnit.complaints_eq_nil_iff (ρ.isUnshared_unit hids hu).nodup_ids, declarationErrors_unit,
    isUnknown_unit, allClasses_unit, map_header_map, acyclic_map_renamed, List.forall_mem_map]
  refine and_congr_right fun _ => and_congr_right fun _ => forall₂_congr fun c hc => ?_
  exact bindingErrors_classDef (keepsFields_layers u.allClasses c) (hkept c hc) _

theorem fits_unit_iff (hsuits : ρ.Suits file) :
    (ρ.unit u).Fits file ↔ u.Fits file := by
  rw [SourceUnit.Fits, SourceUnit.Fits, SourceUnit.translate, SourceUnit.translate, List.forall_mem_map,
    List.forall_mem_map, allClasses_unit, List.forall_mem_map]
  refine forall₂_congr fun c hc => ?_
  rw [translate_classDef (keepsFields_layers u.allClasses c) (hkept c hc) hsuits]
  exact ⟨fun h => ⟨h.instructions_fit, h.strings_le⟩, fun h => ⟨h.instructions_fit, h.strings_le⟩⟩

theorem assembled_unit (hsuits : ρ.Suits file) :
    (ρ.unit u).assembled file = (u.assembled file).map (CompiledClass.withFieldsRenamed ρ.rename) := by
  rw [SourceUnit.assembled, SourceUnit.assembled, allClasses_unit, List.map_map, List.map_map]
  exact List.map_congr_left fun c hc =>
    assembled_classDef (keepsFields_layers u.allClasses c) (hkept c hc) hsuits

/-- Compilation does not depend on labels. A unit is compiled under other labels exactly if it is compiled as it
is, and then to the same classes, in which only the fields are called differently. -/
theorem compile_unit_eq_ok_iff (hids : ∀ i, (ρ.info i).id = i.id) (hu : u.IsUnshared)
    (hsuits : ρ.Suits options.markedFile) {classes' : List CompiledClass} : ((ρ.unit u).compile options).result = .ok classes' ↔
      ∃ classes, (u.compile options).result = .ok classes ∧
        classes' = classes.map (CompiledClass.withFieldsRenamed ρ.rename) := by
  simp only [SourceUnit.compile_eq_ok_iff hu, SourceUnit.compile_eq_ok_iff (ρ.isUnshared_unit hids hu),
    complaints_unit_eq_nil_iff hkept hids hu, fits_unit_iff hkept hsuits, assembled_unit hkept hsuits]
  constructor
  · rintro ⟨hcomplaints, hfits, rfl⟩
    exact ⟨_, ⟨hcomplaints, hfits, rfl⟩, rfl⟩
  · rintro ⟨_, ⟨hcomplaints, hfits, rfl⟩, rfl⟩
    exact ⟨hcomplaints, hfits, rfl⟩

end Units

end Relabeling

end Smalltalk
