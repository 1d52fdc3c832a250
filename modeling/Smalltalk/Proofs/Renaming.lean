import Mathlib
import Smalltalk.Proofs.Forest
import Smalltalk.Proofs.Relabeling
import Smalltalk.Proofs.Verification

/-!
# Names of variables do not matter

A variable is known to compiled code by its place alone. Give all variables of a unit other names, so that
different names stay different and no name is touched that is left to the running program: the unit is
compiled to the same classes, in which only the fields are called differently.

What is left to the running program is said twice. The stage that binds names finds it out occurrence by
occurrence; for a relabeling it is read off the source. The first covers the second.
-/

namespace Smalltalk

/-! ## Renaming -/

section Definitions

variable (r : String → String)

/-- A variable under another name. -/
def Ident.renamed (i : Ident) : Ident := { i with name := r i.name }

namespace Expr

mutual

/-- An expression with other names for its variables. -/
def renamed : Expr → Expr
  | atom info value => .atom info value
  | name info x => .name info (r x)
  | array info items => .array info (renamedAll items)
  | block info params locals statements close =>
    .block info (params.map (Ident.renamed r)) (locals.map (Ident.renamed r)) (renamedAll statements) close
  | send info receiver selector arguments =>
    .send info receiver.renamed selector (renamedAll arguments)
  | superSend info selector arguments => .superSend info selector (renamedAll arguments)
  | assign info target value => .assign info target.renamed value.renamed
  | ret info value => .ret info value.renamed

/-- Several expressions with other names for their variables. -/
def renamedAll : List Expr → List Expr
  | [] => []
  | e :: es => e.renamed :: renamedAll es

end

end Expr

/-- A body with other names for its variables. -/
def Body.renamed (b : Body) : Body :=
  ⟨b.locals.map (Ident.renamed r), Expr.renamedAll r b.statements⟩

/-- What a method does, with other names for its variables. -/
def MethodBody.renamed : MethodBody → MethodBody
  | code body => .code (body.renamed r)
  | primitive name => .primitive name

/-- A method with other names for its variables. It keeps its selector. -/
def MethodDef.renamed (m : MethodDef) : MethodDef :=
  { m with params := m.params.map (Ident.renamed r), body := m.body.renamed r }

/-- A class with other names for its variables, the fields included. It keeps its own name. -/
def ClassDef.renamed (c : ClassDef) : ClassDef :=
  { c with
    fields := c.fields.map (Ident.renamed r)
    methods := c.methods.map (MethodDef.renamed r) }

/-- A unit with other names for its variables. -/
def SourceUnit.renamed (u : SourceUnit) : SourceUnit :=
  { u with
    classes := u.classes.map (ClassDef.renamed r)
    main := u.main.renamed r }

end Definitions

/-! ## Renaming is a relabeling -/

theorem Expr.renamedAll_eq_map (r : String → String) (es : List Expr) : renamedAll r es = es.map (renamed r) := by
  induction es with
  | nil => rw [renamedAll, List.map_nil]
  | cons e es ih => rw [renamedAll, ih, List.map_cons]

namespace Relabeling

variable {r : String → String}

/-- Variables get other names, and all else is kept. -/
def ofInjective (hr : Function.Injective r) : Relabeling where
  rename := r
  span := id
  info := id
  expr := Expr.renamed r
  rename_injective := hr
  span_default := Labeling.span_default_id
  span_info _ := rfl
  expr_atom _ _ := by rw [Expr.renamed, id]
  expr_name _ _ := by rw [Expr.renamed, id]
  expr_array _ _ := by rw [Expr.renamed, Expr.renamedAll_eq_map, id]
  expr_block _ _ _ _ _ := by
    rw [Expr.renamed, Expr.renamedAll_eq_map]
    rfl
  expr_send _ _ _ _ := by
    rw [Expr.renamed, Expr.renamedAll_eq_map, Labeling.selector_eq_self fun _ => rfl, id]
  expr_superSend _ _ _ := by
    rw [Expr.renamed, Expr.renamedAll_eq_map, Labeling.word_eq_self fun _ => rfl, id]
  expr_assign _ _ _ := by rw [Expr.renamed, id]
  expr_ret _ _ := by rw [Expr.renamed, id]

theorem body_ofInjective (hr : Function.Injective r) (b : Body) : (ofInjective hr).body b = b.renamed r := by
  rw [Body.renamed, Expr.renamedAll_eq_map]
  rfl

theorem method_ofInjective (hr : Function.Injective r) (m : MethodDef) : (ofInjective hr).method m = m.renamed r := by
  have hbody : (ofInjective hr).methodBody m.body = m.body.renamed r := by
    cases m.body with
    | primitive name => rfl
    | code b => rw [methodBody, body_ofInjective, MethodBody.renamed]
  rw [method, hbody]
  rfl

theorem classDef_ofInjective (hr : Function.Injective r) (c : ClassDef) :
    (ofInjective hr).classDef c = c.renamed r := by
  have hsuperclass : c.superclass.map (ofInjective hr).word = c.superclass := by
    cases c.superclass <;> rfl
  have hmethods : c.methods.map (ofInjective hr).method = c.methods.map (MethodDef.renamed r) :=
    List.map_congr_left fun m _ => method_ofInjective hr m
  rw [classDef, hsuperclass, hmethods]
  rfl

theorem unit_ofInjective (hr : Function.Injective r) (u : SourceUnit) : (ofInjective hr).unit u = u.renamed r := by
  rw [unit, body_ofInjective, List.map_congr_left fun c _ => classDef_ofInjective hr c]
  rfl

end Relabeling

/-! ## What binding names finds out -/

namespace Expr

open ResolveContext

variable {ctx : ResolveContext} {owner : ScopeId}

/-- Wherever the expression stands, what it leaves to the running program has been bound so. -/
def FindsGlobals (ctx : ResolveContext) (owner : ScopeId) (e : Expr) : Prop :=
  ∀ scope s k, ctx.Located owner scope s k [e] → ∀ x ∈ e.globals s.layers s.frames,
    ∃ info, .name info x ∈ e.nodes ∧ (info.id, .global) ∈ e.bindings ctx scope

/-- What several expressions leave to the running program has been bound so if it has been in each of them. -/
theorem exists_binding_of_mem_globalsOfAll {es : List Expr} (h : ∀ e ∈ es, FindsGlobals ctx owner e)
    {scope : ScopeId} {s : Surroundings} {k : Nat} (hes : ctx.Located owner scope s k es) :
    ∀ x ∈ globalsOfAll s.layers s.frames es,
      ∃ info, .name info x ∈ nodesOfAll es ∧ (info.id, .global) ∈ bindingsOfAll ctx scope es := by
  induction es generalizing k with
  | nil =>
    rw [globalsOfAll]
    exact fun _ hx => absurd hx List.not_mem_nil
  | cons e es ih =>
    intro x hx
    rw [globalsOfAll, List.mem_append] at hx
    rw [bindingsOfAll]
    rcases hx with hx | hx
    · obtain ⟨info, hnode, hbinding⟩ := h e List.mem_cons_self scope s k hes.head x hx
      exact ⟨info, List.mem_append_left _ hnode, List.mem_append_left _ hbinding⟩
    · obtain ⟨info, hnode, hbinding⟩ :=
        ih (fun e' he' => h e' (List.mem_cons_of_mem e he')) hes.tail x hx
      exact ⟨info, List.mem_append_right _ hnode, List.mem_append_right _ hbinding⟩

/-- So it has been in an expression if it has been in its parts. -/
theorem exists_binding_of_parts {e : Expr} {es : List Expr} {scope : ScopeId} {s : Surroundings} {k : Nat}
    (hes : ctx.Located owner scope s k es) (hparts : e.children = es) (hproper : ∀ n ∈ e.nodes, n.IsProper)
    (h : ∀ e' ∈ es, (∀ n ∈ e'.nodes, n.IsProper) → FindsGlobals ctx owner e') :
    ∀ x ∈ globalsOfAll s.layers s.frames es,
      ∃ info, .name info x ∈ e.nodes ∧ (info.id, .global) ∈ bindingsOfAll ctx scope es := by
  subst hparts
  intro x hx
  obtain ⟨-, hproper⟩ := (forall_nodes_iff _).mp hproper
  obtain ⟨info, hnode, hbinding⟩ :=
    exists_binding_of_mem_globalsOfAll (fun e' he' => h e' he' (hproper e' he')) hes x hx
  rw [nodes_eq]
  exact ⟨info, List.mem_cons_of_mem _ hnode, hbinding⟩

/-- The table of scopes leaves a name to the running program if its surroundings do. -/
theorem exists_binding_of_mem_globals_name {scope : ScopeId} {s : Surroundings} {k : Nat} {es : List Expr}
    (h : ctx.Located owner scope s k es) {info : NodeInfo} {x y : String}
    (hy : y ∈ (name info x).globals s.layers s.frames) :
    y = x ∧ ctx.table.bindingOf scope x = .global := by
  obtain ⟨hglobal, rfl⟩ := mem_globals_name.mp hy
  exact ⟨rfl, (h.bindingOf_eq_global_iff y).mpr hglobal⟩

/-- Only a variable can be assigned to, and one that is left to the running program has been bound so. -/
theorem exists_targetBinding_of_mem_globals {target : Expr} (htarget : target.isName) {scope : ScopeId}
    {s : Surroundings} {k : Nat} {es : List Expr} (h : ctx.Located owner scope s k es) :
    ∀ x ∈ target.globals s.layers s.frames,
      ∃ info, .name info x ∈ target.nodes ∧ (info.id, .global) ∈ target.targetBindings ctx scope := by
  intro x hx
  cases target with
  | name info y =>
    obtain ⟨rfl, hglobal⟩ := exists_binding_of_mem_globals_name h hx
    refine ⟨info, ?_, ?_⟩
    · rw [nodes]
      exact List.mem_singleton_self _
    · rw [targetBindings, hglobal]
      exact List.mem_singleton_self _
  | atom | array | block | send | superSend | assign | ret => cases htarget

/-- A name that is left to the running program has been bound so. -/
theorem findsGlobals (e : Expr) (hproper : ∀ n ∈ e.nodes, n.IsProper) : FindsGlobals ctx owner e := by
  induction e using tree_induction with
  | atom info value =>
    intro scope s k _ x hx
    rw [globals] at hx
    cases hx
  | name info x =>
    intro scope s k h y hy
    obtain ⟨rfl, hglobal⟩ := exists_binding_of_mem_globals_name h hy
    refine ⟨info, ?_, ?_⟩
    · rw [nodes]
      exact List.mem_singleton_self _
    · rw [bindings, hglobal]
      exact List.mem_singleton_self _
  | array info items ih =>
    intro scope s k h
    rw [globals, bindings]
    exact exists_binding_of_parts (h.children rfl) rfl hproper ih
  | block info params locals statements close ih =>
    intro scope s k h
    obtain ⟨inner, hinner, hstatements⟩ := h.block
    rw [globals, bindings, hinner]
    exact exists_binding_of_parts hstatements rfl hproper ih
  | send info receiver selector arguments ihr iha =>
    intro scope s k h
    have hlocated : ctx.Located owner scope s k (receiver :: arguments) := h.children rfl
    have hparts := exists_binding_of_parts hlocated rfl hproper (List.forall_mem_cons.mpr ⟨ihr, iha⟩)
    rw [globalsOfAll, bindingsOfAll] at hparts
    rw [globals, bindings]
    exact hparts
  | superSend info selector arguments ih =>
    intro scope s k h
    rw [globals, bindings]
    exact exists_binding_of_parts (h.children rfl) rfl hproper ih
  | assign info target value iht ihv =>
    intro scope s k h x hx
    obtain ⟨htarget, hparts⟩ := (forall_nodes_iff _).mp hproper
    have hlocated : ctx.Located owner scope s k [target, value] := h.children rfl
    rw [globals, List.mem_append] at hx
    rw [nodes, bindings]
    rcases hx with hx | hx
    · obtain ⟨info', hnode, hbinding⟩ := exists_targetBinding_of_mem_globals htarget h x hx
      exact ⟨info', List.mem_cons_of_mem _ (List.mem_append_left _ hnode), List.mem_append_right _ hbinding⟩
    · obtain ⟨info', hnode, hbinding⟩ :=
        ihv (hparts value (List.mem_cons_of_mem _ List.mem_cons_self)) scope s _ hlocated.tail x hx
      exact ⟨info', List.mem_cons_of_mem _ (List.mem_append_right _ hnode), List.mem_append_left _ hbinding⟩
  | ret info value ih =>
    intro scope s k h
    have hlocated : ctx.Located owner scope s k [value] := h.children rfl
    have hparts := exists_binding_of_parts hlocated rfl hproper (List.forall_mem_singleton.mpr ih)
    rw [globalsOfAll, globalsOfAll, List.append_nil, bindingsOfAll, bindingsOfAll, List.append_nil] at hparts
    rw [globals, bindings]
    exact hparts

end Expr

namespace SourceUnit

variable {u : SourceUnit} {options : CompileOptions} {r : String → String}

/-- The names of a unit that are left to the running program, by what binding its names has found out
about each occurrence. -/
def globalNames (u : SourceUnit) (options : CompileOptions) : List String :=
  let bindings := (resolveUnit u (declareUnit u).table (declareUnit u).scopes options).bindings
  u.nodes.filterMap fun
    | .name info x => if bindings[info.id]? = some .global then some x else none
    | _ => none

theorem mem_globalNames {x : String} {info : NodeInfo} (hnode : .name info x ∈ Expr.nodesOfAll u.statements)
    (hbinding : (u.generateContext options).bindings[info.id]? = some .global) :
    x ∈ u.globalNames options := by
  refine List.mem_filterMap.mpr ⟨.name info x, ?_, if_pos hbinding⟩
  rw [nodes_eq_nodesOfAll]
  exact hnode

/-- What the source of a class leaves to the running program has been bound so. -/
theorem mem_globalNames_of_mem_globals (hu : u.IsUnshared) (hcomplaints : u.complaints options = [])
    {c : ClassDef} (hc : c ∈ u.allClasses) : ∀ x ∈ c.globals u.allClasses, x ∈ u.globalNames options := by
  intro x hx
  have hunit := holdsUnit_declareUnit hu.nodup_ids (List.append_eq_nil_iff.mp hcomplaints).1
  obtain ⟨entry, -, hchecked⟩ := exists_mem_of_forall₂ (forall₂_checkedClass hu hcomplaints).flip hc
  obtain ⟨rest, hchain, hlayers⟩ := hchecked.layers_eq
  obtain ⟨m, hm, hx⟩ := List.mem_flatMap.mp hx
  obtain ⟨scope, -, hmethod⟩ := exists_mem_of_forall₂ hchecked.methods.flip hm
  have hlocated : (u.generateContext options).resolveContext.Located entry.1 scope
      (m.surroundings none (c.layers u.allClasses) c.header.name m.body.locals) 0 m.body.statements :=
    hmethod.isScopeOf.located hunit.valid hchecked.isClassScope hchain hlayers
  obtain ⟨info, hnode, hbinding⟩ := Expr.exists_binding_of_mem_globalsOfAll
    (fun e he => e.findsGlobals fun n hn => hmethod.proper n (Expr.mem_nodesOfAll.mpr ⟨e, he, hn⟩)) hlocated x hx
  refine mem_globalNames ?_ (hmethod.bound _ hbinding)
  obtain ⟨e, he, hnode⟩ := Expr.mem_nodesOfAll.mp hnode
  refine Expr.mem_nodesOfAll.mpr ⟨e, ?_, hnode⟩
  rw [← statementsOfClasses_allClasses]
  exact List.mem_flatMap.mpr ⟨c, hc, List.mem_flatMap.mpr ⟨m, hm, he⟩⟩

/-! ## Units -/

/-- Compilation does not depend on the names of variables. If a unit without shared nodes is compiled, it
is still compiled after its fields, parameters and locals have been renamed, with all their occurrences,
as long as different names stay different and every name that some occurrence leaves to the running
program is kept. The classes that come out are the same, but for the names of their fields. -/
theorem compile_renamed (hu : u.IsUnshared) (hr : Function.Injective r)
    (hglobals : ∀ x ∈ u.globalNames options, r x = x) {classes : List CompiledClass}
    (h : (u.compile options).result = .ok classes) :
    ((u.renamed r).compile options).result = .ok (classes.map (CompiledClass.withFieldsRenamed r)) := by
  have hcomplaints := ((compile_eq_ok_iff hu).mp h).1
  have hkept : ∀ c ∈ u.allClasses, (Relabeling.ofInjective hr).Keeps (c.globals u.allClasses) :=
    fun c hc y hy => hglobals y (mem_globalNames_of_mem_globals hu hcomplaints hc y hy)
  rw [← Relabeling.unit_ofInjective hr]
  exact (Relabeling.compile_unit_eq_ok_iff hkept (fun _ => rfl) hu (.inr fun _ => rfl)).mpr ⟨classes, h, rfl⟩

/-- A field and the parameter of a block change names, where the parameter hides an inherited field; two
names are left to the running program. -/
theorem compile_renamed_shadowing : ∃ u classes,
    ofSource ("Object subclass: #A [ | x | x [ ^x ] ] A subclass: #B [ | y | at: z put: w [ | v | "
      ++ "v := [:x | y := x + z]. ^super at: Key put: (v value: w) ] ] | y | y := B new. y x") = .ok u ∧
    u.globalNames {} = ["Key", "B"] ∧ (u.compile {}).result = .ok classes ∧
    classes.map (·.fields) = [["x"], ["y"], []] ∧
    ((u.renamed (Equiv.swap "x" "y")).compile {}).result
      = .ok (classes.map (CompiledClass.withFieldsRenamed (Equiv.swap "x" "y"))) := by
  obtain ⟨u, hsource, hu, hunshared⟩ := exists_ok_of_map
    (r := ofSource ("Object subclass: #A [ | x | x [ ^x ] ] A subclass: #B [ | y | at: z put: w [ | v | "
      ++ "v := [:x | y := x + z]. ^super at: Key put: (v value: w) ] ] | y | y := B new. y x"))
    (f := fun u => (u.globalNames {}, (u.compile {}).result.toOption.map (List.map (·.fields))))
    (b := (["Key", "B"], some [["x"], ["y"], []])) (by decide +kernel)
    fun _ hsource => isUnshared_of_built (built_of_ofSource hsource)
  obtain ⟨hglobals, hfields⟩ := Prod.mk.inj hu
  have hkept : ∀ x ∈ u.globalNames {}, Equiv.swap "x" "y" x = x := by
    rw [hglobals]
    decide
  obtain ⟨classes, hclasses⟩ := exists_ok_of_map hfields fun _ =>
    compile_renamed hunshared (Equiv.swap "x" "y").injective hkept
  exact ⟨u, classes, hsource, hglobals, hclasses⟩

end SourceUnit

end Smalltalk
