import Mathlib
import Smalltalk.Compiler.Resolution
import Smalltalk.Proofs.Trees

/-!
# What binding names finds

Going through a tree to bind its names has two effects, and both can be read off the tree: a list of
bindings that are entered, and a list of complaints. Nothing that is entered or reported depends on
what was found before.
-/

namespace Smalltalk

open ScopeTable

/-! ## Findings -/

/-- Bindings after more of them have been entered. -/
def Bindings.insertAll (bindings : Bindings) (entries : List (Nat × Binding)) : Bindings :=
  entries.foldl (fun bindings entry => bindings.insert entry.1 entry.2) bindings

theorem Bindings.insertAll_append (bindings : Bindings) (l l' : List (Nat × Binding)) :
    bindings.insertAll (l ++ l') = (bindings.insertAll l).insertAll l' :=
  List.foldl_append

theorem Bindings.getElem?_insertAll_of_not_mem (bindings : Bindings) {l : List (Nat × Binding)} {i : Nat}
    (h : i ∉ l.map (·.1)) : (bindings.insertAll l)[i]? = bindings[i]? := by
  induction l generalizing bindings with
  | nil => rfl
  | cons entry l ih =>
    rw [List.map_cons, List.mem_cons, not_or] at h
    rw [insertAll, List.foldl_cons, ← insertAll, ih _ h.2, Std.TreeMap.getElem?_insert, if_neg]
    exact fun heq => h.1 (Std.LawfulEqCmp.eq_of_compare heq).symm

/-- What has been entered under a number that is used once stays there. -/
theorem Bindings.getElem?_insertAll_of_mem (bindings : Bindings) {l : List (Nat × Binding)}
    (hnodup : (l.map (·.1)).Nodup) {entry : Nat × Binding} (h : entry ∈ l) :
    (bindings.insertAll l)[entry.1]? = some entry.2 := by
  induction l generalizing bindings with
  | nil => cases h
  | cons first l ih =>
    rw [List.map_cons, List.nodup_cons] at hnodup
    rw [insertAll, List.foldl_cons, ← insertAll]
    rcases List.mem_cons.mp h with rfl | h
    · rw [getElem?_insertAll_of_not_mem _ hnodup.1, Std.TreeMap.getElem?_insert_self]
    · exact ih _ hnodup.2 h

namespace Expr

section Findings

variable (ctx : ResolveContext) (scope : ScopeId)

/-- The complaint about a name that is declared nowhere, if that is an error. -/
def complaintAboutName (info : NodeInfo) (x : String) : List Diagnostic :=
  if ctx.table.bindingOf scope x = .global ∧ ctx.strict ∧ (ctx.table.lookupClass x).isNone then
    [.unresolved x info.span]
  else []

/-- The bindings of the target of an assignment. -/
def targetBindings : Expr → List (Nat × Binding)
  | name info x => [(info.id, ctx.table.bindingOf scope x)]
  | _ => []

/-- The complaints about the target of an assignment. -/
def targetComplaints : Expr → List Diagnostic
  | name info x => complaintAboutName ctx scope info x
    ++ if ctx.table.bindingOf scope x = .global then [.notAssignable x info.span] else []
  | e => [.internal (.targetIsNoName e.span)]

end Findings

mutual

/-- The bindings of the names in an expression. -/
def bindings (ctx : ResolveContext) (scope : ScopeId) : Expr → List (Nat × Binding)
  | atom _ _ => []
  | name info x => [(info.id, ctx.table.bindingOf scope x)]
  | array _ items => bindingsOfAll ctx scope items
  | block info _ _ statements _ =>
    match ctx.blocks[info.id]? with
    | some inner => bindingsOfAll ctx inner statements
    | none => []
  | send _ receiver _ arguments => receiver.bindings ctx scope ++ bindingsOfAll ctx scope arguments
  | superSend _ _ arguments => bindingsOfAll ctx scope arguments
  | assign _ target value => value.bindings ctx scope ++ target.targetBindings ctx scope
  | ret _ value => value.bindings ctx scope

/-- The bindings of the names in several expressions. -/
def bindingsOfAll (ctx : ResolveContext) (scope : ScopeId) : List Expr → List (Nat × Binding)
  | [] => []
  | e :: es => e.bindings ctx scope ++ bindingsOfAll ctx scope es

end

mutual

/-- The complaints about an expression. -/
def complaints (ctx : ResolveContext) (scope : ScopeId) : Expr → List Diagnostic
  | atom _ _ => []
  | name info x => complaintAboutName ctx scope info x
  | array _ items => complaintsAboutAll ctx scope items
  | block info _ _ statements _ =>
    match ctx.blocks[info.id]? with
    | some inner => complaintsAboutAll ctx inner statements
    | none => []
  | send _ receiver _ arguments => receiver.complaints ctx scope ++ complaintsAboutAll ctx scope arguments
  | superSend _ _ arguments => complaintsAboutAll ctx scope arguments
  | assign _ target value => value.complaints ctx scope ++ target.targetComplaints ctx scope
  | ret _ value => value.complaints ctx scope

/-- The complaints about several expressions. -/
def complaintsAboutAll (ctx : ResolveContext) (scope : ScopeId) : List Expr → List Diagnostic
  | [] => []
  | e :: es => e.complaints ctx scope ++ complaintsAboutAll ctx scope es

end

end Expr

/-! ## The walk -/

namespace ResolveM

variable {α β : Type}

theorem bind_apply (m : ResolveM α) (f : α → ResolveM β) (r : Resolution) :
    (m >>= f) r = f (m r).1 (m r).2 := rfl

/-- What a step enters and reports. -/
structure Records (entries : List (Nat × Binding)) (errors : List Diagnostic) (r r' : Resolution) :
    Prop where
  bindings_eq : r'.bindings = r.bindings.insertAll entries
  errors_eq : r'.errors.toList = r.errors.toList ++ errors

theorem Records.refl (r : Resolution) : Records [] [] r r :=
  ⟨rfl, (List.append_nil _).symm⟩

theorem Records.append {l l' : List (Nat × Binding)} {es es' : List Diagnostic} {r r' r'' : Resolution}
    (h : Records l es r r') (h' : Records l' es' r' r'') : Records (l ++ l') (es ++ es') r r'' :=
  ⟨by rw [h'.bindings_eq, h.bindings_eq, Bindings.insertAll_append],
    by rw [h'.errors_eq, h.errors_eq, List.append_assoc]⟩

/-- Binding a name enters what the name refers to. -/
theorem records_bind (ctx : ResolveContext) (scope : ScopeId) (info : NodeInfo) (x : String)
    (r : Resolution) :
    (ResolveM.bind ctx scope info x r).1 = ctx.table.bindingOf scope x ∧
      Records [(info.id, ctx.table.bindingOf scope x)] (Expr.complaintAboutName ctx scope info x) r
        (ResolveM.bind ctx scope info x r).2 := by
  unfold ResolveM.bind Expr.complaintAboutName
  by_cases hglobal : ctx.table.bindingOf scope x = .global
  · by_cases hstrict : (ctx.strict && (ctx.table.lookupClass x).isNone) = true
    · have hboth : ctx.table.bindingOf scope x = .global ∧ ctx.strict = true ∧
          (ctx.table.lookupClass x).isNone = true := ⟨hglobal, by simpa using hstrict⟩
      simp only [if_pos hglobal, if_pos hstrict, if_pos hboth]
      exact ⟨rfl, rfl, Array.toList_push⟩
    · have hnot : ¬ (ctx.table.bindingOf scope x = .global ∧ ctx.strict = true ∧
          (ctx.table.lookupClass x).isNone = true) := fun h => hstrict (by simpa using h.2)
      simp only [if_pos hglobal, if_neg hstrict, if_neg hnot]
      exact ⟨rfl, rfl, (List.append_nil _).symm⟩
  · have hnot : ¬ (ctx.table.bindingOf scope x = .global ∧ ctx.strict = true ∧
        (ctx.table.lookupClass x).isNone = true) := fun h => hglobal h.1
    simp only [if_neg hglobal, if_neg hnot]
    exact ⟨rfl, rfl, (List.append_nil _).symm⟩

theorem records_report (e : Diagnostic) (r : Resolution) : Records [] [e] r (report e r).2 :=
  ⟨rfl, Array.toList_push⟩

theorem records_target (ctx : ResolveContext) (scope : ScopeId) (e : Expr) (r : Resolution) :
    Records (e.targetBindings ctx scope) (e.targetComplaints ctx scope) r (target ctx scope e r).2 := by
  cases e with
  | name info x =>
    obtain ⟨hvalue, hbind⟩ := records_bind ctx scope info x r
    rw [target, bind_apply, hvalue, Expr.targetBindings, Expr.targetComplaints]
    rw [← List.append_nil [(info.id, ctx.table.bindingOf scope x)]]
    refine hbind.append ?_
    split
    · exact records_report _ _
    · exact .refl _
  | atom | array | block | send | superSend | assign | ret => exact records_report _ _

theorem records_exprs {ctx : ResolveContext} {es : List Expr}
    (h : ∀ e ∈ es, ∀ scope r, Records (e.bindings ctx scope) (e.complaints ctx scope) r
      (expr ctx scope e r).2) (scope : ScopeId) (r : Resolution) :
    Records (Expr.bindingsOfAll ctx scope es) (Expr.complaintsAboutAll ctx scope es) r
      (exprs ctx scope es r).2 := by
  induction es generalizing r with
  | nil =>
    rw [exprs, Expr.bindingsOfAll, Expr.complaintsAboutAll]
    exact .refl r
  | cons e es ih =>
    rw [exprs, bind_apply, Expr.bindingsOfAll, Expr.complaintsAboutAll]
    exact (h e List.mem_cons_self scope r).append
      (ih (fun e' he' => h e' (List.mem_cons_of_mem e he')) _)

/-- Going through an expression enters its bindings and reports the complaints about it. -/
theorem records_expr (ctx : ResolveContext) (e : Expr) : ∀ scope r,
    Records (e.bindings ctx scope) (e.complaints ctx scope) r (expr ctx scope e r).2 := by
  induction e using Expr.tree_induction with
  | atom info value =>
    intro scope r
    rw [expr, Expr.bindings, Expr.complaints]
    exact .refl r
  | name info x =>
    intro scope r
    rw [expr, Expr.bindings, Expr.complaints]
    exact (records_bind ctx scope info x r).2
  | array info items ih =>
    intro scope r
    rw [expr, Expr.bindings, Expr.complaints]
    exact records_exprs ih scope r
  | block info params locals statements close ih =>
    intro scope r
    rw [expr, Expr.bindings, Expr.complaints]
    cases ctx.blocks[info.id]? with
    | some inner => exact records_exprs ih inner r
    | none => exact .refl r
  | send info receiver selector arguments ihr iha =>
    intro scope r
    rw [expr, Expr.bindings, Expr.complaints, bind_apply]
    exact (ihr scope r).append (records_exprs iha scope _)
  | superSend info selector arguments ih =>
    intro scope r
    rw [expr, Expr.bindings, Expr.complaints]
    exact records_exprs ih scope r
  | assign info left value ihl ihv =>
    intro scope r
    rw [expr, Expr.bindings, Expr.complaints, bind_apply]
    exact (ihv scope r).append (records_target ctx scope left _)
  | ret info value ih =>
    intro scope r
    rw [expr, Expr.bindings, Expr.complaints]
    exact ih scope r

end ResolveM

/-! ## Units -/

section Units

variable (ctx : ResolveContext)

/-- The bindings of the names in methods with given scopes. -/
def bindingsOfMethods (entries : List (MethodDef × ScopeId)) : List (Nat × Binding) :=
  entries.flatMap fun entry => Expr.bindingsOfAll ctx entry.2 entry.1.body.statements

/-- The complaints about methods with given scopes. -/
def complaintsAboutMethods (entries : List (MethodDef × ScopeId)) : List Diagnostic :=
  entries.flatMap fun entry => Expr.complaintsAboutAll ctx entry.2 entry.1.body.statements

/-- The bindings of the names in classes, given the scopes of their methods. -/
def bindingsOfClasses (entries : List (ClassDef × List ScopeId)) : List (Nat × Binding) :=
  entries.flatMap fun entry => bindingsOfMethods ctx (entry.1.methods.zip entry.2)

/-- The complaints about classes, given the scopes of their methods. -/
def complaintsAboutClasses (entries : List (ClassDef × List ScopeId)) : List Diagnostic :=
  entries.flatMap fun entry => complaintsAboutMethods ctx (entry.1.methods.zip entry.2)

/-- The complaints about classes that extend themselves. -/
def complaintsAboutCycles (entries : List (ClassDef × ScopeId)) : List Diagnostic :=
  entries.flatMap fun entry =>
    if ctx.table.inheritsFromItself entry.2 then
      [.cyclicInheritance entry.1.name.name entry.1.name.span]
    else []

/-- The bindings of the names in the main program, given its scopes. -/
def SourceUnit.mainBindings (u : SourceUnit) (main : Option (ScopeId × ScopeId)) : List (Nat × Binding) :=
  main.toList.flatMap fun entry => Expr.bindingsOfAll ctx entry.2 u.main.statements

/-- The complaints about the main program, given its scopes. -/
def SourceUnit.mainComplaints (u : SourceUnit) (main : Option (ScopeId × ScopeId)) : List Diagnostic :=
  main.toList.flatMap fun entry => Expr.complaintsAboutAll ctx entry.2 u.main.statements

variable {ctx}

theorem inheritsFromItself_of_complaintsAboutCycles {entries : List (ClassDef × ScopeId)}
    (h : complaintsAboutCycles ctx entries = []) :
    ∀ entry ∈ entries, ctx.table.inheritsFromItself entry.2 = false := by
  intro entry hentry
  have hnone := List.flatMap_eq_nil_iff.mp h entry hentry
  split at hnone
  · cases hnone
  · next hself => exact Bool.eq_false_iff.mpr hself

end Units

namespace ResolveM

theorem records_cycles (ctx : ResolveContext) (entries : List (ClassDef × ScopeId)) (r : Resolution) :
    Records [] (complaintsAboutCycles ctx entries) r (cycles ctx entries r).2 := by
  induction entries generalizing r with
  | nil => exact .refl r
  | cons entry entries ih =>
    rw [cycles, complaintsAboutCycles, List.flatMap_cons]
    split
    · exact (records_report _ r).append (ih _)
    · exact ih r

theorem records_methods (ctx : ResolveContext) (entries : List (MethodDef × ScopeId)) (r : Resolution) :
    Records (bindingsOfMethods ctx entries) (complaintsAboutMethods ctx entries) r
      (methods ctx entries r).2 := by
  induction entries generalizing r with
  | nil => exact .refl r
  | cons entry entries ih =>
    obtain ⟨m, scope⟩ := entry
    rw [bindingsOfMethods, complaintsAboutMethods, List.flatMap_cons, List.flatMap_cons, methods]
    cases m.body with
    | code body =>
      exact (records_exprs (fun e _ => records_expr ctx e) scope r).append (ih _)
    | primitive name =>
      rw [MethodBody.statements, Expr.bindingsOfAll, Expr.complaintsAboutAll]
      exact ih r

theorem records_classes (ctx : ResolveContext) (entries : List (ClassDef × List ScopeId))
    (r : Resolution) :
    Records (bindingsOfClasses ctx entries) (complaintsAboutClasses ctx entries) r
      (classes ctx entries r).2 := by
  induction entries generalizing r with
  | nil => exact .refl r
  | cons entry entries ih =>
    obtain ⟨c, scopes⟩ := entry
    rw [bindingsOfClasses, complaintsAboutClasses, List.flatMap_cons, List.flatMap_cons, classes]
    exact (records_methods ctx (c.methods.zip scopes) r).append (ih _)

end ResolveM

section Unit

open ResolveM

/-- Binding the names of a unit enters its bindings and reports the complaints about it. -/
theorem records_resolveUnit (u : SourceUnit) (table : ScopeTable) (scopes : ScopeMap)
    (options : CompileOptions) {ctx : ResolveContext}
    (hctx : ctx = ⟨table, scopes.blocks, options.strictGlobals⟩) :
    Records (bindingsOfClasses ctx (u.classes.zip scopes.methods) ++ u.mainBindings ctx scopes.main)
      (complaintsAboutCycles ctx (u.classes.zip scopes.classes)
        ++ (complaintsAboutClasses ctx (u.classes.zip scopes.methods)
          ++ u.mainComplaints ctx scopes.main))
      {} (resolveUnit u table scopes options) := by
  unfold resolveUnit
  rw [← hctx]
  have hcycles := records_cycles ctx (u.classes.zip scopes.classes) {}
  have hclasses := records_classes ctx (u.classes.zip scopes.methods)
    (ResolveM.cycles ctx (u.classes.zip scopes.classes) {}).2
  refine hcycles.append (hclasses.append ?_)
  cases scopes.main with
  | none => exact ⟨rfl, (List.append_nil _).symm⟩
  | some main =>
    obtain ⟨owner, method⟩ := main
    have hmain := @records_exprs ctx u.main.statements (fun e _ => records_expr ctx e) method
      (ResolveM.classes ctx (u.classes.zip scopes.methods)
        (ResolveM.cycles ctx (u.classes.zip scopes.classes) {}).2).2
    rw [SourceUnit.mainBindings, SourceUnit.mainComplaints, Option.toList_some, List.flatMap_singleton,
      List.flatMap_singleton]
    exact ⟨hmain.bindings_eq, hmain.errors_eq⟩

end Unit

/-! ## Every node is bound at most once -/

namespace Expr

theorem ids_cons (e : Expr) (es : List Expr) : ids (e :: es) = ids [e] ++ ids es := ids_append [e] es

theorem count_targetBindings_le (ctx : ResolveContext) (scope : ScopeId) (e : Expr) (i : Nat) :
    ((e.targetBindings ctx scope).map (·.1)).count i ≤ (ids [e]).count i := by
  cases e with
  | name info x => rfl
  | atom | array | block | send | superSend | assign | ret => exact Nat.zero_le _

theorem count_bindingsOfAll_le {ctx : ResolveContext} {es : List Expr} {i : Nat}
    (h : ∀ e ∈ es, ∀ scope, ((e.bindings ctx scope).map (·.1)).count i ≤ (ids [e]).count i)
    (scope : ScopeId) : ((bindingsOfAll ctx scope es).map (·.1)).count i ≤ (ids es).count i := by
  induction es with
  | nil =>
    rw [bindingsOfAll]
    exact Nat.zero_le _
  | cons e es ih =>
    rw [bindingsOfAll, List.map_append, List.count_append, ids_cons, List.count_append]
    exact Nat.add_le_add (h e List.mem_cons_self scope)
      (ih fun e' he' => h e' (List.mem_cons_of_mem e he'))

/-- No number is bound more often than there are nodes with that number. -/
theorem count_bindings_le (ctx : ResolveContext) (i : Nat) (e : Expr) :
    ∀ scope, ((e.bindings ctx scope).map (·.1)).count i ≤ (ids [e]).count i := by
  have hparts : ∀ e : Expr, (ids e.children).count i ≤ (ids [e]).count i := fun e => by
    rw [ids_singleton]
    exact List.count_le_count_cons
  induction e using tree_induction with
  | atom info value =>
    intro scope
    rw [bindings]
    exact Nat.zero_le _
  | name info x =>
    intro scope
    rw [bindings]
    rfl
  | array info items ih =>
    intro scope
    rw [bindings]
    exact (count_bindingsOfAll_le ih scope).trans (hparts (.array info items))
  | block info params locals statements close ih =>
    intro scope
    rw [bindings]
    split
    · exact (count_bindingsOfAll_le ih _).trans (hparts (.block info params locals statements close))
    · exact Nat.zero_le _
  | send info receiver selector arguments ihr iha =>
    intro scope
    refine le_trans ?_ (hparts (.send info receiver selector arguments))
    rw [bindings, List.map_append, List.count_append, children, ids_cons, List.count_append]
    exact Nat.add_le_add (ihr scope) (count_bindingsOfAll_le iha scope)
  | superSend info selector arguments ih =>
    intro scope
    rw [bindings]
    exact (count_bindingsOfAll_le ih scope).trans (hparts (.superSend info selector arguments))
  | assign info target value iht ihv =>
    intro scope
    refine le_trans ?_ (hparts (.assign info target value))
    rw [bindings, List.map_append, List.count_append, children, ids_cons, List.count_append, Nat.add_comm]
    exact Nat.add_le_add (count_targetBindings_le ctx scope target i) (ihv scope)
  | ret info value ih =>
    intro scope
    rw [bindings]
    exact (ih scope).trans (hparts (.ret info value))

end Expr

section Counting

open Smalltalk.Expr

variable (ctx : ResolveContext) (i : Nat)

theorem count_bindingsOfMethods_le (methods : List MethodDef) (scopes : List ScopeId) :
    ((bindingsOfMethods ctx (methods.zip scopes)).map (·.1)).count i
      ≤ (ids (statementsOfMethods methods)).count i := by
  induction methods generalizing scopes with
  | nil => exact Nat.zero_le _
  | cons m methods ih =>
    cases scopes with
    | nil => exact Nat.zero_le _
    | cons scope scopes =>
      rw [List.zip_cons_cons, bindingsOfMethods, List.flatMap_cons, List.map_append, List.count_append,
        statementsOfMethods, List.flatMap_cons, ids_append, List.count_append]
      exact Nat.add_le_add (count_bindingsOfAll_le (fun e _ => count_bindings_le ctx i e) scope) (ih scopes)

theorem count_bindingsOfClasses_le (classes : List ClassDef) (scopes : List (List ScopeId)) :
    ((bindingsOfClasses ctx (classes.zip scopes)).map (·.1)).count i
      ≤ (ids (statementsOfClasses classes)).count i := by
  induction classes generalizing scopes with
  | nil => exact Nat.zero_le _
  | cons c classes ih =>
    cases scopes with
    | nil => exact Nat.zero_le _
    | cons scope scopes =>
      rw [List.zip_cons_cons, bindingsOfClasses, List.flatMap_cons, List.map_append, List.count_append,
        statementsOfClasses, List.flatMap_cons, ids_append, List.count_append]
      exact Nat.add_le_add (count_bindingsOfMethods_le ctx i c.methods scope) (ih scopes)

theorem count_mainBindings_le (u : SourceUnit) (main : Option (ScopeId × ScopeId)) :
    ((u.mainBindings ctx main).map (·.1)).count i ≤ (ids u.main.statements).count i := by
  cases main with
  | none => exact Nat.zero_le _
  | some entry =>
    rw [SourceUnit.mainBindings, Option.toList_some, List.flatMap_singleton]
    exact count_bindingsOfAll_le (fun e _ => count_bindings_le ctx i e) entry.2

/-- If all nodes of a unit have their own numbers, a name is bound to what was entered for it. -/
theorem getElem?_resolveUnit {u : SourceUnit} {table : ScopeTable} {scopes : ScopeMap}
    {options : CompileOptions} (hnodup : (ids u.statements).Nodup)
    (hctx : ctx = ⟨table, scopes.blocks, options.strictGlobals⟩) {entry : Nat × Binding}
    (h : entry ∈ bindingsOfClasses ctx (u.classes.zip scopes.methods) ++ u.mainBindings ctx scopes.main) :
    (resolveUnit u table scopes options).bindings[entry.1]? = some entry.2 := by
  rw [(records_resolveUnit u table scopes options hctx).bindings_eq]
  refine Bindings.getElem?_insertAll_of_mem _ ?_ h
  rw [List.nodup_iff_count_le_one] at hnodup ⊢
  intro i
  refine le_trans ?_ (hnodup i)
  rw [List.map_append, List.count_append, SourceUnit.statements, ids_append, List.count_append]
  exact Nat.add_le_add (count_bindingsOfClasses_le ctx i _ _) (count_mainBindings_le ctx i u _)

end Counting

/-! ## Complaints are about the source text -/

namespace Expr

variable {ctx : ResolveContext} {scope : ScopeId}

theorem not_isInternal_of_mem_complaintAboutName {info : NodeInfo} {x : String} {c : Diagnostic}
    (h : c ∈ complaintAboutName ctx scope info x) : c.isInternal = false := by
  unfold complaintAboutName at h
  split at h
  · rw [List.mem_singleton.mp h]
    rfl
  · cases h

theorem not_isInternal_of_mem_targetComplaints {e : Expr} (he : e.isName) {c : Diagnostic}
    (h : c ∈ e.targetComplaints ctx scope) : c.isInternal = false := by
  cases e with
  | name info x =>
    rw [targetComplaints, List.mem_append] at h
    rcases h with h | h
    · exact not_isInternal_of_mem_complaintAboutName h
    · split at h
      · rw [List.mem_singleton.mp h]
        rfl
      · cases h
  | atom | array | block | send | superSend | assign | ret => cases he

theorem not_isInternal_of_mem_complaintsAboutAll {es : List Expr}
    (h : ∀ e ∈ es, (∀ n ∈ e.nodes, n.IsProper) → ∀ scope, ∀ c ∈ e.complaints ctx scope,
      c.isInternal = false)
    (hproper : ∀ n ∈ nodesOfAll es, n.IsProper) (scope : ScopeId) :
    ∀ c ∈ complaintsAboutAll ctx scope es, c.isInternal = false := by
  induction es with
  | nil =>
    rw [complaintsAboutAll]
    exact fun _ hc => absurd hc List.not_mem_nil
  | cons e es ih =>
    rw [nodesOfAll_cons, List.forall_mem_append] at hproper
    rw [complaintsAboutAll, List.forall_mem_append]
    exact ⟨h e List.mem_cons_self hproper.1 scope,
      ih (fun e' he' => h e' (List.mem_cons_of_mem e he')) hproper.2⟩

/-- If only variables are assigned to, all complaints are about the source text. -/
theorem not_isInternal_of_mem_complaints (e : Expr) (hproper : ∀ n ∈ e.nodes, n.IsProper) :
    ∀ scope, ∀ c ∈ e.complaints ctx scope, c.isInternal = false := by
  induction e using tree_induction with
  | atom info value =>
    intro scope
    rw [complaints]
    exact fun _ hc => absurd hc List.not_mem_nil
  | name info x =>
    intro scope c hc
    rw [complaints] at hc
    exact not_isInternal_of_mem_complaintAboutName hc
  | array info items ih =>
    intro scope
    rw [nodes_eq, List.forall_mem_cons] at hproper
    rw [complaints]
    exact not_isInternal_of_mem_complaintsAboutAll ih hproper.2 scope
  | block info params locals statements close ih =>
    intro scope
    rw [nodes_eq, List.forall_mem_cons] at hproper
    rw [complaints]
    split
    · exact not_isInternal_of_mem_complaintsAboutAll ih hproper.2 _
    · exact fun _ hc => absurd hc List.not_mem_nil
  | send info receiver selector arguments ihr iha =>
    intro scope
    rw [nodes_eq, List.forall_mem_cons, children, nodesOfAll_cons, List.forall_mem_append] at hproper
    rw [complaints, List.forall_mem_append]
    exact ⟨ihr hproper.2.1 scope, not_isInternal_of_mem_complaintsAboutAll iha hproper.2.2 scope⟩
  | superSend info selector arguments ih =>
    intro scope
    rw [nodes_eq, List.forall_mem_cons] at hproper
    rw [complaints]
    exact not_isInternal_of_mem_complaintsAboutAll ih hproper.2 scope
  | assign info target value iht ihv =>
    intro scope
    rw [nodes_eq, List.forall_mem_cons, children, nodesOfAll_cons, nodesOfAll_cons, nodesOfAll_nil,
      List.append_nil, List.forall_mem_append] at hproper
    rw [complaints, List.forall_mem_append]
    exact ⟨ihv hproper.2.2 scope, fun c hc => not_isInternal_of_mem_targetComplaints hproper.1 hc⟩
  | ret info value ih =>
    intro scope
    rw [nodes_eq, List.forall_mem_cons, children, nodesOfAll_cons, nodesOfAll_nil,
      List.append_nil] at hproper
    rw [complaints]
    exact ih hproper.2 scope

end Expr

section Source

variable {u : SourceUnit} {table : ScopeTable} {scopes : ScopeMap} {options : CompileOptions}

/-- What binding the names of a unit reports is about the source text. -/
theorem not_isInternal_of_mem_resolveUnit (hproper : ∀ n ∈ Expr.nodesOfAll u.statements, n.IsProper) :
    ∀ e ∈ (resolveUnit u table scopes options).errors, e.isInternal = false := by
  have hstatements : ∀ ctx scope, ∀ es ⊆ u.statements, ∀ e ∈ Expr.complaintsAboutAll ctx scope es,
      e.isInternal = false := fun ctx scope es hes => by
    refine Expr.not_isInternal_of_mem_complaintsAboutAll
      (fun e _ => e.not_isInternal_of_mem_complaints) (fun n hn => ?_) scope
    obtain ⟨e, he, hn⟩ := Expr.mem_nodesOfAll.mp hn
    exact hproper n (Expr.mem_nodesOfAll.mpr ⟨e, hes he, hn⟩)
  intro e he
  rw [← Array.mem_toList_iff, (records_resolveUnit u table scopes options rfl).errors_eq,
    List.nil_append, List.mem_append, List.mem_append] at he
  rcases he with he | he | he
  · obtain ⟨entry, -, he⟩ := List.mem_flatMap.mp he
    split at he
    · rw [List.mem_singleton.mp he]
      rfl
    · cases he
  · obtain ⟨entry, hentry, he⟩ := List.mem_flatMap.mp he
    obtain ⟨entry', hentry', he⟩ := List.mem_flatMap.mp he
    refine hstatements _ _ _ (fun e he => List.mem_append_left _ ?_) e he
    exact List.mem_flatMap.mpr ⟨_, (List.of_mem_zip hentry).1,
      List.mem_flatMap.mpr ⟨_, (List.of_mem_zip hentry').1, he⟩⟩
  · obtain ⟨entry, -, he⟩ := List.mem_flatMap.mp he
    exact hstatements _ _ _ (fun e he => List.mem_append_right _ he) e he

end Source

end Smalltalk
