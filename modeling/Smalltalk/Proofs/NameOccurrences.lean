import Mathlib
import Smalltalk.Proofs.BindingReports
import Smalltalk.Proofs.Forest

/-!
# Every occurrence of a name is bound once

The names of a unit are bound in the order in which they occur, where the value of an assignment comes
before its target. The main statement says what is bound, and that the errors are those of classes that
inherit from themselves, followed by those of occurrences that refer to nothing declared.
-/

namespace Smalltalk

open ScopeTable

/-! ## Occurrences -/

/-- An occurrence of a name in a method. -/
structure NameOccurrence where
  /-- The number of the block whose body it stands in, unless it stands in the body of the method. -/
  block : Option Nat
  info : NodeInfo
  name : String
  /-- Whether it is assigned to. -/
  isTarget : Bool

/-- The node that an occurrence is. -/
def NameOccurrence.node (o : NameOccurrence) : Expr := .name o.info o.name

namespace Expr

/-- The occurrence of a name that is assigned to. -/
def targetOccurrences (block : Option Nat) : Expr → List NameOccurrence
  | name info x => [⟨block, info, x, true⟩]
  | _ => []

mutual

/-- The names that occur in an expression, in the order in which they are bound. -/
def nameOccurrences (block : Option Nat) : Expr → List NameOccurrence
  | atom _ _ => []
  | name info x => [⟨block, info, x, false⟩]
  | array _ items => nameOccurrencesInAll block items
  | .block info _ _ statements _ => nameOccurrencesInAll (some info.id) statements
  | send _ receiver _ arguments => receiver.nameOccurrences block ++ nameOccurrencesInAll block arguments
  | superSend _ _ arguments => nameOccurrencesInAll block arguments
  | assign _ target value => value.nameOccurrences block ++ target.targetOccurrences block
  | ret _ value => value.nameOccurrences block

/-- The names that occur in several expressions. -/
def nameOccurrencesInAll (block : Option Nat) : List Expr → List NameOccurrence
  | [] => []
  | e :: es => e.nameOccurrences block ++ nameOccurrencesInAll block es

end

theorem nameOccurrencesInAll_eq_flatMap (block : Option Nat) (es : List Expr) :
    nameOccurrencesInAll block es = es.flatMap (nameOccurrences block) := by
  induction es with
  | nil =>
    rw [nameOccurrencesInAll]
    rfl
  | cons e es ih => rw [nameOccurrencesInAll, ih, List.flatMap_cons]

theorem perm_nameOccurrencesInAll {es : List Expr}
    (h : ∀ e ∈ es, ∀ block, ((e.nameOccurrences block).map NameOccurrence.node).Perm (e.nodes.filter isName))
    (block : Option Nat) :
    ((nameOccurrencesInAll block es).map NameOccurrence.node).Perm ((nodesOfAll es).filter isName) := by
  induction es with
  | nil =>
    rw [nameOccurrencesInAll, nodesOfAll_nil]
    rfl
  | cons e es ih =>
    obtain ⟨he, hes⟩ := List.forall_mem_cons.mp h
    rw [nameOccurrencesInAll, nodesOfAll_cons, List.map_append, List.filter_append]
    exact (he block).append (ih hes)

/-- If only names are assigned to, the occurrences in an expression are its nodes that are names. -/
theorem perm_nameOccurrences (e : Expr) (hproper : ∀ n ∈ e.nodes, n.IsProper) :
    ∀ block, ((e.nameOccurrences block).map NameOccurrence.node).Perm (e.nodes.filter isName) := by
  induction e using tree_induction with
  | atom info value =>
    intro block
    rw [nameOccurrences, nodes]
    rfl
  | name info x =>
    intro block
    rw [nameOccurrences, nodes]
    rfl
  | array info items ih =>
    intro block
    obtain ⟨-, hitems⟩ := (forall_nodes_iff _).mp hproper
    rw [nameOccurrences, nodes]
    exact perm_nameOccurrencesInAll (fun e he => ih e he (hitems e he)) block
  | block info params locals statements close ih =>
    intro block
    obtain ⟨-, hstatements⟩ := (forall_nodes_iff _).mp hproper
    rw [nameOccurrences, nodes]
    exact perm_nameOccurrencesInAll (fun e he => ih e he (hstatements e he)) (some info.id)
  | send info receiver selector arguments ihr iha =>
    intro block
    obtain ⟨-, hparts⟩ := (forall_nodes_iff _).mp hproper
    have hreceiver := ihr (hparts receiver List.mem_cons_self) block
    have harguments := perm_nameOccurrencesInAll
      (fun e he => iha e he (hparts e (List.mem_cons_of_mem _ he))) block
    rw [nameOccurrences, nodes, List.map_append, List.filter_cons_of_neg (by simp [isName]),
      List.filter_append]
    exact hreceiver.append harguments
  | superSend info selector arguments ih =>
    intro block
    obtain ⟨-, harguments⟩ := (forall_nodes_iff _).mp hproper
    rw [nameOccurrences, nodes]
    exact perm_nameOccurrencesInAll (fun e he => ih e he (harguments e he)) block
  | assign info target value iht ihv =>
    intro block
    obtain ⟨htarget, hparts⟩ := (forall_nodes_iff _).mp hproper
    have hname : target.isName := htarget
    cases target with
    | name info' x =>
      have hvalue := ihv (hparts value (List.mem_cons_of_mem _ List.mem_cons_self)) block
      rw [nameOccurrences, nodes, nodes, List.map_append]
      exact List.perm_append_comm.trans (hvalue.cons (Expr.name info' x))
    | atom | array | block | send | superSend | assign | ret => cases hname
  | ret info value ih =>
    intro block
    obtain ⟨-, hvalue⟩ := (forall_nodes_iff _).mp hproper
    rw [nameOccurrences, nodes]
    exact ih (hvalue value List.mem_cons_self) block

end Expr

/-- The names that occur in a method. -/
def MethodDef.nameOccurrences (m : MethodDef) : List NameOccurrence :=
  Expr.nameOccurrencesInAll none m.body.statements

/-- The names that occur in a unit, in the order in which they are bound. -/
def SourceUnit.nameOccurrences (u : SourceUnit) : List NameOccurrence :=
  u.allClasses.flatMap fun c => c.methods.flatMap MethodDef.nameOccurrences

/-! ## Binding occurrences -/

/-- The scope of a body of a method: of a block with a given number, or of the method itself. -/
def bodyScope (blocks : Std.TreeMap Nat ScopeId) (method : ScopeId) (block : Option Nat) : ScopeId :=
  (block.bind (blocks[·]?)).getD method

/-- What is wrong with an occurrence that is bound in a given way. -/
def NameOccurrence.errors (unknown : String → Bool) (binding : Option Binding) (o : NameOccurrence) :
    List Diagnostic :=
  if binding = some .global then
    (if unknown o.name then [.unresolved o.name o.info.span] else [])
      ++ if o.isTarget then [.notAssignable o.name o.info.span] else []
  else []

namespace Expr

variable {ctx : ResolveContext} {method : String} {top : ScopeId}

/-- What is entered and reported about some occurrences in a method with the scope `top`. -/
structure Binds (ctx : ResolveContext) (top : ScopeId) (os : List NameOccurrence)
    (entries : List (Nat × Binding)) (complaints : List Diagnostic) : Prop where
  entries_eq : entries
    = os.map fun o => (o.info.id, ctx.table.bindingOf (bodyScope ctx.blocks top o.block) o.name)
  complaints_eq : complaints
    = os.flatMap fun o => o.errors (fun x => ctx.strict && (ctx.table.lookupClass x).isNone)
      (ctx.table.bindingOf (bodyScope ctx.blocks top o.block) o.name)

namespace Binds

variable {os os' : List NameOccurrence} {l l' : List (Nat × Binding)} {cs cs' : List Diagnostic}

theorem nil : Binds ctx top [] [] [] := ⟨rfl, rfl⟩

theorem append (h : Binds ctx top os l cs) (h' : Binds ctx top os' l' cs') :
    Binds ctx top (os ++ os') (l ++ l') (cs ++ cs') :=
  ⟨by rw [h.entries_eq, h'.entries_eq, List.map_append],
    by rw [h.complaints_eq, h'.complaints_eq, List.flatMap_append]⟩

end Binds

theorem binds_name {block : Option Nat} {scope : ScopeId} (hscope : bodyScope ctx.blocks top block = scope)
    (info : NodeInfo) (x : String) :
    Binds ctx top [⟨block, info, x, false⟩] [(info.id, ctx.table.bindingOf scope x)]
      (complaintAboutName ctx scope info x) := by
  subst hscope
  refine ⟨rfl, ?_⟩
  simp [complaintAboutName, NameOccurrence.errors, ← ite_and]

theorem binds_target {block : Option Nat} {scope : ScopeId} (hscope : bodyScope ctx.blocks top block = scope)
    {e : Expr} (he : e.isName) :
    Binds ctx top (e.targetOccurrences block) (e.targetBindings ctx scope) (e.targetComplaints ctx scope) := by
  subst hscope
  cases e with
  | name info x =>
    refine ⟨rfl, ?_⟩
    by_cases hglobal : ctx.table.bindingOf (bodyScope ctx.blocks top block) x = .global
    · simp [targetComplaints, complaintAboutName, targetOccurrences, NameOccurrence.errors, hglobal]
    · simp [targetComplaints, complaintAboutName, targetOccurrences, NameOccurrence.errors, hglobal]
  | atom | array | block | send | superSend | assign | ret => cases he

theorem binds_all {es : List Expr}
    (h : ∀ e ∈ es, ∀ block scope k, bodyScope ctx.blocks top block = scope →
      e.Laid ctx.table ctx.blocks method scope k →
      Binds ctx top (e.nameOccurrences block) (e.bindings ctx scope) (e.complaints ctx scope))
    {block : Option Nat} {scope : ScopeId} {k : Nat} (hscope : bodyScope ctx.blocks top block = scope)
    (hlaid : LaidAll ctx.table ctx.blocks method scope k es) :
    Binds ctx top (nameOccurrencesInAll block es) (bindingsOfAll ctx scope es)
      (complaintsAboutAll ctx scope es) := by
  induction es generalizing k with
  | nil =>
    rw [nameOccurrencesInAll, bindingsOfAll, complaintsAboutAll]
    exact .nil
  | cons e es ih =>
    obtain ⟨he, hes⟩ := List.forall_mem_cons.mp h
    rw [LaidAll] at hlaid
    rw [nameOccurrencesInAll, bindingsOfAll, complaintsAboutAll]
    exact (he block scope k hscope hlaid.1).append (ih hes hlaid.2)

/-- The names in an expression are bound in the order of their occurrences. -/
theorem binds_expr (e : Expr) (hproper : ∀ n ∈ e.nodes, n.IsProper) : ∀ block scope k,
    bodyScope ctx.blocks top block = scope → e.Laid ctx.table ctx.blocks method scope k →
    Binds ctx top (e.nameOccurrences block) (e.bindings ctx scope) (e.complaints ctx scope) := by
  induction e using tree_induction with
  | atom info value =>
    intro block scope k _ _
    rw [nameOccurrences, bindings, complaints]
    exact .nil
  | name info x =>
    intro block scope k hscope _
    rw [nameOccurrences, bindings, complaints]
    exact binds_name hscope info x
  | array info items ih =>
    intro block scope k hscope hlaid
    obtain ⟨-, hitems⟩ := (forall_nodes_iff _).mp hproper
    rw [Laid] at hlaid
    rw [nameOccurrences, bindings, complaints]
    exact binds_all (fun e he => ih e he (hitems e he)) hscope hlaid
  | block info params locals statements close ih =>
    intro block scope k _ hlaid
    obtain ⟨-, hstatements⟩ := (forall_nodes_iff _).mp hproper
    rw [Laid] at hlaid
    obtain ⟨inner, hinner, -, hlaid⟩ := hlaid
    have hscope : bodyScope ctx.blocks top (some info.id) = inner := by
      rw [bodyScope, Option.bind_some, hinner, Option.getD_some]
    rw [nameOccurrences, bindings, complaints, hinner]
    exact binds_all (fun e he => ih e he (hstatements e he)) hscope hlaid
  | send info receiver selector arguments ihr iha =>
    intro block scope k hscope hlaid
    obtain ⟨-, hparts⟩ := (forall_nodes_iff _).mp hproper
    rw [Laid] at hlaid
    rw [nameOccurrences, bindings, complaints]
    exact (ihr (hparts receiver List.mem_cons_self) block scope k hscope hlaid.1).append
      (binds_all (fun e he => iha e he (hparts e (List.mem_cons_of_mem _ he))) hscope hlaid.2)
  | superSend info selector arguments ih =>
    intro block scope k hscope hlaid
    obtain ⟨-, harguments⟩ := (forall_nodes_iff _).mp hproper
    rw [Laid] at hlaid
    rw [nameOccurrences, bindings, complaints]
    exact binds_all (fun e he => ih e he (harguments e he)) hscope hlaid
  | assign info target value iht ihv =>
    intro block scope k hscope hlaid
    obtain ⟨htarget, hparts⟩ := (forall_nodes_iff _).mp hproper
    rw [Laid] at hlaid
    rw [nameOccurrences, bindings, complaints]
    exact (ihv (hparts value (List.mem_cons_of_mem _ List.mem_cons_self)) block scope _ hscope
      hlaid.2).append (binds_target hscope htarget)
  | ret info value ih =>
    intro block scope k hscope hlaid
    obtain ⟨-, hvalue⟩ := (forall_nodes_iff _).mp hproper
    rw [Laid] at hlaid
    rw [nameOccurrences, bindings, complaints]
    exact ih (hvalue value List.mem_cons_self) block scope k hscope hlaid

end Expr

/-- The names in a method that has been laid out are bound in the order of their occurrences. -/
theorem ScopeTable.IsScopeOf.binds {ctx : ResolveContext} {owner scope : ScopeId} {m : MethodDef}
    (h : ctx.table.IsScopeOf ctx.blocks owner scope m)
    (hproper : ∀ n ∈ Expr.nodesOfAll m.body.statements, n.IsProper) :
    Expr.Binds ctx scope m.nameOccurrences (Expr.bindingsOfAll ctx scope m.body.statements)
      (Expr.complaintsAboutAll ctx scope m.body.statements) :=
  Expr.binds_all (fun e he => e.binds_expr fun n hn => hproper n (Expr.mem_nodesOfAll.mpr ⟨e, he, hn⟩))
    rfl h.holdsStatements.2.2

/-! ## Classes that inherit from themselves -/

theorem ScopeTable.HoldsClasses.inheritsFromItself_iff {t : ScopeTable}
    {entries : List (ScopeId × ClassHeader)} (ht : t.Valid) (h : t.HoldsClasses entries) {c : ScopeId}
    {a : ClassHeader} (ha : (c, a) ∈ entries) :
    t.inheritsFromItself c ↔ Relation.TransGen (DirectlyExtends (entries.map (·.2))) a.name a.name := by
  constructor
  · intro hself
    obtain ⟨n, hn⟩ := stepsUp_of_inheritsFromItself hself
    obtain ⟨b, hb, hpath⟩ := h.transGen_of_stepsUp ht ha hn
    rw [h.eq_of_scope_eq hb ha] at hpath
    exact hpath
  · intro hpath
    obtain ⟨n, hn⟩ := h.stepsUp_of_transGen ht hpath ha rfl ha rfl
    exact ht.inheritsFromItself_of_stepsUp hn

/-- A class of a unit inherits from itself, through other classes of the unit. -/
def SourceUnit.IsCyclic (u : SourceUnit) (c : ClassDef) : Prop :=
  Relation.TransGen (DirectlyExtends (u.allClasses.map ClassDef.header)) c.name.name c.name.name

/-! ## Units -/

theorem Bindings.mem_insertAll {bindings : Bindings} {l : List (Nat × Binding)} {i : Nat} :
    i ∈ bindings.insertAll l ↔ i ∈ bindings ∨ i ∈ l.map (·.1) := by
  induction l generalizing bindings with
  | nil => simp [insertAll]
  | cons entry l ih =>
    rw [insertAll, List.foldl_cons, ← insertAll, ih, Std.TreeMap.mem_insert]
    simp only [Std.LawfulEqCmp.compare_eq_iff_eq, List.map_cons, List.mem_cons]
    tauto

namespace SourceUnit

/-- What the names of a unit are bound to, and what is wrong with them. -/
def resolution (u : SourceUnit) (options : CompileOptions) : Resolution :=
  resolveUnit u (declareUnit u).table (declareUnit u).scopes options

variable {u : SourceUnit} {options : CompileOptions}

/-- The context in which the names of a unit are bound. -/
abbrev resolveContext (u : SourceUnit) (options : CompileOptions) : ResolveContext :=
  (u.generateContext options).resolveContext

theorem exists_mem_zip {α β : Type} {as : List α} {bs : List β} (hlength : as.length = bs.length) {a : α}
    (ha : a ∈ as) : ∃ b, (a, b) ∈ as.zip bs := by
  rw [← List.map_fst_zip hlength.le] at ha
  obtain ⟨⟨a, b⟩, hmem, rfl⟩ := List.mem_map.mp ha
  exact ⟨b, hmem⟩

section Resolution

variable (hunit : (declareUnit u).table.HoldsUnit (declareUnit u).scopes u)

include hunit

/-- The methods of a unit have scopes in which their names are bound. -/
theorem binds_of_mem (options : CompileOptions) (hu : u.IsUnshared) {c : ClassDef} {scopes : List ScopeId}
    (hc : (c, scopes) ∈ u.allClasses.zip ((declareUnit u).scopes.entries.map (·.2))) :
    c.methods.length = scopes.length ∧ ∀ m scope, (m, scope) ∈ c.methods.zip scopes →
      Expr.Binds (u.resolveContext options) scope m.nameOccurrences
        (Expr.bindingsOfAll (u.resolveContext options) scope m.body.statements)
        (Expr.complaintsAboutAll (u.resolveContext options) scope m.body.statements) := by
  rw [List.zip_map_right, List.mem_map] at hc
  obtain ⟨⟨c, entry⟩, hmem, heq⟩ := hc
  cases heq
  obtain ⟨-, hmethods⟩ := (List.forall₂_iff_zip.mp hunit.forall₂_holdsClass).2 (mem_zip_swap hmem)
  refine ⟨hmethods.length_eq.symm, fun m scope hm => ?_⟩
  have hscope : (u.resolveContext options).table.IsScopeOf (u.resolveContext options).blocks entry.1 scope m :=
    (List.forall₂_iff_zip.mp hmethods).2 (mem_zip_swap hm)
  exact hscope.binds (hu.isProper_of_mem (List.of_mem_zip hmem).1 (List.of_mem_zip hm).1)

theorem length_zip_entries :
    u.allClasses.length = ((declareUnit u).scopes.entries.map (·.2)).length := by
  rw [List.length_map, hunit.forall₂_holdsClass.length_eq]

/-- What is entered for the names of a unit does not depend on the options. -/
theorem bindings_resolution (options : CompileOptions) (hu : u.IsUnshared) :
    (u.resolution options).bindings = Bindings.insertAll ∅
      ((u.allClasses.zip ((declareUnit u).scopes.entries.map (·.2))).flatMap fun entry =>
        (entry.1.methods.zip entry.2).flatMap fun entry => entry.1.nameOccurrences.map fun o =>
          (o.info.id, (declareUnit u).table.bindingOf
            (bodyScope (declareUnit u).scopes.blocks entry.2 o.block) o.name)) := by
  rw [resolution, (records_resolveUnit u _ _ options rfl).bindings_eq]
  refine congrArg (Bindings.insertAll ∅) ((hunit.flatMap_statements (Expr.bindingsOfAll _)).trans ?_)
  refine List.flatMap_congr ?_
  rintro ⟨c, scopes⟩ hc
  refine List.flatMap_congr ?_
  rintro ⟨m, scope⟩ hm
  exact ((binds_of_mem hunit options hu hc).2 m scope hm).entries_eq

/-- An occurrence is bound to what its name refers to in its scope. -/
theorem getElem?_resolution (hu : u.IsUnshared) {c : ClassDef} {scopes : List ScopeId}
    (hc : (c, scopes) ∈ u.allClasses.zip ((declareUnit u).scopes.entries.map (·.2))) {m : MethodDef}
    {scope : ScopeId} (hm : (m, scope) ∈ c.methods.zip scopes) {o : NameOccurrence}
    (ho : o ∈ m.nameOccurrences) :
    (u.resolution options).bindings[o.info.id]?
      = some ((declareUnit u).table.bindingOf
          (bodyScope (declareUnit u).scopes.blocks scope o.block) o.name) := by
  have hentry : (o.info.id, (declareUnit u).table.bindingOf
      (bodyScope (declareUnit u).scopes.blocks scope o.block) o.name)
        ∈ Expr.bindingsOfAll (u.resolveContext options) scope m.body.statements := by
    rw [((binds_of_mem hunit options hu hc).2 m scope hm).entries_eq]
    exact List.mem_map_of_mem ho
  have hentries := hunit.flatMap_statements (Expr.bindingsOfAll (u.resolveContext options))
  exact getElem?_resolveUnit (u.resolveContext options) hu.nodup_ids rfl
    (hentries ▸ List.mem_flatMap.mpr ⟨_, hc, List.mem_flatMap.mpr ⟨_, hm, hentry⟩⟩)

/-- Exactly the names that occur are bound. -/
theorem mem_bindings_iff (hu : u.IsUnshared) (id : Nat) :
    id ∈ (u.resolution options).bindings ↔ ∃ o ∈ u.nameOccurrences, o.info.id = id := by
  have hids : ((u.allClasses.zip ((declareUnit u).scopes.entries.map (·.2))).flatMap fun entry =>
        (entry.1.methods.zip entry.2).flatMap fun entry => entry.1.nameOccurrences.map fun o =>
          (o.info.id, (declareUnit u).table.bindingOf
            (bodyScope (declareUnit u).scopes.blocks entry.2 o.block) o.name)).map (·.1)
      = u.nameOccurrences.map (·.info.id) := by
    rw [List.map_flatMap, nameOccurrences, List.map_flatMap]
    refine flatMap_zip_eq (length_zip_entries hunit) ?_
    rintro ⟨c, scopes⟩ hc
    rw [List.map_flatMap, List.map_flatMap]
    refine flatMap_zip_eq (binds_of_mem hunit options hu hc).1 ?_
    rintro ⟨m, scope⟩ _
    rw [List.map_map]
    rfl
  rw [bindings_resolution hunit options hu, Bindings.mem_insertAll, hids, List.mem_map]
  simp

theorem errors_eq_flatMap (hu : u.IsUnshared) :
    complaintsAboutClasses (u.resolveContext options) (u.classes.zip (declareUnit u).scopes.methods)
        ++ u.mainComplaints (u.resolveContext options) (declareUnit u).scopes.main
      = u.nameOccurrences.flatMap fun o =>
        o.errors (u.isUnknown options) (u.resolution options).bindings[o.info.id]? := by
  refine (hunit.flatMap_statements (Expr.complaintsAboutAll _)).trans ?_
  rw [nameOccurrences, List.flatMap_assoc]
  refine flatMap_zip_eq (length_zip_entries hunit) ?_
  rintro ⟨c, scopes⟩ hc
  obtain ⟨hlength, hbinds⟩ := binds_of_mem hunit options hu hc
  rw [List.flatMap_assoc]
  refine flatMap_zip_eq hlength ?_
  rintro ⟨m, scope⟩ hm
  rw [(hbinds m scope hm).complaints_eq]
  refine List.flatMap_congr fun o ho => ?_
  rw [getElem?_resolution hunit hu hc hm ho, ← funext (isUnknown_eq hunit)]
  rfl

theorem mem_zip_headers {c : ClassDef}
    {s : ScopeId} (hc : (c, s) ∈ u.classes.zip (declareUnit u).scopes.classes) :
    (s, c.header) ∈ ((declareUnit u).scopes.entries.map (·.1)).zip (u.allClasses.map ClassDef.header) := by
  rw [ScopeMap.entries, allClasses, List.map_append, hunit.map_fst_classEntries, List.map_append,
    List.zip_append (by rw [List.length_map, hunit.length_classes]), List.mem_append, List.zip_map_right]
  exact Or.inl (List.mem_map_of_mem (mem_zip_swap hc))

open Classical in
theorem complaintsAboutCycles_eq :
    complaintsAboutCycles (u.resolveContext options) (u.classes.zip (declareUnit u).scopes.classes)
      = u.classes.flatMap fun c =>
        if u.IsCyclic c then [.cyclicInheritance c.name.name c.name.span] else [] := by
  refine flatMap_zip_eq hunit.length_classes.symm ?_
  rintro ⟨c, s⟩ hc
  have hiff := hunit.holdsClasses.inheritsFromItself_iff hunit.valid (mem_zip_headers hunit hc)
  rw [hunit.map_snd_zip_headers] at hiff
  exact if_congr hiff rfl rfl

end Resolution

theorem perm_nameOccurrences (hu : u.IsUnshared) :
    (u.nameOccurrences.map NameOccurrence.node).Perm (u.nodes.filter Expr.isName) := by
  have hstatements : u.nameOccurrences = Expr.nameOccurrencesInAll none u.statements := by
    rw [Expr.nameOccurrencesInAll_eq_flatMap, ← statementsOfClasses_allClasses, statementsOfClasses,
      List.flatMap_assoc]
    refine List.flatMap_congr fun c _ => ?_
    rw [statementsOfMethods, List.flatMap_assoc]
    exact List.flatMap_congr fun m _ => Expr.nameOccurrencesInAll_eq_flatMap none m.body.statements
  rw [hstatements, nodes_eq_nodesOfAll]
  exact Expr.perm_nameOccurrencesInAll
    (fun e he => e.perm_nameOccurrences fun n hn => hu.isProper n (Expr.mem_nodesOfAll.mpr ⟨e, he, hn⟩)) none

open Classical in
/-- The names of a unit are bound, and what is wrong with them is reported, as they occur. -/
structure BindsOccurrences (u : SourceUnit) (options : CompileOptions) : Prop where
  /-- The occurrences are the variables of the unit, each of them once. -/
  perm_nodes : (u.nameOccurrences.map NameOccurrence.node).Perm (u.nodes.filter Expr.isName)
  /-- Exactly the variables are bound. -/
  mem_bindings_iff : ∀ id, id ∈ (u.resolution options).bindings ↔ ∃ n ∈ u.nodes, n.isName ∧ n.id = id
  /-- What they are bound to does not depend on the options. -/
  bindings_eq : ∀ options', (u.resolution options').bindings = (u.resolution options).bindings
  /-- In one body, equal names are bound alike, whether they are assigned to or not. -/
  getElem?_eq : ∀ c ∈ u.allClasses, ∀ m ∈ c.methods, ∀ o ∈ m.nameOccurrences, ∀ o' ∈ m.nameOccurrences,
    o.block = o'.block → o.name = o'.name →
    (u.resolution options).bindings[o.info.id]? = (u.resolution options).bindings[o'.info.id]?
  /-- First come the classes that inherit from themselves, in the order of the source, and then the
  occurrences that refer to nothing declared: it is an error if the name is unknown, in case this is asked
  for and no class is called so, and if it is assigned to. -/
  errors_eq : (u.resolution options).errors.toList =
    (u.classes.flatMap fun c =>
      if u.IsCyclic c then [.cyclicInheritance c.name.name c.name.span] else []) ++
    u.nameOccurrences.flatMap fun o =>
      if (u.resolution options).bindings[o.info.id]? = some .global then
        (if options.strictGlobals ∧ ∀ c ∈ u.allClasses, c.name.name ≠ o.name then
          [.unresolved o.name o.info.span] else []) ++
        if o.isTarget then [.notAssignable o.name o.info.span] else []
      else []

/-- If the declarations of a unit that has been read are in order, its names are bound as they occur. -/
theorem bindsOccurrences_of_ofSource {source : String} (hsource : ofSource source = .ok u)
    (hclean : (declareUnit u).errors = []) (options : CompileOptions) : u.BindsOccurrences options := by
  have hu := isUnshared_of_built (built_of_ofSource hsource)
  have hunit := holdsUnit_declareUnit hu.nodup_ids hclean
  have hperm := perm_nameOccurrences hu
  refine ⟨hperm, fun id => ?_, fun options' => ?_, fun c hc m hm o ho o' ho' hblock hname => ?_, ?_⟩
  · rw [mem_bindings_iff hunit hu]
    constructor
    · rintro ⟨o, ho, rfl⟩
      have hnode := List.mem_filter.mp (hperm.mem_iff.mp (List.mem_map_of_mem ho))
      exact ⟨o.node, hnode.1, hnode.2, rfl⟩
    · rintro ⟨n, hn, hname, rfl⟩
      obtain ⟨o, ho, rfl⟩ := List.mem_map.mp (hperm.mem_iff.mpr (List.mem_filter.mpr ⟨hn, hname⟩))
      exact ⟨o, ho, rfl⟩
  · rw [bindings_resolution hunit options' hu, bindings_resolution hunit options hu]
  · obtain ⟨scopes, hscopes⟩ := exists_mem_zip (length_zip_entries hunit) hc
    obtain ⟨scope, hscope⟩ := exists_mem_zip (binds_of_mem hunit options hu hscopes).1 hm
    rw [getElem?_resolution hunit hu hscopes hscope ho, getElem?_resolution hunit hu hscopes hscope ho',
      hblock, hname]
  · rw [resolution, errors_resolveUnit, complaintsAboutCycles_eq hunit, errors_eq_flatMap hunit hu]
    refine congrArg (_ ++ ·) (List.flatMap_congr fun o _ => if_congr Iff.rfl ?_ rfl)
    refine congrArg (· ++ _) (if_congr ?_ rfl rfl)
    simp [isUnknown]

/-- Two classes that extend each other, a field, parameters, names that are unknown and a class, with
assignments to a parameter and to what is no variable: two classes inherit from themselves, four names are
unknown, and two of them are assigned to. -/
theorem bindsOccurrences_of_ofSource_cycle :
    ∃ u, ofSource ("A subclass: #B [ | f | m [ f := A. ^z ] ] "
        ++ "B subclass: #A [ n: k [ k := y. y := [:y | y := k. f] ] ] x := A") = .ok u ∧
      (declareUnit u).errors = [] ∧ (u.resolution { strictGlobals := true }).errors.size = 8 ∧
      u.BindsOccurrences { strictGlobals := true } := by
  have hfacts : (ofSource ("A subclass: #B [ | f | m [ f := A. ^z ] ] "
      ++ "B subclass: #A [ n: k [ k := y. y := [:y | y := k. f] ] ] x := A")).toOption.map
      (fun u => ((declareUnit u).errors.length, (u.resolution { strictGlobals := true }).errors.size))
        = some (0, 8) := by decide +kernel
  cases hread : ofSource ("A subclass: #B [ | f | m [ f := A. ^z ] ] "
      ++ "B subclass: #A [ n: k [ k := y. y := [:y | y := k. f] ] ] x := A") with
  | error errors =>
    rw [hread] at hfacts
    cases hfacts
  | ok u =>
    rw [hread] at hfacts
    have hpair := Prod.mk.inj (Option.some.inj hfacts)
    have hclean : (declareUnit u).errors = [] := List.length_eq_zero_iff.mp hpair.1
    exact ⟨u, rfl, hclean, hpair.2, bindsOccurrences_of_ofSource hread hclean { strictGlobals := true }⟩

end SourceUnit

end Smalltalk
