import Mathlib
import Smalltalk.Proofs.Reports

/-!
# What is wrong with the declarations of a unit

The names of classes, of the members of a class, and of the variables of a method are registered in
different places, so what is reported about them is about one list of classes, one list of members for
each class, and one list of variables for each method and block. The main program is declared as the only
method of a class of its own, after all other classes.
-/

namespace Smalltalk

open ScopeTable Registration

/-! ## Methods -/

/-- The local variables of a method, if it has code. -/
def MethodBody.locals : MethodBody → List Ident
  | code body => body.locals
  | primitive _ => []

namespace MethodDef

/-- A method as its class registers it. -/
def registration (m : MethodDef) : Registration × Span :=
  (⟨DeclareM.methodKind m.body, (DeclareM.methodKind m.body).space m.classSide, m.selector.name⟩,
    m.selector.span)

/-- What is wrong with the declarations inside a method of a class. -/
def declarationErrors (owner : String) (m : MethodDef) : List Diagnostic :=
  complaintsOfAll (String.intercalate ">>" [owner, m.selector.name]) []
      (slotRegistrations m.params m.body.locals)
    ++ Expr.declarationErrorsOfAll m.selector.name [owner, m.selector.name] 0 m.body.statements

end MethodDef

/-- The methods of a class, and what is wrong inside them. -/
def methodReports (owner : String) (methods : List MethodDef) :
    List ((Registration × Span) × List Diagnostic) :=
  methods.map fun m => (m.registration, m.declarationErrors owner)

theorem map_fst_methodReports (owner : String) (methods : List MethodDef) :
    (methodReports owner methods).map (·.1) = methods.map MethodDef.registration :=
  List.map_map

namespace DeclareM

open Declarations Smalltalk.Expr

/-- The walk is in the class with a given scope and name. -/
structure InClass (owner : ScopeId) (name : String) (d : Declarations) : Prop where
  valid : d.table.Valid
  owner_lt : owner < d.table.scopeCount
  kind_ne : (d.table.scope owner).kind ≠ .unit
  pathOf_eq : d.table.pathOf owner = [name]

theorem InClass.describe_eq {owner : ScopeId} {name : String} {d : Declarations}
    (h : InClass owner name d) : d.table.describe owner = name := by
  rw [ScopeTable.describe_eq h.kind_ne, h.pathOf_eq]
  rfl

/-- What going through methods of a class leaves behind and reports. -/
structure SurveyedMethods (owner : ScopeId) (name : String) (methods : List MethodDef)
    (d d' : Declarations) : Prop where
  valid : d'.table.Valid
  scopeCount_le : d.table.scopeCount ≤ d'.table.scopeCount
  kind_new : ∀ s, d.table.scopeCount ≤ s → (d'.table.scope s).kind ≠ .classDef
  head_eq : ∀ s < d.table.scopeCount, (d'.table.scope s).head = (d.table.scope s).head
  registrationsOf_other : ∀ s < d.table.scopeCount, s ≠ owner →
    d'.table.registrationsOf s = d.table.registrationsOf s
  registrationsOf_owner : d'.table.registrationsOf owner
    = registerAll (d.table.registrationsOf owner) (methods.map MethodDef.registration)
  classesOf_eq : d'.table.classesOf = d.table.classesOf
  errors_eq : d'.errors.toList
    = d.errors.toList ++ reportsOfAll name (d.table.registrationsOf owner) (methodReports name methods)

namespace SurveyedMethods

variable {owner : ScopeId} {name : String} {ms ms' : List MethodDef} {d d' d'' : Declarations}

theorem refl (hvalid : d.table.Valid) : SurveyedMethods owner name [] d d :=
  ⟨hvalid, le_rfl, fun _ => kind_ne_of_le, fun _ _ => rfl, fun _ _ _ => rfl, rfl, rfl,
    (List.append_nil _).symm⟩

theorem append (h : SurveyedMethods owner name ms d d') (h' : SurveyedMethods owner name ms' d' d'') :
    SurveyedMethods owner name (ms ++ ms') d d'' where
  valid := h'.valid
  scopeCount_le := h.scopeCount_le.trans h'.scopeCount_le
  kind_new := kind_ne_trans h.kind_new h'.head_eq h'.kind_new
  head_eq s hs := (h'.head_eq s (hs.trans_le h.scopeCount_le)).trans (h.head_eq s hs)
  registrationsOf_other s hs hne := (h'.registrationsOf_other s (hs.trans_le h.scopeCount_le) hne).trans
    (h.registrationsOf_other s hs hne)
  registrationsOf_owner := by
    rw [h'.registrationsOf_owner, h.registrationsOf_owner, List.map_append, registerAll_append]
  classesOf_eq := h'.classesOf_eq.trans h.classesOf_eq
  errors_eq := by
    rw [h'.errors_eq, h.errors_eq, h.registrationsOf_owner, ← map_fst_methodReports name,
      List.append_assoc, ← reportsOfAll_append, methodReports, methodReports, ← List.map_append]
    rfl

theorem inClass (h : SurveyedMethods owner name ms d d') (hd : InClass owner name d) :
    InClass owner name d' where
  valid := h.valid
  owner_lt := hd.owner_lt.trans_le h.scopeCount_le
  kind_ne := by
    rw [Scope.field_eq_of_head_eq (h.head_eq owner hd.owner_lt) Scope.kind fun _ => rfl]
    exact hd.kind_ne
  pathOf_eq := (hd.valid.pathOf_eq h.valid h.head_eq hd.owner_lt).trans hd.pathOf_eq

end SurveyedMethods

section OneMethod

variable {owner : ScopeId} {name : String} {d d' : Declarations}

/-- Making the scope of a method declares the method in its class. -/
theorem enters_beginMethod (hvalid : d.table.Valid) (howner : owner < d.table.scopeCount) (m : MethodDef) :
    Enters (newMethodScope owner m.selector m.classSide) owner m.registration
      (variableRegistrations .argument m.params) d
      (beginMethod owner m.selector m.params m.classSide m.body d) := by
  have hunit : (newMethodScope owner m.selector m.classSide).kind ≠ .unit := by simp [newMethodScope]
  exact (enters_declare hvalid ⟨rfl, rfl, rfl⟩ hunit howner rfl (methodKind m.body) m.selector
    d.blocks).declareAll howner hunit .argument (by decide) m.params

theorem kind_registration_ne (m : MethodDef) : m.registration.1.kind ≠ .classDef := by
  cases h : m.body <;> simp [MethodDef.registration, methodKind, h]

/-- The method has been declared with its variables, and its statements have been gone through. -/
theorem SurveyedMethods.code {m : MethodDef} {d₁ : Declarations} (hd : InClass owner name d)
    (henters : Enters (newMethodScope owner m.selector m.classSide) owner m.registration
      (slotRegistrations m.params m.body.locals) d d₁)
    (hbody : Surveyed d.table.scopeCount d.table.scopeCount m.selector.name [name, m.selector.name] 0
      m.body.statements d₁ d') :
    SurveyedMethods owner name [m] d d' := by
  have hlt : ∀ s < d.table.scopeCount, s < d₁.table.scopeCount := fun s hs => hs.trans henters.scope_lt
  refine ⟨hbody.inBody.valid, (Nat.le_of_lt henters.scope_lt).trans hbody.scopeCount_le,
    kind_ne_trans (henters.kind_ne (by simp [newMethodScope])) hbody.head_eq hbody.kind_new,
    fun s hs => ?_, fun s hs hne => ?_, ?_, ?_, ?_⟩
  · rw [hbody.head_eq s (hlt s hs), henters.head_eq s hs]
  · rw [hbody.registrationsOf_eq s (hlt s hs) (Nat.ne_of_lt hs), henters.registrationsOf_other s hs hne]
  · rw [hbody.registrationsOf_eq owner (hlt owner hd.owner_lt) (Nat.ne_of_lt hd.owner_lt),
      henters.registrationsOf_outer]
    rfl
  · rw [hbody.classesOf_eq, henters.classesOf_eq (kind_registration_ne m)]
  · rw [hbody.errors_eq, henters.errors_eq, hd.describe_eq, hd.pathOf_eq, methodReports, List.map_singleton,
      reportsOfAll, reportsOfAll, MethodDef.declarationErrors, List.append_nil]
    simp only [List.append_assoc]
    rfl

/-- A method that is part of the machine has been declared with its arguments, and has no statements. -/
theorem SurveyedMethods.primitive {m : MethodDef} {primitive : Ident} (hbody : m.body = .primitive primitive)
    {d₁ : Declarations} (hd : InClass owner name d)
    (henters : Enters (newMethodScope owner m.selector m.classSide) owner m.registration
      (variableRegistrations .argument m.params) d d₁)
    (hsimilar : Similar d₁.table d'.table) (herrors : d'.errors = d₁.errors) :
    SurveyedMethods owner name [m] d d' := by
  have hhead := hsimilar.scope_field Scope.head fun _ => rfl
  have hregistrations := hsimilar.registrationsOf_eq henters.valid
  refine ⟨hsimilar.valid henters.valid, ?_, fun s hs => ?_,
    fun s hs => (hhead s).trans (henters.head_eq s hs),
    fun s hs hne => (hregistrations s).trans (henters.registrationsOf_other s hs hne),
    (hregistrations owner).trans henters.registrationsOf_outer,
    hsimilar.classesOf_eq.trans (henters.classesOf_eq (kind_registration_ne m)), ?_⟩
  · rw [hsimilar.scopeCount_eq]
    exact Nat.le_of_lt henters.scope_lt
  · rw [Scope.field_eq_of_head_eq (hhead s) Scope.kind fun _ => rfl]
    exact henters.kind_ne (by simp [newMethodScope]) s hs
  · rw [herrors, henters.errors_eq, hd.describe_eq, hd.pathOf_eq, methodReports, List.map_singleton,
      reportsOfAll, reportsOfAll, MethodDef.declarationErrors, hbody, slotRegistrations, List.append_nil]
    simp only [MethodBody.statements, MethodBody.locals, declarationErrorsOfAll, List.append_nil,
      variableRegistrations, List.map_nil]
    rfl

/-- Going through a method reports what is wrong with its declarations. -/
theorem surveyed_methodScope (hd : InClass owner name d) (m : MethodDef) :
    SurveyedMethods owner name [m] d
      (methodScope owner m.selector m.params m.classSide m.body d).2 := by
  have hbegun := enters_beginMethod hd.valid hd.owner_lt m
  cases hbody : m.body with
  | code body =>
    have hunit : (newMethodScope owner m.selector m.classSide).kind ≠ .unit := by simp [newMethodScope]
    have hfilled := hbegun.declareAll hd.owner_lt hunit .localVar (by decide) body.locals
    rw [hbody] at hfilled
    rw [methodScope_code_apply]
    have hlocals : m.body.locals = body.locals := by rw [hbody]; rfl
    have hstatements : m.body.statements = body.statements := by rw [hbody]; rfl
    refine .code hd (by rw [hlocals]; exact hfilled) ?_
    rw [hstatements]
    refine surveyed_exprs (fun e _ => surveyed_expr _ _ e) ⟨hfilled.valid, hfilled.scope_lt,
      hfilled.scope_lt, ?_, ?_, hfilled.blockCount_new, .of_slots hfilled.registrationsOf_new⟩
    · exact Scope.field_eq_of_head_eq hfilled.head_new Scope.name fun _ => rfl
    · rw [hfilled.pathOf_new, hd.pathOf_eq]
      rfl
  | primitive primitive =>
    rw [methodScope_primitive_apply, ← hbody]
    exact .primitive hbody hd hbegun (similar_modifyScope _ _ fun _ => rfl) rfl

end OneMethod

theorem surveyed_methodScopes {owner : ScopeId} {name : String} (done : Array ScopeId)
    (methods : List MethodDef) {d : Declarations} (hd : InClass owner name d) :
    SurveyedMethods owner name methods d (methodScopes owner done methods d).2 := by
  induction methods generalizing d done with
  | nil => exact .refl hd.valid
  | cons m methods ih =>
    rw [methodScopes, bind_apply]
    have hfirst := surveyed_methodScope hd m
    exact hfirst.append (ih _ (hfirst.inClass hd))

end DeclareM

/-! ## Classes -/

namespace ClassDef

/-- A class as the unit registers it. -/
def registration (c : ClassDef) : Registration × Span :=
  (⟨.classDef, .values, c.name.name⟩, c.name.span)

/-- The fields of a class as the class registers them. -/
def fieldRegistrations (c : ClassDef) : List (Registration × Span) :=
  DeclareM.variableRegistrations .field c.fields

/-- What is wrong with the declarations inside a class. -/
def declarationErrors (c : ClassDef) : List Diagnostic :=
  complaintsOfAll c.name.name [] c.fieldRegistrations
    ++ reportsOfAll c.name.name (registerAll [] c.fieldRegistrations) (methodReports c.name.name c.methods)

end ClassDef

/-- The classes of a unit, and what is wrong inside them. -/
def classReports (classes : List ClassDef) : List ((Registration × Span) × List Diagnostic) :=
  classes.map fun c => (c.registration, c.declarationErrors)

theorem map_fst_classReports (classes : List ClassDef) :
    (classReports classes).map (·.1) = classes.map ClassDef.registration :=
  List.map_map

/-- The scope of a class has what is fixed when it is made, and it has registered the members of the
class, as far as they were accepted. -/
structure ScopeTable.RegistersClass (t : ScopeTable) (s : ScopeId) (c : ClassDef) : Prop where
  head_eq : (t.scope s).head = (DeclareM.newClassScope c.name c.superclassName c.span).head
  registrationsOf_eq : t.registrationsOf s
    = registerAll [] (c.fieldRegistrations ++ c.methods.map MethodDef.registration)

namespace DeclareM

open Declarations

/-- What going through classes leaves behind and reports. -/
structure SurveyedClasses (classes : List ClassDef) (scopes : List ScopeId) (d d' : Declarations) :
    Prop where
  valid : d'.table.Valid
  scopeCount_le : d.table.scopeCount ≤ d'.table.scopeCount
  head_eq : ∀ s < d.table.scopeCount, (d'.table.scope s).head = (d.table.scope s).head
  registrationsOf_other : ∀ s < d.table.scopeCount, s ≠ unitScope →
    d'.table.registrationsOf s = d.table.registrationsOf s
  registrationsOf_unit : d'.table.registrationsOf unitScope
    = registerAll (d.table.registrationsOf unitScope) (classes.map ClassDef.registration)
  registersClass : List.Forall₂ d'.table.RegistersClass scopes classes
  scope_ge : ∀ s ∈ scopes, d.table.scopeCount ≤ s
  scope_lt : ∀ s ∈ scopes, s < d'.table.scopeCount
  mem_scopes : ∀ s, d.table.scopeCount ≤ s → (d'.table.scope s).kind = .classDef → s ∈ scopes
  nodup_scopes : scopes.Nodup
  classesOf_eq : d'.errors = #[] → d'.table.classesOf = d.table.classesOf
    ++ List.zipWith (fun s c => (c.name.name, some s)) scopes classes
  errors_eq : d'.errors.toList = d.errors.toList
    ++ reportsOfAll "global scope" (d.table.registrationsOf unitScope) (classReports classes)

namespace SurveyedClasses

variable {cs cs' : List ClassDef} {scopes scopes' : List ScopeId} {d d' d'' : Declarations}

theorem nil (hvalid : d.table.Valid) : SurveyedClasses [] [] d d :=
  ⟨hvalid, le_rfl, fun _ _ => rfl, fun _ _ _ => rfl, rfl, .nil, fun _ h => absurd h List.not_mem_nil,
    fun _ h => absurd h List.not_mem_nil, fun _ hs h => absurd h (kind_ne_of_le hs), List.nodup_nil,
    fun _ => (List.append_nil _).symm,
    (List.append_nil _).symm⟩

theorem append (hvalid : d.table.Valid) (h : SurveyedClasses cs scopes d d')
    (h' : SurveyedClasses cs' scopes' d' d'') :
    SurveyedClasses (cs ++ cs') (scopes ++ scopes') d d'' where
  valid := h'.valid
  scopeCount_le := h.scopeCount_le.trans h'.scopeCount_le
  head_eq s hs := (h'.head_eq s (hs.trans_le h.scopeCount_le)).trans (h.head_eq s hs)
  registrationsOf_other s hs hne := (h'.registrationsOf_other s (hs.trans_le h.scopeCount_le) hne).trans
    (h.registrationsOf_other s hs hne)
  registrationsOf_unit := by
    rw [h'.registrationsOf_unit, h.registrationsOf_unit, List.map_append, registerAll_append]
  registersClass := by
    refine List.rel_append (List.forall₂_iff_zip.mpr ⟨h.registersClass.length_eq, fun {s c} hmem => ?_⟩)
      h'.registersClass
    have hclass := (List.forall₂_iff_zip.mp h.registersClass).2 hmem
    have hs := (List.of_mem_zip hmem).1
    -- classes come after the unit, whose scope is the first
    have hne : s ≠ unitScope :=
      Nat.ne_of_gt (Nat.lt_of_lt_of_le hvalid.unit_lt (h.scope_ge s hs))
    exact ⟨(h'.head_eq s (h.scope_lt s hs)).trans hclass.head_eq,
      (h'.registrationsOf_other s (h.scope_lt s hs) hne).trans hclass.registrationsOf_eq⟩
  scope_ge := List.forall_mem_append.mpr
    ⟨h.scope_ge, fun s hs => h.scopeCount_le.trans (h'.scope_ge s hs)⟩
  scope_lt := List.forall_mem_append.mpr
    ⟨fun s hs => (h.scope_lt s hs).trans_le h'.scopeCount_le, h'.scope_lt⟩
  mem_scopes s hs hkind := by
    by_cases hlt : s < d'.table.scopeCount
    · rw [Scope.field_eq_of_head_eq (h'.head_eq s hlt) Scope.kind fun _ => rfl] at hkind
      exact List.mem_append_left _ (h.mem_scopes s hs hkind)
    · exact List.mem_append_right _ (h'.mem_scopes s (Nat.le_of_not_lt hlt) hkind)
  nodup_scopes := List.nodup_append'.mpr ⟨h.nodup_scopes, h'.nodup_scopes, fun s hs hs' =>
    Nat.lt_irrefl s ((h.scope_lt s hs).trans_le (h'.scope_ge s hs'))⟩
  classesOf_eq hclean := by
    have hclean' : d'.errors = #[] := by
      have heq := h'.errors_eq
      rw [hclean] at heq
      exact Array.toList_eq_nil_iff.mp (List.append_eq_nil_iff.mp heq.symm).1
    rw [h'.classesOf_eq hclean, h.classesOf_eq hclean', List.append_assoc,
      List.zipWith_append h.registersClass.length_eq]
  errors_eq := by
    rw [h'.errors_eq, h.errors_eq, h.registrationsOf_unit, ← map_fst_classReports, List.append_assoc,
      ← reportsOfAll_append, classReports, classReports, ← List.map_append]
    rfl

end SurveyedClasses

variable {d : Declarations}

/-- Making the scope of a class declares the class in the unit. -/
theorem enters_classScope (hvalid : d.table.Valid) (c : ClassDef) :
    Enters (newClassScope c.name c.superclassName c.span) unitScope c.registration c.fieldRegistrations d
      (classScope c.name c.superclassName c.fields c.span d).2 := by
  have hunit : (newClassScope c.name c.superclassName c.span).kind ≠ .unit := by simp [newClassScope]
  rw [classScope_apply]
  exact (enters_declare hvalid ⟨rfl, rfl, rfl⟩ hunit hvalid.unit_lt rfl .classDef c.name
    d.blocks).declareAll hvalid.unit_lt hunit .field (by decide) c.fields

/-- Going through a class reports what is wrong with its declarations. -/
theorem surveyed_class (hvalid : d.table.Valid) (hkind : (d.table.scope unitScope).kind = .unit)
    (c : ClassDef) (done : Array ScopeId) :
    SurveyedClasses [c] [d.table.scopeCount] d (methodScopes d.table.scopeCount done c.methods
      (classScope c.name c.superclassName c.fields c.span d).2).2 := by
  have henters := enters_classScope hvalid c
  have hopens := @opens_classScope d c.name c.superclassName c.fields c.span hvalid
  revert henters hopens
  generalize (classScope c.name c.superclassName c.fields c.span d).2 = d₁
  intro henters hopens
  have hpath : d₁.table.pathOf d.table.scopeCount = [c.name.name] := by
    rw [henters.pathOf_new, pathOf_of_unit hkind]
    rfl
  have hclass : (d₁.table.scope d.table.scopeCount).kind ≠ .unit := by
    rw [Scope.field_eq_of_head_eq henters.head_new Scope.kind fun _ => rfl]
    simp [newClassScope]
  have hmethods := surveyed_methodScopes done c.methods
    ⟨henters.valid, henters.scope_lt, hclass, hpath⟩
  have hunit : unitScope ≠ d.table.scopeCount := Nat.ne_of_lt hvalid.unit_lt
  have hlt : ∀ s < d.table.scopeCount, s < d₁.table.scopeCount := fun s hs => hs.trans henters.scope_lt
  refine ⟨hmethods.valid, (Nat.le_of_lt henters.scope_lt).trans hmethods.scopeCount_le, fun s hs => ?_,
    fun s hs hne => ?_, ?_, .cons ⟨?_, ?_⟩ .nil, fun s hs => ?_, fun s hs => ?_, fun s hs hkind => ?_,
    List.nodup_singleton _, fun hclean => ?_, ?_⟩
  · rw [hmethods.head_eq s (hlt s hs), henters.head_eq s hs]
  · rw [hmethods.registrationsOf_other s (hlt s hs) (Nat.ne_of_lt hs),
      henters.registrationsOf_other s hs hne]
  · rw [hmethods.registrationsOf_other unitScope (hlt _ hvalid.unit_lt) hunit,
      henters.registrationsOf_outer]
    rfl
  · rw [hmethods.head_eq _ henters.scope_lt, henters.head_new]
  · rw [hmethods.registrationsOf_owner, henters.registrationsOf_new, registerAll_append]
  · rw [List.mem_singleton.mp hs]
  · rw [List.mem_singleton.mp hs]
    exact henters.scope_lt.trans_le hmethods.scopeCount_le
  · rcases Nat.eq_or_lt_of_le hs with rfl | hlt
    · exact List.mem_singleton_self _
    · exact absurd hkind (hmethods.kind_new s (henters.scopeCount_eq ▸ hlt))
  · rw [hmethods.classesOf_eq, (hopens ((keepsErrors_methodScopes _ _ _).clean hclean)).classesOf_eq]
    rfl
  · rw [hmethods.errors_eq, henters.errors_eq, henters.registrationsOf_new, describe, if_pos hkind,
      pathOf_of_unit hkind, classReports, List.map_singleton, reportsOfAll, reportsOfAll,
      ClassDef.declarationErrors, List.append_nil]
    simp only [List.append_assoc]
    rfl

theorem surveyed_classScopes (done : Array (ScopeId × List ScopeId)) (classes : List ClassDef)
    (hvalid : d.table.Valid) (hkind : (d.table.scope unitScope).kind = .unit) :
    ∃ entries, (classScopes done classes d).1 = done.toList ++ entries ∧
      SurveyedClasses classes (entries.map (·.1)) d (classScopes done classes d).2 := by
  induction classes generalizing d done with
  | nil => exact ⟨[], (List.append_nil _).symm, .nil hvalid⟩
  | cons c classes ih =>
    rw [classScopes, bind_apply, bind_apply, classScope_fst]
    have hfirst := surveyed_class hvalid hkind c #[]
    have hkind' := (Scope.field_eq_of_head_eq (hfirst.head_eq _ hvalid.unit_lt) Scope.kind
      fun _ => rfl).trans hkind
    obtain ⟨entries, hentries, hrest⟩ := ih _ hfirst.valid hkind'
    refine ⟨(d.table.scopeCount, (methodScopes d.table.scopeCount #[] c.methods
      (classScope c.name c.superclassName c.fields c.span d).2).1) :: entries, ?_, hfirst.append hvalid hrest⟩
    refine hentries.trans ?_
    rw [Array.toList_push, List.append_assoc]
    rfl

end DeclareM

/-! ## Units -/

namespace SourceUnit

/-- The place of the main program: that of its first statement, or the end of the text. -/
def mainSpan (u : SourceUnit) : Span :=
  match u.main.statements with
  | [] => u.finish
  | e :: _ => e.span

/-- The class of the main program as it is declared. -/
def declaredMain? (u : SourceUnit) : Option ClassDef :=
  u.mainClass?.map fun c => { c with
    name := ⟨mainClassName, u.mainSpan⟩
    span := u.mainSpan
    methods := [{ selector := ⟨mainMethodName, u.mainSpan⟩, body := .code u.main }] }

/-- The classes of a unit in the order in which they are declared. -/
def declaredClasses (u : SourceUnit) : List ClassDef := u.classes ++ u.declaredMain?.toList

/-- What is wrong with the declarations of a unit. -/
def declarationErrors (u : SourceUnit) : List Diagnostic :=
  reportsOfAll "global scope" [] (classReports u.declaredClasses)

end SourceUnit

/-- A main program is declared like other classes. -/
theorem DeclareM.mainScopes_eq (u : SourceUnit) (d : Declarations) :
    (mainScopes u d).2 = (classScopes #[] u.declaredMain?.toList d).2 ∧
      (mainScopes u d).1.toList.map (·.1) = (classScopes #[] u.declaredMain?.toList d).1.map (·.1) := by
  by_cases hempty : u.main.isEmpty
  · rw [mainScopes_of_isEmpty hempty, SourceUnit.declaredMain?, SourceUnit.mainClass?, if_pos hempty]
    exact ⟨rfl, rfl⟩
  · unfold mainScopes
    extract_lets span
    have hspan : u.mainSpan = span := rfl
    clear_value span
    rw [SourceUnit.declaredMain?, SourceUnit.mainClass?, if_neg hempty, if_neg hempty, hspan,
      bind_apply, bind_apply, classScope_fst]
    simp only [Option.map_some, Option.toList_some, classScopes, methodScopes]
    rw [bind_apply, bind_apply, bind_apply, classScope_fst]
    generalize (classScope ⟨mainClassName, span⟩ (some mainSuperclassName) [] span d).2 = d₁
    exact ⟨rfl, rfl⟩

/-- The scopes of all classes of a unit. -/
def ScopeMap.classScopes (m : ScopeMap) : List ScopeId := m.classes ++ m.main.toList.map (·.1)

/-- Declaring a unit goes through its classes and its main program. -/
theorem surveyed_declareUnit (u : SourceUnit) : ∃ d,
    DeclareM.SurveyedClasses u.declaredClasses (declareUnit u).scopes.classScopes {} d ∧
      (declareUnit u).table = d.table ∧ (declareUnit u).errors = d.errors.toList ∧
      (declareUnit u).scopes.classes.length = u.classes.length := by
  obtain ⟨entries, hentries, hclasses⟩ :=
    DeclareM.surveyed_classScopes (d := {}) #[] u.classes valid_empty rfl
  have hkind := Scope.field_eq_of_head_eq (hclasses.head_eq unitScope Nat.zero_lt_one) Scope.kind
    fun _ => rfl
  obtain ⟨entries', hentries', hmain⟩ :=
    DeclareM.surveyed_classScopes #[] u.declaredMain?.toList hclasses.valid hkind
  obtain ⟨hstate, hscopes⟩ := DeclareM.mainScopes_eq u (DeclareM.classScopes #[] u.classes {}).2
  refine ⟨(DeclareM.mainScopes u (DeclareM.classScopes #[] u.classes {}).2).2, ?_, rfl, rfl, ?_⟩
  swap
  · rw [declareUnit_eq, ← hclasses.registersClass.length_eq, hentries]
    rfl
  have hall := hclasses.append valid_empty hmain
  rw [List.nil_append] at hentries hentries'
  rw [← hentries, ← hentries', ← hscopes, ← hstate] at hall
  rw [declareUnit_eq]
  exact hall

/-- What declaring a unit reports is what is wrong with its declarations. -/
theorem errors_declareUnit (u : SourceUnit) : (declareUnit u).errors = u.declarationErrors := by
  obtain ⟨d, hd, -, herrors, -⟩ := surveyed_declareUnit u
  rw [herrors, hd.errors_eq]
  rfl

/-! ## Declarations in order -/

/-- One more class is declared without errors exactly if it has a new name and there is room for it. -/
theorem complaintsOfAll_singleton_eq_nil_iff {place : String} {classes : List ClassDef} (c : ClassDef)
    (hclean : complaintsOfAll place [] (classes.map ClassDef.registration) = []) :
    complaintsOfAll place (registerAll [] (classes.map ClassDef.registration)) [c.registration] = [] ↔
      c.name.name ∉ classes.map (·.name.name) ∧ classes.length < counterLimit := by
  have hany : ((classes.map ClassDef.registration).map (·.1)).any c.registration.1.clashes = true ↔
      c.name.name ∈ classes.map (·.name.name) := by
    rw [List.map_map, List.any_map, List.any_eq_true, List.mem_map]
    refine exists_congr fun b => and_congr_right fun _ => ?_
    show (true && decide (c.name.name = b.name.name)) = true ↔ _
    rw [Bool.true_and, decide_eq_true_iff, eq_comm]
  have hcount : c.registration.1.onCounter ((classes.map ClassDef.registration).map (·.1))
      = classes.length := by
    rw [onCounter, List.map_map, List.countP_map, List.countP_eq_length]
    exact fun _ _ => rfl
  rw [registerAll_of_complaintsOfAll hclean, List.nil_append, complaintsOfAll, complaintsOfAll,
    List.append_nil, Registration.complaints, hcount]
  simp only [hany]
  split_ifs with hmem hlimit
  · simp [hmem]
  · simp [hlimit]
  · simp [hmem, Nat.lt_of_not_le hlimit]

/-- Classes are declared without errors exactly if they have different names and are not too many. -/
theorem complaintsOfAll_classes_eq_nil_iff (place : String) (classes : List ClassDef) :
    complaintsOfAll place [] (classes.map ClassDef.registration) = [] ↔
      (classes.map (·.name.name)).Nodup ∧ classes.length ≤ counterLimit := by
  induction classes using List.reverseRecOn with
  | nil => simp [complaintsOfAll]
  | append_singleton classes c ih =>
    have hnodup : ((classes ++ [c]).map (·.name.name)).Nodup ↔
        (classes.map (·.name.name)).Nodup ∧ c.name.name ∉ classes.map (·.name.name) := by
      rw [List.map_append, List.map_singleton, List.nodup_append', List.disjoint_singleton]
      simp
    rw [List.map_append, complaintsOfAll_append, List.append_eq_nil_iff, hnodup, List.length_append]
    constructor
    · rintro ⟨hfirst, hlast⟩
      obtain ⟨hnew, hlt⟩ := (complaintsOfAll_singleton_eq_nil_iff c hfirst).mp hlast
      exact ⟨⟨(ih.mp hfirst).1, hnew⟩, hlt⟩
    · rintro ⟨⟨hfirst, hnew⟩, hlt⟩
      have hclean := ih.mpr ⟨hfirst, Nat.le_of_succ_le hlt⟩
      exact ⟨hclean, (complaintsOfAll_singleton_eq_nil_iff c hclean).mpr ⟨hnew, hlt⟩⟩

/-- The declarations of a class are in order if its own names do not clash and each method is in order. -/
theorem ClassDef.declarationErrors_eq_nil_iff (c : ClassDef) : c.declarationErrors = [] ↔
    complaintsOfAll c.name.name [] (c.fieldRegistrations ++ c.methods.map MethodDef.registration) = [] ∧
      ∀ m ∈ c.methods, m.declarationErrors c.name.name = [] := by
  rw [declarationErrors, List.append_eq_nil_iff, reportsOfAll_eq_nil_iff, map_fst_methodReports,
    complaintsOfAll_append, List.append_eq_nil_iff, methodReports, List.forall_mem_map, and_assoc]

/-- The declarations of a unit are in order if its classes have different names, are not too many and are in
order each. -/
theorem SourceUnit.declarationErrors_eq_nil_iff (u : SourceUnit) : u.declarationErrors = [] ↔
    ((u.declaredClasses.map (·.name.name)).Nodup ∧ u.declaredClasses.length ≤ counterLimit) ∧
      ∀ c ∈ u.declaredClasses, c.declarationErrors = [] := by
  rw [declarationErrors, reportsOfAll_eq_nil_iff, map_fst_classReports, complaintsOfAll_classes_eq_nil_iff,
    classReports, List.forall_mem_map]

end Smalltalk
