import Mathlib
import Smalltalk.Proofs.Compilation
import Smalltalk.Proofs.UnitReports

/-!
# The layout of fields

The place of a field is computed anew wherever the field is used, from the names of superclasses. In a unit
that is declared and resolved without errors this gives every class one layout: the fields of the topmost
class of its chain come first, and its own fields last. The layout of a class begins with those of the
classes above it, so a field keeps its place in all classes that inherit it.

Nothing is assumed about the nodes of the unit: definitions are told apart by where they stand and not by
their numbers.
-/

namespace Smalltalk

open ScopeTable Registration

/-! ## Fields along a chain -/

namespace ScopeTable

variable {t : ScopeTable} {c d : ScopeId} {rest : List ScopeId}

/-- The fields that a class declares, in order. -/
def fieldsOf (t : ScopeTable) (c : ScopeId) : List SymbolId :=
  (t.scope c).symbols.toList.filter fun y => (t.symbol y).kind = .field

/-- The fields of a class and of the classes above it, those of the topmost class first. -/
def layout (t : ScopeTable) (c : ScopeId) : List SymbolId :=
  (c :: t.ancestors c).reverse.flatMap t.fieldsOf

theorem map_symbol_fieldsOf (t : ScopeTable) (c : ScopeId) :
    (t.fieldsOf c).map t.symbol = (t.symbolsOf c).filter (·.kind = .field) := by
  rw [fieldsOf, symbolsOf, List.filter_map]
  rfl

/-- The fields of a class are numbered one after the other, beginning after the inherited ones. -/
theorem Valid.map_fieldIndex_fieldsOf (ht : t.Valid) (c : ScopeId) :
    (t.fieldsOf c).map t.fieldIndex
      = (List.range (t.fieldCount c)).map (t.inheritedFieldCount c + ·) := by
  have hindices : (t.fieldsOf c).map (fun y => (t.symbol y).index) = List.range (t.fieldCount c) := by
    have hnumbered := ht.numbered c .fields
    simp only [← kind_eq_field_iff] at hnumbered
    rw [← map_symbol_fieldsOf, List.map_map] at hnumbered
    exact hnumbered
  rw [← hindices, List.map_map]
  apply List.map_congr_left
  intro y hy
  have hscope := ht.symbol_scope c y (Array.mem_toList_iff.mp (List.mem_of_mem_filter hy))
  rw [fieldIndex, hscope]
  rfl

namespace Chain

theorem layout_eq (ht : t.Valid) (h : Chain t c rest) : t.layout c = (c :: rest).reverse.flatMap t.fieldsOf := by
  rw [layout, h.ancestors_eq ht]

/-- One more class adds its fields at the end. -/
theorem layout_step (ht : t.Valid) (hd : t.superclassScope c = some d) (h : Chain t d rest) :
    t.layout c = t.layout d ++ t.fieldsOf c := by
  rw [(Chain.step hd h).layout_eq ht, h.layout_eq ht, List.reverse_cons (a := c), List.flatMap_append,
    List.flatMap_singleton]

theorem inheritedFieldCount_step (ht : t.Valid) (hd : t.superclassScope c = some d) (h : Chain t d rest) :
    t.inheritedFieldCount c = t.inheritedFieldCount d + t.fieldCount d := by
  rw [inheritedFieldCount, (Chain.step hd h).ancestors_eq ht, List.foldr_cons, Nat.add_comm,
    inheritedFieldCount, h.ancestors_eq ht]

/-- Fields have the places that they have in the layout. -/
theorem map_fieldIndex_layout (ht : t.Valid) (h : Chain t c rest) :
    (t.layout c).map t.fieldIndex = List.range (t.inheritedFieldCount c + t.fieldCount c) := by
  induction h with
  | @last c hnone =>
    have hchain := Chain.last hnone
    have hzero : t.inheritedFieldCount c = 0 := by
      rw [inheritedFieldCount, hchain.ancestors_eq ht]
      rfl
    rw [hchain.layout_eq ht, List.reverse_singleton, List.flatMap_singleton, ht.map_fieldIndex_fieldsOf,
      hzero]
    simp
  | step hd hrest ih =>
    rw [layout_step ht hd hrest, List.map_append, ih, ht.map_fieldIndex_fieldsOf,
      inheritedFieldCount_step ht hd hrest, ← List.range_add]

/-- A chain goes on above each of its classes. -/
theorem exists_append_of_mem (h : Chain t c rest) (hd : d ∈ rest) :
    ∃ below above, rest = below ++ d :: above ∧ Chain t d above := by
  induction h with
  | last _ => cases hd
  | @step c e rest _ hrest ih =>
    rcases List.mem_cons.mp hd with rfl | hd
    · exact ⟨[], rest, rfl, hrest⟩
    · obtain ⟨below, above, rfl, habove⟩ := ih hd
      exact ⟨e :: below, above, rfl, habove⟩

/-- The layout of a class begins with that of each class above it. -/
theorem layout_isPrefix (ht : t.Valid) (h : Chain t c rest) (hd : d ∈ rest) :
    t.layout d <+: t.layout c := by
  obtain ⟨below, above, rfl, habove⟩ := h.exists_append_of_mem hd
  refine ⟨(c :: below).reverse.flatMap t.fieldsOf, ?_⟩
  rw [h.layout_eq ht, habove.layout_eq ht, ← List.flatMap_append, ← List.reverse_append]
  rfl

end Chain

/-- A field that a name refers to is part of the layout. -/
theorem Valid.mem_layout_of_lookupField (ht : t.Valid)
    (hfields : ∀ d ∈ c :: t.ancestors c, ∃ layer, t.HasFields d layer) {x : String} {y : SymbolId}
    (h : t.lookupField c x = some y) : y ∈ t.layout c := by
  obtain ⟨d, hd, hlookup⟩ := List.exists_of_findSome?_eq_some h
  obtain ⟨layer, hlayer⟩ := hfields d hd
  obtain ⟨hy, -, hkind⟩ := ht.lookupVariable_eq_some_iff.mp hlookup
  have hvariable : ((t.symbol y).kind, (t.symbol y).name) ∈ t.variablesOf d :=
    List.mem_map_of_mem (List.mem_filter.mpr
      ⟨List.mem_map_of_mem (Array.mem_toList_iff.mpr hy), hkind⟩)
  have hfield := kind_eq_field_iff.mpr (hlayer.counter_eq _ hvariable)
  exact List.mem_flatMap.mpr ⟨d, List.mem_reverse.mpr hd,
    List.mem_filter.mpr ⟨Array.mem_toList_iff.mpr hy, decide_eq_true hfield⟩⟩

/-- The layout has the fields of the classes in its order. -/
theorem map_name_layout {layers : List (List String)}
    (hlayers : List.Forall₂ t.HasFields (c :: t.ancestors c) layers) :
    (t.layout c).map (fun y => (t.symbol y).name) = layers.reverse.flatten := by
  have hnames : ∀ {scopes layers}, List.Forall₂ t.HasFields scopes layers →
      (scopes.flatMap t.fieldsOf).map (fun y => (t.symbol y).name) = layers.flatten := by
    intro scopes layers h
    induction h with
    | nil => rfl
    | cons hlayer _ ih =>
      rw [List.flatMap_cons, List.map_append, ih, List.flatten_cons, ← hlayer.map_name,
        ← map_symbol_fieldsOf, List.map_map]
      rfl
  exact hnames (List.rel_reverse hlayers)

/-- The fields of a class and of the classes above it are laid out one after the other. -/
structure FieldLayout (t : ScopeTable) (c : ScopeId) : Prop where
  /-- The ancestors are all classes above the class. -/
  chain_ancestors : Chain t c (t.ancestors c)
  /-- No class occurs twice. -/
  nodup_ancestors : (c :: t.ancestors c).Nodup
  /-- The places are those in the layout. -/
  map_fieldIndex : (t.layout c).map t.fieldIndex
    = List.range (t.inheritedFieldCount c + t.fieldCount c)
  /-- Every place is that of one field. -/
  bijOn_fieldIndex : Set.BijOn t.fieldIndex {y | y ∈ t.layout c}
    (Set.Iio (t.inheritedFieldCount c + t.fieldCount c))
  /-- A field has the same place in all classes that inherit it. -/
  layout_ancestor : ∀ d ∈ t.ancestors c, t.layout d <+: t.layout c
  /-- A field that a name refers to is found in the layout at its place. -/
  getElem?_fieldIndex : ∀ x y, t.lookupField c x = some y → (t.layout c)[t.fieldIndex y]? = some y

theorem Chain.fieldLayout (ht : t.Valid) (h : Chain t c rest) {layers : List (List String)}
    (hlayers : List.Forall₂ t.HasFields (c :: rest) layers) : t.FieldLayout c := by
  have hindices := h.map_fieldIndex_layout ht
  have hnodup : ((t.layout c).map t.fieldIndex).Nodup := hindices ▸ List.nodup_range
  have hancestors := h.ancestors_eq ht
  refine ⟨hancestors ▸ h, ?_, hindices, ⟨fun y hy => ?_, ?_, fun i hi => ?_⟩, ?_, ?_⟩
  · rw [hancestors]
    exact List.nodup_cons.mpr ⟨h.not_mem, h.nodup⟩
  · have hmem := List.mem_map_of_mem (f := t.fieldIndex) hy
    rw [hindices] at hmem
    exact List.mem_range.mp hmem
  · exact fun y hy y' hy' heq => List.inj_on_of_nodup_map hnodup hy hy' heq
  · have hmem := List.mem_range.mpr hi
    rw [← hindices] at hmem
    exact List.mem_map.mp hmem
  · rw [hancestors]
    exact fun d hd => h.layout_isPrefix ht hd
  · intro x y hy
    have hmem : y ∈ t.layout c := by
      refine ht.mem_layout_of_lookupField (fun d hd => ?_) hy
      rw [hancestors] at hd
      obtain ⟨i, hi, rfl⟩ := List.getElem_of_mem hd
      exact ⟨_, hlayers.get hi (hlayers.length_eq ▸ hi)⟩
    obtain ⟨i, hi, rfl⟩ := List.getElem_of_mem hmem
    have hindex : t.fieldIndex (t.layout c)[i] = i := by
      rw [← List.getElem_map (l := t.layout c) t.fieldIndex (h := by rwa [List.length_map])]
      simp only [hindices, List.getElem_range]
    rw [hindex, List.getElem?_eq_getElem hi]

end ScopeTable

/-! ## The classes of a unit -/

/-- A class that is declared without errors has the scope that its header describes. -/
theorem ScopeTable.RegistersClass.isClassScope {t : ScopeTable} {s : ScopeId} {c : ClassDef}
    (h : t.RegistersClass s c) (hclean : c.declarationErrors = []) : t.IsClassScope s c.header where
  kind_eq := Scope.field_eq_of_head_eq h.head_eq Scope.kind fun _ => rfl
  name_eq := Scope.field_eq_of_head_eq h.head_eq Scope.name fun _ => rfl
  parent_eq := Scope.field_eq_of_head_eq h.head_eq Scope.parent fun _ => rfl
  superclass_eq := Scope.field_eq_of_head_eq h.head_eq Scope.superclass fun _ => rfl
  hasFields := by
    obtain ⟨hfields, hmethods⟩ := List.append_eq_nil_iff.mp hclean
    have hregistered := registerAll_of_complaintsOfAll (reportsOfAll_eq_nil_iff.mp hmethods).1
    rw [map_fst_methodReports] at hregistered
    have hvariables : (c.fieldRegistrations.map (·.1)).filter (·.kind.isVariable)
        = c.fieldRegistrations.map (·.1) := by
      rw [List.filter_eq_self]
      intro r hr
      obtain ⟨new, hnew, rfl⟩ := List.mem_map.mp hr
      obtain ⟨x, -, rfl⟩ := List.mem_map.mp hnew
      rfl
    have hothers : ((c.methods.map MethodDef.registration).map (·.1)).filter (·.kind.isVariable) = [] := by
      rw [List.filter_eq_nil_iff]
      intro r hr
      obtain ⟨new, hnew, rfl⟩ := List.mem_map.mp hr
      obtain ⟨m, -, rfl⟩ := List.mem_map.mp hnew
      cases hbody : m.body <;> simp [MethodDef.registration, DeclareM.methodKind, hbody,
        SymbolKind.isVariable]
    rw [HasFields, variablesOf_eq, h.registrationsOf_eq, registerAll_append, hregistered,
      registerAll_of_complaintsOfAll hfields, List.nil_append, List.filter_append, hvariables, hothers,
      List.append_nil, ClassDef.fieldRegistrations, DeclareM.variableRegistrations, ClassDef.header, namesOf]
    simp only [List.map_map]
    rfl

namespace SourceUnit

variable {u : SourceUnit}

theorem map_header_declaredClasses (u : SourceUnit) :
    u.declaredClasses.map ClassDef.header = u.allClasses.map ClassDef.header := by
  rw [declaredClasses, allClasses, List.map_append, List.map_append, declaredMain?, mainClass?]
  split <;> rfl

/-- Without errors every class of a unit has a scope. -/
theorem forall₂_isClassScope (hclean : (declareUnit u).errors = []) :
    List.Forall₂ (declareUnit u).table.IsClassScope (declareUnit u).scopes.classScopes
      (u.allClasses.map ClassDef.header) := by
  obtain ⟨d, hd, htable, -, -⟩ := surveyed_declareUnit u
  rw [errors_declareUnit, declarationErrors, reportsOfAll_eq_nil_iff, classReports,
    List.forall_mem_map] at hclean
  rw [htable, ← map_header_declaredClasses, List.forall₂_map_right_iff]
  refine List.forall₂_iff_zip.mpr ⟨hd.registersClass.length_eq, fun {s c} hmem => ?_⟩
  exact ((List.forall₂_iff_zip.mp hd.registersClass).2 hmem).isClassScope
    (hclean.2 c (List.of_mem_zip hmem).2)

/-- Without errors the table knows exactly the classes of the unit. -/
theorem holdsClasses_declareUnit (hclean : (declareUnit u).errors = []) :
    (declareUnit u).table.HoldsClasses
      ((declareUnit u).scopes.classScopes.zip (u.allClasses.map ClassDef.header)) := by
  have hscopes := forall₂_isClassScope hclean
  obtain ⟨d, hd, htable, herrors, -⟩ := surveyed_declareUnit u
  refine ⟨?_, ?_, fun entry hmem => (List.forall₂_iff_zip.mp hscopes).2 hmem⟩
  · rw [herrors, Array.toList_eq_nil_iff] at hclean
    rw [htable, hd.classesOf_eq hclean, ← map_header_declaredClasses, List.zip_map_right, List.map_map,
      List.map_zip_eq_zipWith]
    rfl
  · rw [List.map_fst_zip hscopes.length_eq.le]
    exact hd.nodup_scopes

/-- Only classes have scopes like those of classes. -/
theorem mem_classScopes {s : ScopeId} (hkind : ((declareUnit u).table.scope s).kind = .classDef) :
    s ∈ (declareUnit u).scopes.classScopes := by
  obtain ⟨d, hd, htable, -, -⟩ := surveyed_declareUnit u
  rw [htable] at hkind
  refine hd.mem_scopes s (Nat.one_le_iff_ne_zero.mpr fun hzero => ?_) hkind
  rw [hzero, Scope.field_eq_of_head_eq (hd.head_eq 0 Nat.zero_lt_one) Scope.kind fun _ => rfl] at hkind
  cases hkind

/-- A class is one of the source text, or that of the main program. -/
theorem mem_zip_classScopes {s : ScopeId} {a : ClassHeader}
    (hmem : (s, a) ∈ (declareUnit u).scopes.classScopes.zip (u.allClasses.map ClassDef.header)) :
    (∃ c, (c, s) ∈ u.classes.zip (declareUnit u).scopes.classes) ∨
      a.name = mainClassName ∧ a.superclass = some mainSuperclassName := by
  obtain ⟨-, -, -, -, hlength⟩ := surveyed_declareUnit u
  rw [List.zip_map_right, List.mem_map] at hmem
  obtain ⟨⟨s', c⟩, hmem, heq⟩ := hmem
  cases heq
  rw [ScopeMap.classScopes, allClasses, List.zip_append hlength, List.mem_append] at hmem
  rcases hmem with hmem | hmem
  · exact Or.inl ⟨c, mem_zip_swap hmem⟩
  · have hc := (List.of_mem_zip hmem).2
    unfold mainClass? at hc
    split at hc
    · cases hc
    · rw [Option.toList_some, List.mem_singleton] at hc
      subst hc
      exact Or.inr ⟨rfl, rfl⟩

/-- There is nothing above a class whose superclass is not in the unit. -/
theorem superclassScope_eq_none (hdeclared : (declareUnit u).errors = [])
    (hvalid : (declareUnit u).table.Valid) {s : ScopeId} {c : ClassDef}
    (hscope : (declareUnit u).table.IsClassScope s c.header)
    (hunknown : ∀ x ∈ c.superclassName, ∀ b ∈ u.allClasses, b.name.name ≠ x) :
    (declareUnit u).table.superclassScope s = none := by
  rw [superclassScope, hscope.superclass_eq, Option.eq_none_iff_forall_ne_some]
  intro d hd
  obtain ⟨x, hx, hlookup⟩ := Option.bind_eq_some_iff.mp hd
  obtain ⟨a, ha, rfl⟩ := ((holdsClasses_declareUnit hdeclared).lookupClass_eq_some_iff hvalid).mp hlookup
  obtain ⟨b, hb, rfl⟩ := List.mem_map.mp (List.of_mem_zip ha).2
  exact hunknown _ hx b hb rfl

/-- The layout of fields is consistent. In a unit that is declared and resolved without errors, every
class, also that of the main program, has a scope. The fields of a class and of the classes above it are
laid out one after the other, with the names that the source text gives them, and what is not in the unit
contributes nothing. -/
theorem fieldLayout_of_errors_eq_nil {options : CompileOptions} (hdeclared : (declareUnit u).errors = [])
    (hresolved : (resolveUnit u (declareUnit u).table (declareUnit u).scopes options).errors = #[]) :
    (∀ c ∈ u.allClasses, ∃ s, (declareUnit u).table.IsClassScope s c.header) ∧
    ∀ s, ((declareUnit u).table.scope s).kind = .classDef →
      (declareUnit u).table.FieldLayout s ∧
      ∃ c ∈ u.allClasses, (declareUnit u).table.IsClassScope s c.header ∧
        ((declareUnit u).table.layout s).map (fun y => ((declareUnit u).table.symbol y).name)
          = (c.layers u.allClasses).reverse.flatten ∧
        ((∀ x ∈ c.superclassName, ∀ b ∈ u.allClasses, b.name.name ≠ x) →
          (declareUnit u).table.ancestors s = [] ∧ (declareUnit u).table.inheritedFieldCount s = 0) := by
  obtain ⟨d, hd, htable, -, -⟩ := surveyed_declareUnit u
  have hvalid : (declareUnit u).table.Valid := htable ▸ hd.valid
  have hscopes := forall₂_isClassScope hdeclared
  have hclasses := holdsClasses_declareUnit hdeclared
  have hcycles := (List.append_eq_nil_iff.mp ((errors_resolveUnit u options).symm.trans
    (Array.toList_eq_nil_iff.mpr hresolved))).1
  have hacyclic := hclasses.acyclic hvalid fun s a hmem => (mem_zip_classScopes hmem).imp
    (fun ⟨c, hc⟩ => inheritsFromItself_of_complaintsAboutCycles hcycles _ hc) id
  rw [List.forall₂_map_right_iff, List.forall₂_iff_zip] at hscopes
  refine ⟨fun c hc => ?_, fun s hkind => ?_⟩
  · rw [← List.map_snd_zip hscopes.1.ge] at hc
    obtain ⟨⟨s, c⟩, hmem, rfl⟩ := List.mem_map.mp hc
    exact ⟨s, hscopes.2 hmem⟩
  · have hs := mem_classScopes hkind
    rw [← List.map_fst_zip hscopes.1.le] at hs
    obtain ⟨⟨s, c⟩, hmem, rfl⟩ := List.mem_map.mp hs
    have hentry : (s, c.header) ∈ (declareUnit u).scopes.classScopes.zip
        (u.allClasses.map ClassDef.header) := by
      rw [List.zip_map_right]
      exact List.mem_map_of_mem hmem
    obtain ⟨rest, hchain⟩ := hvalid.exists_chain hacyclic s
    have hlayers := hclasses.forall₂_layers hvalid hchain hentry
    rw [List.map_snd_zip (by rw [List.length_map, hscopes.1])] at hlayers
    have hancestors := hchain.ancestors_eq hvalid
    refine ⟨hchain.fieldLayout hvalid hlayers, c, (List.of_mem_zip hmem).2, hscopes.2 hmem,
      map_name_layout (hancestors ▸ hlayers), fun hunknown => ?_⟩
    have hnone := superclassScope_eq_none hdeclared hvalid (hscopes.2 hmem) hunknown
    have hnil := (Chain.last hnone).ancestors_eq hvalid
    refine ⟨hnil, ?_⟩
    rw [inheritedFieldCount, hnil]
    rfl

/-- A class that comes before the one it extends and declares a field of the same name, with a block that
occurs twice in one method and once more in the main program. -/
theorem fieldLayout_of_errors_eq_nil_shared : ∃ u : SourceUnit,
    ¬ (Expr.ids u.statements).Nodup ∧ (declareUnit u).table.FieldLayout 1 ∧
    ((declareUnit u).table.layout 1).map (declareUnit u).table.fieldIndex = [0, 1, 2] ∧
    (declareUnit u).table.FieldLayout 6 := by
  let block := Expr.block ⟨0, {}⟩ [⟨"x", {}⟩] [] [] {}
  let u : SourceUnit := {
    classes := [
      { name := ⟨"B", {}⟩, superclass := some ⟨"A", {}⟩, fields := [⟨"x", {}⟩, ⟨"y", {}⟩],
        methods := [{ selector := ⟨"m", {}⟩, body := .code { statements := [block, block] } }] },
      { name := ⟨"A", {}⟩, superclass := some ⟨"Object", {}⟩, fields := [⟨"x", {}⟩] }]
    main := { statements := [block] } }
  have hdeclared : (declareUnit u).errors = [] := List.isEmpty_iff.mp (by decide +kernel)
  have hresolved : (resolveUnit u (declareUnit u).table (declareUnit u).scopes {}).errors = #[] :=
    Array.size_eq_zero_iff.mp (by decide +kernel)
  obtain ⟨-, hlayout⟩ := fieldLayout_of_errors_eq_nil hdeclared hresolved
  have hfirst := (hlayout 1 (by decide +kernel)).1
  refine ⟨u, by decide +kernel, hfirst, ?_, (hlayout 6 (by decide +kernel)).1⟩
  rw [hfirst.map_fieldIndex]
  decide +kernel

end SourceUnit

end Smalltalk
