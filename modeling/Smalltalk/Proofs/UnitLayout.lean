import Mathlib
import Smalltalk.Proofs.Layout

/-!
# Classes and methods in the scope table

Every class of a unit has a scope, and inside it every method has one, in the order of the text. The
main program comes last, as the method of a class of its own.
-/

namespace Smalltalk

open ScopeTable

/-! ## Methods -/

section MethodScope

variable (t : ScopeTable) (blockScopes : Std.TreeMap Nat ScopeId)

/-- What the scope of a method says about the body of the method. -/
def ScopeTable.HoldsBody (s : ScopeId) (name : String) (params : List Ident) : MethodBody → Prop
  | .primitive primitive =>
    (t.scope s).primitive = some primitive.name ∧ t.HasSlots s (namesOf params) []
  | .code body =>
    (t.scope s).primitive = none ∧ t.HasSlots s (namesOf params) (namesOf body.locals) ∧
      (t.scope s).blockCount = Expr.blockCountOfAll body.statements ∧
      Expr.blockCountOfAll body.statements ≤ counterLimit ∧
      Expr.LaidAll t blockScopes name s 0 body.statements

/-- The scope of a method says what its definition says, and its blocks are laid out. -/
structure ScopeTable.IsMethodScope (owner s : ScopeId) (name : String) (params : List Ident)
    (classSide : Bool) (body : MethodBody) : Prop where
  kind_eq : (t.scope s).kind = .method
  name_eq : (t.scope s).name = name
  parent_eq : (t.scope s).parent = some owner
  classSide_eq : (t.scope s).classSide = classSide
  holdsBody : t.HoldsBody blockScopes s name params body

end MethodScope

namespace DeclareM

open Declarations Smalltalk.Expr

/-- One state comes after another one, and nothing that is known about scopes has changed, but for
the methods and blocks that they list. -/
structure Keeps (d d' : Declarations) : Prop where
  grows : Grows d.table.scopeCount d d'
  blockCount_eq : ∀ s < d.table.scopeCount, (d'.table.scope s).blockCount = (d.table.scope s).blockCount

theorem Keeps.refl (d : Declarations) : Keeps d d := ⟨.refl _ _, fun _ _ => rfl⟩

theorem Keeps.trans {d d' d'' : Declarations} (h : Keeps d d') (h' : Keeps d' d'') : Keeps d d'' :=
  ⟨h.grows.trans (h'.grows.mono h.grows.scopeCount_le), fun s hs =>
    (h'.blockCount_eq s (hs.trans_le h.grows.scopeCount_le)).trans (h.blockCount_eq s hs)⟩

theorem Keeps.of_opens {new : Scope} {l : List (SymbolKind × String)}
    {blocks : Std.TreeMap Nat ScopeId} {cs : List (String × Option ScopeId)} {d d' : Declarations}
    (h : Opens new l blocks cs d d') : Keeps d d' :=
  ⟨h.grows, h.blockCount_eq⟩

/-- What going through definitions leaves behind. -/
structure Settled (es : List Expr) (classes : List (String × Option ScopeId)) (d d' : Declarations) :
    Prop where
  valid : d'.table.Valid
  keeps : Keeps d d'
  classesOf_eq : d'.table.classesOf = d.table.classesOf ++ classes
  blocks_eq : ∀ i ∉ ids es, d'.blocks[i]? = d.blocks[i]?

namespace Settled

variable {es fs : List Expr} {cs cs' : List (String × Option ScopeId)} {d d' d'' : Declarations}

theorem refl (hvalid : d.table.Valid) : Settled [] [] d d :=
  ⟨hvalid, .refl d, (List.append_nil _).symm, fun _ _ => rfl⟩

theorem append (h : Settled es cs d d') (h' : Settled fs cs' d' d'') :
    Settled (es ++ fs) (cs ++ cs') d d'' where
  valid := h'.valid
  keeps := h.keeps.trans h'.keeps
  classesOf_eq := by rw [h'.classesOf_eq, h.classesOf_eq, List.append_assoc]
  blocks_eq i hi := by
    rw [ids_append, List.mem_append, not_or] at hi
    rw [h'.blocks_eq i hi.2, h.blocks_eq i hi.1]

/-- Node numbers that are used only later are still free. -/
theorem fresh (h : Settled es cs d d') (hnodup : (ids (es ++ fs)).Nodup)
    (hfresh : ∀ i ∈ ids (es ++ fs), d.blocks[i]? = none) : ∀ i ∈ ids fs, d'.blocks[i]? = none := by
  intro i hi
  rw [ids_append, List.nodup_append'] at hnodup
  rw [h.blocks_eq i fun hi' => hnodup.2.2 hi' hi]
  exact hfresh i (by rw [ids_append]; exact List.mem_append_right _ hi)

end Settled

/-- The scope of a method as it is made. -/
def newMethodScope (owner : ScopeId) (selector : Ident) (classSide : Bool) : Scope :=
  { kind := .method, name := selector.name, parent := some owner, span := selector.span,
    classSide := classSide }

/-- The kind of the symbol of a method. -/
def methodKind : MethodBody → SymbolKind
  | .code _ => .method
  | .primitive _ => .primitive

section OneMethod

variable {owner : ScopeId} {selector : Ident} {params : List Ident} {classSide : Bool}
  {d d₁ d' later : Declarations}

/-- The state after the scope of a method has been made and its parameters have been declared. -/
def beginMethod (owner : ScopeId) (selector : Ident) (params : List Ident) (classSide : Bool)
    (body : MethodBody) (d : Declarations) : Declarations :=
  (declareAll d.table.scopeCount .argument params
    (declare owner (methodKind body) selector (some d.table.scopeCount)
      { d with table := d.table.push (newMethodScope owner selector classSide) }).2).2

theorem methodScope_code_apply (body : Body) (d : Declarations) :
    methodScope owner selector params classSide (.code body) d = (d.table.scopeCount,
      (exprs d.table.scopeCount d.table.scopeCount body.statements
        (declareAll d.table.scopeCount .localVar body.locals
          (beginMethod owner selector params classSide (.code body) d)).2).2) := rfl

theorem methodScope_primitive_apply (primitive : Ident) (d : Declarations) :
    methodScope owner selector params classSide (.primitive primitive) d = (d.table.scopeCount,
      { beginMethod owner selector params classSide (.primitive primitive) d with
        table := (beginMethod owner selector params classSide (.primitive primitive) d).table.modifyScope
          d.table.scopeCount fun s => { s with primitive := some primitive.name } }) := rfl

theorem opens_beginMethod {body : MethodBody} (hvalid : d.table.Valid)
    (howner : owner < d.table.scopeCount)
    (hclean : (beginMethod owner selector params classSide body d).errors = #[]) :
    Opens (newMethodScope owner selector classSide) ((namesOf params).map fun x => (.argument, x))
      d.blocks [] d (beginMethod owner selector params classSide body d) := by
  have hclasses : newClasses owner (methodKind body) selector (some d.table.scopeCount) = [] :=
    if_neg fun h => by cases body <;> cases h.2
  have hkind : (methodKind body).isVariable = false := by cases body <;> rfl
  have hopens := opens_declare hvalid ⟨rfl, rfl, rfl⟩ howner rfl hkind (fun _ _ h => h)
    ((keepsErrors_declareAll _ _ _).clean hclean)
  rw [hclasses] at hopens
  exact hopens.declareAll rfl (by decide) hclean

/-- A method whose scope has been made, and whose statements have been gone through. -/
theorem isMethodScope_code {body : Body}
    (hopens : Opens (newMethodScope owner selector classSide) (slotList params body.locals) d.blocks []
      d d₁)
    (hbody : Walked d.table.scopeCount d.table.scopeCount body.statements d₁ d') (hlater : Keeps d' later) :
    later.table.IsMethodScope later.blocks owner d.table.scopeCount selector.name params classSide
      (.code body) := by
  have hafter : Grows d₁.table.scopeCount d₁ later :=
    hbody.grows.trans (hlater.grows.mono hbody.grows.scopeCount_le)
  have hhead := (hafter.head_eq _ hopens.scope_lt).trans hopens.head_new
  have hname : (d₁.table.scope d.table.scopeCount).name = selector.name :=
    Scope.field_eq_of_head_eq hopens.head_new Scope.name fun _ => rfl
  have hzero : (d₁.table.scope d.table.scopeCount).blockCount = 0 := hopens.blockCount_new
  have hcount := hbody.blockCount_method
  have hle := hbody.blockCount_le (hzero ▸ Nat.zero_le _)
  have hlaid := hbody.laid later hlater.grows
  rw [hzero, Nat.zero_add] at hcount
  rw [hname, hzero] at hlaid
  refine {
    kind_eq := Scope.field_eq_of_head_eq hhead Scope.kind fun _ => rfl
    name_eq := Scope.field_eq_of_head_eq hhead Scope.name fun _ => rfl
    parent_eq := Scope.field_eq_of_head_eq hhead Scope.parent fun _ => rfl
    classSide_eq := Scope.field_eq_of_head_eq hhead Scope.classSide fun _ => rfl
    holdsBody := ⟨?_, ?_, ?_, hcount ▸ hle, hlaid⟩ }
  · exact (hafter.primitive_eq _ hopens.scope_lt).trans hopens.primitive_new
  · exact (hafter.variablesOf_eq _ hopens.scope_lt).trans hopens.variablesOf_new
  · rw [hlater.blockCount_eq _ (hopens.scope_lt.trans_le hbody.grows.scopeCount_le), hcount]

/-- A method that is part of the machine, whose scope has been made. -/
theorem isMethodScope_primitive {primitive : Ident}
    (hopens : Opens (newMethodScope owner selector classSide) (slotList params []) d.blocks [] d d₁)
    (hlater : Keeps { d₁ with table := d₁.table.modifyScope d.table.scopeCount fun s =>
      { s with primitive := some primitive.name } } later) :
    later.table.IsMethodScope later.blocks owner d.table.scopeCount selector.name params classSide
      (.primitive primitive) := by
  have hscope : (d₁.table.modifyScope d.table.scopeCount fun s =>
      { s with primitive := some primitive.name }).scope d.table.scopeCount
        = { d₁.table.scope d.table.scopeCount with primitive := some primitive.name } := by
    rw [scope_modifyScope, if_pos ⟨rfl, hopens.scope_lt⟩]
  have hsimilar := d₁.table.similar_modifyScope d.table.scopeCount (f := fun s =>
    { s with primitive := some primitive.name }) fun _ => rfl
  have hlt : d.table.scopeCount < (d₁.table.modifyScope d.table.scopeCount fun s =>
      { s with primitive := some primitive.name }).scopeCount :=
    hsimilar.scopeCount_eq ▸ hopens.scope_lt
  have hhead : (later.table.scope d.table.scopeCount).head
      = (newMethodScope owner selector classSide).head := by
    rw [hlater.grows.head_eq _ hlt, hscope]
    exact hopens.head_new
  exact {
    kind_eq := Scope.field_eq_of_head_eq hhead Scope.kind fun _ => rfl
    name_eq := Scope.field_eq_of_head_eq hhead Scope.name fun _ => rfl
    parent_eq := Scope.field_eq_of_head_eq hhead Scope.parent fun _ => rfl
    classSide_eq := Scope.field_eq_of_head_eq hhead Scope.classSide fun _ => rfl
    holdsBody := by
      refine ⟨?_, ?_⟩
      · rw [hlater.grows.primitive_eq _ hlt, hscope]
      · show later.table.variablesOf _ = _
        rw [hlater.grows.variablesOf_eq _ hlt, hsimilar.variablesOf_eq]
        exact hopens.variablesOf_new }

/-- Declaring a method makes a scope for it. -/
theorem settled_methodScope {body : MethodBody} (hvalid : d.table.Valid)
    (howner : owner < d.table.scopeCount) (hnodup : (ids body.statements).Nodup)
    (hfresh : ∀ i ∈ ids body.statements, d.blocks[i]? = none)
    (hclean : (methodScope owner selector params classSide body d).2.errors = #[]) :
    (methodScope owner selector params classSide body d).1 = d.table.scopeCount ∧
      Settled body.statements [] d (methodScope owner selector params classSide body d).2 ∧
      ∀ later, Keeps (methodScope owner selector params classSide body d).2 later →
        later.table.IsMethodScope later.blocks owner d.table.scopeCount selector.name params classSide
          body := by
  cases body with
  | code body =>
    rw [methodScope_code_apply] at hclean ⊢
    refine ⟨rfl, ?_⟩
    have hclean₂ := (keepsErrors_exprs (fun e _ => keepsErrors_expr d.table.scopeCount e) _).clean hclean
    have hclean₁ := (keepsErrors_declareAll _ _ _).clean hclean₂
    have hopens := (opens_beginMethod hvalid howner hclean₁).declareAll rfl (by decide) hclean₂
    have hbody := walked_exprs (fun e _ => walked_expr d.table.scopeCount e) hopens.valid hopens.scope_lt
      hopens.scope_lt hnodup (fun i hi => by rw [hopens.blocks_eq]; exact hfresh i hi) hclean
    refine ⟨⟨hbody.valid, ⟨?_, fun s hs => ?_⟩, ?_, fun i hi => ?_⟩, fun later hlater =>
      isMethodScope_code hopens hbody hlater⟩
    · exact hopens.grows.trans (hbody.grows.mono (Nat.le_of_lt hopens.scope_lt))
    · exact (hbody.blockCount_other s (hs.trans hopens.scope_lt) (Nat.ne_of_lt hs)).trans
        (hopens.blockCount_eq s hs)
    · exact hbody.classesOf_eq.trans hopens.classesOf_eq
    · exact (hbody.blocks_eq i hi).trans (by rw [hopens.blocks_eq])
  | primitive primitive =>
    rw [methodScope_primitive_apply] at hclean ⊢
    refine ⟨rfl, ?_⟩
    have hopens := opens_beginMethod hvalid howner hclean
    rw [← List.append_nil ((namesOf params).map _)] at hopens
    revert hopens
    generalize beginMethod owner selector params classSide (.primitive primitive) d = d₁
    intro hopens
    have hscope := d₁.table.scope_modifyScope d.table.scopeCount fun s =>
      { s with primitive := some primitive.name }
    have hsimilar := d₁.table.similar_modifyScope d.table.scopeCount (f := fun s =>
      { s with primitive := some primitive.name }) fun _ => rfl
    refine ⟨⟨hsimilar.valid hopens.valid, ⟨hopens.grows.trans (.of_similar hsimilar (fun s hs => ?_) rfl),
      fun s hs => ?_⟩, hsimilar.classesOf_eq.trans hopens.classesOf_eq,
      fun i _ => by rw [← hopens.blocks_eq]⟩, fun later hlater => isMethodScope_primitive hopens hlater⟩
    · rw [hscope, if_neg fun h => Nat.ne_of_lt hs h.1]
    · rw [hscope, if_neg fun h => Nat.ne_of_lt hs h.1]
      exact hopens.blockCount_eq s hs

end OneMethod

end DeclareM

/-- The scope of a method says what the definition of the method says. -/
def ScopeTable.IsScopeOf (t : ScopeTable) (blockScopes : Std.TreeMap Nat ScopeId) (owner s : ScopeId)
    (m : MethodDef) : Prop :=
  t.IsMethodScope blockScopes owner s m.selector.name m.params m.classSide m.body

namespace DeclareM

open Declarations Smalltalk.Expr

variable {d : Declarations}

theorem settled_methodScopes {owner : ScopeId} {methods : List MethodDef} {done : Array ScopeId}
    (hvalid : d.table.Valid) (howner : owner < d.table.scopeCount)
    (hnodup : (ids (statementsOfMethods methods)).Nodup)
    (hfresh : ∀ i ∈ ids (statementsOfMethods methods), d.blocks[i]? = none)
    (hclean : (methodScopes owner done methods d).2.errors = #[]) :
    Settled (statementsOfMethods methods) [] d (methodScopes owner done methods d).2 ∧
      ∃ scopes, (methodScopes owner done methods d).1 = done.toList ++ scopes ∧
        ∀ later, Keeps (methodScopes owner done methods d).2 later →
          List.Forall₂ (later.table.IsScopeOf later.blocks owner) scopes methods := by
  induction methods generalizing d done with
  | nil => exact ⟨.refl hvalid, [], (List.append_nil _).symm, fun _ _ => .nil⟩
  | cons m methods ih =>
    rw [methodScopes, bind_apply] at hclean ⊢
    have hsplit : statementsOfMethods (m :: methods) = m.body.statements ++ statementsOfMethods methods :=
      List.flatMap_cons
    rw [hsplit] at hnodup hfresh
    have hparts := hnodup
    rw [ids_append, List.nodup_append'] at hparts
    obtain ⟨hscope, hsettled, hmethod⟩ := settled_methodScope hvalid howner hparts.1
      (fun i hi => hfresh i (by rw [ids_append]; exact List.mem_append_left _ hi))
      ((keepsErrors_methodScopes owner _ methods).clean hclean)
    obtain ⟨hsettled', scopes, hscopes, hmethods⟩ := ih hsettled.valid
      (howner.trans_le hsettled.keeps.grows.scopeCount_le) hparts.2.1 (hsettled.fresh hnodup hfresh) hclean
    rw [hsplit]
    refine ⟨hsettled.append hsettled', d.table.scopeCount :: scopes, ?_, fun later hlater => ?_⟩
    · rw [hscopes, Array.toList_push, hscope, List.append_assoc]
      rfl
    · exact .cons (hmethod later (hsettled'.keeps.trans hlater)) (hmethods later hlater)

/-! ## Classes -/

/-- The scope of a class as it is made. -/
def newClassScope (name : Ident) (superclass : Option String) (span : Span) : Scope :=
  { kind := .classDef, name := name.name, parent := some unitScope, span := span,
    superclass := superclass }

theorem classScope_apply (name : Ident) (superclass : Option String) (fields : List Ident) (span : Span)
    (d : Declarations) :
    classScope name superclass fields span d = (d.table.scopeCount,
      (declareAll d.table.scopeCount .field fields
        (declare unitScope .classDef name (some d.table.scopeCount)
          { d with table := d.table.push (newClassScope name superclass span) }).2).2) := rfl

theorem classScope_fst (name : Ident) (superclass : Option String) (fields : List Ident) (span : Span)
    (d : Declarations) : (classScope name superclass fields span d).1 = d.table.scopeCount := rfl

/-- Declaring a class makes a scope for it. -/
theorem opens_classScope {name : Ident} {superclass : Option String} {fields : List Ident} {span : Span}
    (hvalid : d.table.Valid) (hclean : (classScope name superclass fields span d).2.errors = #[]) :
    Opens (newClassScope name superclass span) ((namesOf fields).map fun x => (.field, x)) d.blocks
      [(name.name, some d.table.scopeCount)] d (classScope name superclass fields span d).2 := by
  rw [classScope_apply] at hclean ⊢
  have hopens := opens_declare hvalid ⟨rfl, rfl, rfl⟩ hvalid.unit_lt rfl rfl (fun _ _ h => h)
    ((keepsErrors_declareAll _ _ _).clean hclean)
  rw [newClasses, if_pos ⟨rfl, rfl⟩] at hopens
  exact hopens.declareAll rfl (by decide) hclean

theorem isClassScope_of_opens {name : Ident} {superclass : Option String} {fields : List String}
    {span : Span} {blocks : Std.TreeMap Nat ScopeId} {cs : List (String × Option ScopeId)}
    {d' later : Declarations}
    (hopens : Opens (newClassScope name superclass span) (fields.map fun x => (.field, x)) blocks cs d d')
    (hlater : Keeps d' later) :
    later.table.IsClassScope d.table.scopeCount ⟨name.name, superclass, fields⟩ := by
  have hhead := (hlater.grows.head_eq _ hopens.scope_lt).trans hopens.head_new
  exact {
    kind_eq := Scope.field_eq_of_head_eq hhead Scope.kind fun _ => rfl
    name_eq := Scope.field_eq_of_head_eq hhead Scope.name fun _ => rfl
    parent_eq := Scope.field_eq_of_head_eq hhead Scope.parent fun _ => rfl
    superclass_eq := Scope.field_eq_of_head_eq hhead Scope.superclass fun _ => rfl
    hasFields := (hlater.grows.variablesOf_eq _ hopens.scope_lt).trans hopens.variablesOf_new }

theorem settled_of_opens {new : Scope} {l : List (SymbolKind × String)}
    {cs : List (String × Option ScopeId)} {d' : Declarations} (h : Opens new l d.blocks cs d d') :
    Settled [] cs d d' :=
  ⟨h.valid, .of_opens h, h.classesOf_eq, fun _ _ => by rw [h.blocks_eq]⟩

end DeclareM

/-- A class and its methods have the given scopes. -/
def ScopeTable.HoldsClass (t : ScopeTable) (blockScopes : Std.TreeMap Nat ScopeId)
    (entry : ScopeId × List ScopeId) (c : ClassDef) : Prop :=
  t.IsClassScope entry.1 c.header ∧ List.Forall₂ (t.IsScopeOf blockScopes entry.1) entry.2 c.methods

/-- Classes as they are declared. -/
def classList (entries : List (ScopeId × List ScopeId)) (classes : List ClassDef) :
    List (String × Option ScopeId) :=
  List.zipWith (fun entry c => (c.name.name, some entry.1)) entries classes

namespace DeclareM

open Declarations Smalltalk.Expr

/-- What going through classes leaves behind: scopes for them, which are new. -/
structure DeclaredClasses (classes : List ClassDef) (entries : List (ScopeId × List ScopeId))
    (d d' : Declarations) : Prop where
  settled : Settled (statementsOfClasses classes) (classList entries classes) d d'
  holdsClass : ∀ later, Keeps d' later →
    List.Forall₂ (later.table.HoldsClass later.blocks) entries classes
  scope_ge : ∀ entry ∈ entries, d.table.scopeCount ≤ entry.1
  scope_lt : ∀ entry ∈ entries, entry.1 < d'.table.scopeCount
  nodup_scopes : (entries.map (·.1)).Nodup

namespace DeclaredClasses

variable {cs cs' : List ClassDef} {es es' : List (ScopeId × List ScopeId)} {d d' d'' : Declarations}

theorem nil (hvalid : d.table.Valid) : DeclaredClasses [] [] d d :=
  ⟨.refl hvalid, fun _ _ => .nil, fun _ h => absurd h List.not_mem_nil,
    fun _ h => absurd h List.not_mem_nil, List.nodup_nil⟩

theorem append (h : DeclaredClasses cs es d d') (h' : DeclaredClasses cs' es' d' d'') :
    DeclaredClasses (cs ++ cs') (es ++ es') d d'' := by
  have hlength := (h.holdsClass d' (.refl d')).length_eq
  have hle := h.settled.keeps.grows.scopeCount_le
  have hle' := h'.settled.keeps.grows.scopeCount_le
  refine ⟨?_, fun later hlater => ?_, fun entry he => ?_, fun entry he => ?_, ?_⟩
  · have hsettled := h.settled.append h'.settled
    rw [classList, classList, ← List.zipWith_append hlength] at hsettled
    rw [statementsOfClasses, List.flatMap_append]
    exact hsettled
  · exact List.rel_append (h.holdsClass later (h'.settled.keeps.trans hlater)) (h'.holdsClass later hlater)
  · rcases List.mem_append.mp he with he | he
    · exact h.scope_ge entry he
    · exact hle.trans (h'.scope_ge entry he)
  · rcases List.mem_append.mp he with he | he
    · exact (h.scope_lt entry he).trans_le hle'
    · exact h'.scope_lt entry he
  · rw [List.map_append, List.nodup_append']
    refine ⟨h.nodup_scopes, h'.nodup_scopes, fun s hs hs' => ?_⟩
    obtain ⟨entry, he, rfl⟩ := List.mem_map.mp hs
    obtain ⟨entry', he', heq⟩ := List.mem_map.mp hs'
    have hlt := (h.scope_lt entry he).trans_le (h'.scope_ge entry' he')
    exact Nat.ne_of_gt hlt heq

/-- A class whose scope has been made, and whose methods have been gone through. -/
theorem singleton {name : Ident} {span : Span} {c : ClassDef} {scopes : List ScopeId}
    (hname : c.name.name = name.name)
    (hopens : Opens (newClassScope name c.superclassName span)
      ((namesOf c.fields).map fun x => (.field, x)) d.blocks [(name.name, some d.table.scopeCount)] d d')
    (hsettled : Settled (statementsOfMethods c.methods) [] d' d'')
    (hmethods : ∀ later, Keeps d'' later →
      List.Forall₂ (later.table.IsScopeOf later.blocks d.table.scopeCount) scopes c.methods) :
    DeclaredClasses [c] [(d.table.scopeCount, scopes)] d d'' := by
  refine ⟨?_, fun later hlater => ?_, fun entry he => ?_, fun entry he => ?_, List.nodup_singleton _⟩
  · have h := (settled_of_opens hopens).append hsettled
    rw [List.nil_append, List.append_nil, ← hname] at h
    rw [statementsOfClasses, List.flatMap_singleton]
    exact h
  · refine .cons ⟨?_, hmethods later hlater⟩ .nil
    rw [ClassDef.header, hname]
    exact isClassScope_of_opens hopens (hsettled.keeps.trans hlater)
  · rw [List.mem_singleton.mp he]
  · rw [List.mem_singleton.mp he]
    exact hopens.scope_lt.trans_le hsettled.keeps.grows.scopeCount_le

end DeclaredClasses

variable {d : Declarations}

theorem declaredClasses_classScopes {classes : List ClassDef} {done : Array (ScopeId × List ScopeId)}
    (hvalid : d.table.Valid) (hnodup : (ids (statementsOfClasses classes)).Nodup)
    (hfresh : ∀ i ∈ ids (statementsOfClasses classes), d.blocks[i]? = none)
    (hclean : (classScopes done classes d).2.errors = #[]) :
    ∃ entries, (classScopes done classes d).1 = done.toList ++ entries ∧
      DeclaredClasses classes entries d (classScopes done classes d).2 := by
  induction classes generalizing d done with
  | nil => exact ⟨[], (List.append_nil _).symm, .nil hvalid⟩
  | cons c classes ih =>
    rw [classScopes, bind_apply, bind_apply, classScope_fst] at hclean ⊢
    have hsplit : statementsOfClasses (c :: classes)
        = statementsOfMethods c.methods ++ statementsOfClasses classes := List.flatMap_cons
    rw [hsplit] at hnodup hfresh
    have hparts := hnodup
    rw [ids_append, List.nodup_append'] at hparts
    have hclean₂ := (keepsErrors_classScopes _ _).clean hclean
    have hopens := opens_classScope hvalid ((keepsErrors_methodScopes _ _ _).clean hclean₂)
    obtain ⟨hsettled, scopes, hscopes, hmethods⟩ := settled_methodScopes hopens.valid hopens.scope_lt
      hparts.1 (fun i hi => by
        rw [hopens.blocks_eq]
        exact hfresh i (by rw [ids_append]; exact List.mem_append_left _ hi)) hclean₂
    have hclass : DeclaredClasses [c] [(d.table.scopeCount, scopes)] d _ :=
      .singleton rfl hopens hsettled hmethods
    obtain ⟨entries, hentries, hrest⟩ := ih hclass.settled.valid hparts.2.1
      (hclass.settled.fresh (by simpa [statementsOfClasses] using hnodup)
        (by simpa [statementsOfClasses] using hfresh)) hclean
    refine ⟨(d.table.scopeCount, scopes) :: entries, ?_, hclass.append hrest⟩
    rw [hentries, hscopes, Array.toList_push, List.append_assoc]
    rfl

theorem mainScopes_of_isEmpty {u : SourceUnit} (hempty : u.main.isEmpty) (d : Declarations) :
    mainScopes u d = (none, d) := by
  rw [mainScopes, if_pos hempty]
  rfl

/-- A main program is declared as a method of a class of its own. -/
theorem mainScopes_of_not_isEmpty {u : SourceUnit} (hempty : ¬ u.main.isEmpty) (d : Declarations) :
    ∃ span, mainScopes u d =
      (some (d.table.scopeCount, (methodScope d.table.scopeCount ⟨mainMethodName, span⟩ [] false
          (.code u.main) (classScope ⟨mainClassName, span⟩ (some mainSuperclassName) [] span d).2).1),
        (methodScope d.table.scopeCount ⟨mainMethodName, span⟩ [] false (.code u.main)
          (classScope ⟨mainClassName, span⟩ (some mainSuperclassName) [] span d).2).2) := by
  unfold mainScopes
  extract_lets span
  rw [if_neg hempty]
  refine ⟨span, ?_⟩
  rw [bind_apply, bind_apply, classScope_fst]
  rfl

theorem declaredClasses_mainScopes {u : SourceUnit} (hvalid : d.table.Valid)
    (hnodup : (ids u.main.statements).Nodup) (hfresh : ∀ i ∈ ids u.main.statements, d.blocks[i]? = none)
    (hclean : (mainScopes u d).2.errors = #[]) :
    DeclaredClasses u.mainClass?.toList
      ((mainScopes u d).1.map fun (owner, method) => (owner, [method])).toList d (mainScopes u d).2 := by
  unfold SourceUnit.mainClass?
  by_cases hempty : u.main.isEmpty
  · rw [if_pos hempty, mainScopes_of_isEmpty hempty]
    exact .nil hvalid
  · obtain ⟨span, hmain⟩ := mainScopes_of_not_isEmpty hempty d
    rw [hmain] at hclean ⊢
    rw [if_neg hempty]
    simp only [Option.map_some, Option.toList_some] at hclean ⊢
    have hopens := opens_classScope hvalid ((keepsErrors_methodScope _ _ _ _ _).clean hclean)
    have hfresh' : ∀ i ∈ ids (MethodBody.code u.main).statements,
        (classScope ⟨mainClassName, span⟩ (some mainSuperclassName) [] span d).2.blocks[i]? = none := by
      rw [hopens.blocks_eq]
      exact hfresh
    obtain ⟨hscope, hsettled, hmethod⟩ := @settled_methodScope d.table.scopeCount ⟨mainMethodName, span⟩ []
      false _ (.code u.main) hopens.valid hopens.scope_lt hnodup hfresh' hclean
    refine .singleton rfl hopens ?_ fun later hlater => ?_
    · rw [statementsOfMethods, List.flatMap_singleton]
      exact hsettled
    · rw [hscope]
      exact .cons (hmethod later hlater) .nil

end DeclareM

/-! ## Units -/

/-- The scopes of the classes of a unit and of their methods. -/
def ScopeMap.classEntries (m : ScopeMap) : List (ScopeId × List ScopeId) := m.classes.zip m.methods

/-- The scopes of the main program. -/
def ScopeMap.mainEntries (m : ScopeMap) : List (ScopeId × List ScopeId) :=
  (m.main.map fun (owner, method) => (owner, [method])).toList

/-- A table holds a unit, and the given scopes are those of its classes, methods and blocks. -/
structure ScopeTable.HoldsUnit (t : ScopeTable) (scopes : ScopeMap) (u : SourceUnit) : Prop where
  valid : t.Valid
  unit_kind : (t.scope unitScope).kind = .unit
  length_classes : scopes.classes.length = u.classes.length
  length_methods : scopes.methods.length = u.classes.length
  classesOf_eq : t.classesOf = classList (scopes.classEntries ++ scopes.mainEntries) u.allClasses
  nodup_scopes : ((scopes.classEntries ++ scopes.mainEntries).map (·.1)).Nodup
  holdsClass : List.Forall₂ (t.HoldsClass scopes.blocks) scopes.classEntries u.classes
  holdsMain : List.Forall₂ (t.HoldsClass scopes.blocks) scopes.mainEntries u.mainClass?.toList

theorem declareUnit_eq (u : SourceUnit) : declareUnit u =
    { table := (DeclareM.mainScopes u (DeclareM.classScopes #[] u.classes {}).2).2.table
      scopes :=
        { classes := (DeclareM.classScopes #[] u.classes {}).1.map (·.1)
          methods := (DeclareM.classScopes #[] u.classes {}).1.map (·.2)
          main := (DeclareM.mainScopes u (DeclareM.classScopes #[] u.classes {}).2).1
          blocks := (DeclareM.mainScopes u (DeclareM.classScopes #[] u.classes {}).2).2.blocks }
      errors := (DeclareM.mainScopes u (DeclareM.classScopes #[] u.classes {}).2).2.errors.toList } := rfl

section Unit

open DeclareM Smalltalk.Expr

/-- What declaring a unit reports is about the source text. -/
theorem not_isInternal_of_mem_declareUnit {u : SourceUnit} :
    ∀ e ∈ (declareUnit u).errors, e.isInternal = false := by
  rw [declareUnit_eq]
  obtain ⟨new, hnew, hsource⟩ := keepsErrors_classScopes #[] u.classes {}
  obtain ⟨new', hnew', hsource'⟩ := keepsErrors_mainScopes u (classScopes #[] u.classes {}).2
  simp only [hnew', hnew]
  exact List.forall_mem_append.mpr ⟨hsource, hsource'⟩

/-- A unit that is declared without errors is laid out in the table. -/
theorem holdsUnit_declareUnit {u : SourceUnit} (hnodup : (ids u.statements).Nodup)
    (hclean : (declareUnit u).errors = []) :
    (declareUnit u).table.HoldsUnit (declareUnit u).scopes u := by
  rw [declareUnit_eq] at hclean ⊢
  have hclean₂ : (mainScopes u (classScopes #[] u.classes {}).2).2.errors = #[] :=
    Array.toList_eq_nil_iff.mp hclean
  have hsplit := hnodup
  rw [SourceUnit.statements, ids_append, List.nodup_append'] at hsplit
  have hempty : ∀ i : Nat, ({} : Declarations).blocks[i]? = none := fun i => Std.TreeMap.getElem?_emptyc
  obtain ⟨entries, hentries, hclasses⟩ := declaredClasses_classScopes valid_empty hsplit.1
    (fun i _ => hempty i) ((keepsErrors_mainScopes u).clean hclean₂)
  have hmain := declaredClasses_mainScopes hclasses.settled.valid hsplit.2.1
    (hclasses.settled.fresh hnodup fun i _ => hempty i) hclean₂
  have hall := hclasses.append hmain
  rw [List.nil_append] at hentries
  have hzip : ((classScopes #[] u.classes {}).1.map (·.1)).zip ((classScopes #[] u.classes {}).1.map (·.2))
      = entries := by
    rw [List.zip_map', hentries]
    exact List.map_id' entries
  have hkind := hall.settled.keeps.grows.head_field Scope.kind (fun _ => rfl) Nat.zero_lt_one
  have hlength := (hclasses.holdsClass _ (.refl _)).length_eq
  refine ⟨hall.settled.valid, hkind, ?_, ?_, ?_, ?_, ?_, ?_⟩
  · rw [List.length_map, hentries, hlength]
  · rw [List.length_map, hentries, hlength]
  · rw [ScopeMap.classEntries, hzip]
    exact hall.settled.classesOf_eq
  · rw [ScopeMap.classEntries, hzip]
    exact hall.nodup_scopes
  · rw [ScopeMap.classEntries, hzip]
    exact hclasses.holdsClass (mainScopes u (classScopes #[] u.classes {}).2).2 hmain.settled.keeps
  · exact hmain.holdsClass (mainScopes u (classScopes #[] u.classes {}).2).2 (.refl _)

end Unit

end Smalltalk
