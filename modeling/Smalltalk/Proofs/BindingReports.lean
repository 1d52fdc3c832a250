import Mathlib
import Smalltalk.Proofs.FieldLayout

/-!
# What is wrong with the names of a unit

What the stages before code generation complain about can be read off the source. Besides the
declarations these are classes that inherit from themselves, names that refer to nothing known, and
assignments to what is no variable. The main statement is that there is nothing to complain about exactly
if nothing of this is found in the source, where no scope or symbol is mentioned.
-/

namespace Smalltalk

open ScopeTable

/-! ## Expressions -/

namespace Expr

section Errors

variable (unknown : String → Bool)

/-- The error about a name that refers to nothing known. -/
def nameErrors (s : Surroundings) (info : NodeInfo) (x : String) : List Diagnostic :=
  if s.refer x = .global ∧ unknown x then [.unresolved x info.span] else []

/-- The errors about the target of an assignment. -/
def targetErrors (s : Surroundings) : Expr → List Diagnostic
  | name info x => nameErrors unknown s info x
    ++ if s.refer x = .global then [.notAssignable x info.span] else []
  | e => [.internal (.targetIsNoName e.span)]

mutual

/-- What is wrong with the names in an expression. The number `k` of the first block that is still to
come only serves to name the surroundings. -/
def bindingErrors (s : Surroundings) (k : Nat) : Expr → List Diagnostic
  | atom _ _ => []
  | name info x => nameErrors unknown s info x
  | array _ items => bindingErrorsOfAll s k items
  | block _ params locals statements _ =>
    bindingErrorsOfAll (s.enter k (namesOf params ++ namesOf locals)) (k + 1) statements
  | send _ receiver _ arguments =>
    receiver.bindingErrors s k ++ bindingErrorsOfAll s (k + receiver.blockCount) arguments
  | superSend _ _ arguments => bindingErrorsOfAll s k arguments
  | assign _ target value =>
    value.bindingErrors s (k + target.blockCount) ++ target.targetErrors unknown s
  | ret _ value => value.bindingErrors s k

/-- What is wrong with the names in several expressions. -/
def bindingErrorsOfAll (s : Surroundings) (k : Nat) : List Expr → List Diagnostic
  | [] => []
  | e :: es => e.bindingErrors s k ++ bindingErrorsOfAll s (k + e.blockCount) es

end

end Errors

end Expr

theorem ScopeTable.Denotes.eq_global_iff {t : ScopeTable} {b : Binding} {r : Reference}
    (h : t.Denotes b r) : b = .global ↔ r = .global := by
  cases b <;> cases r <;> first | exact h.elim | simp

/-- The table has expressions of a method of the class at `owner` in the given surroundings. -/
structure ResolveContext.Located (ctx : ResolveContext) (owner scope : ScopeId) (s : Surroundings)
    (k : Nat) (es : List Expr) : Prop where
  valid : ctx.table.Valid
  owner_kind : (ctx.table.scope owner).kind = .classDef
  owner_parent : (ctx.table.scope owner).parent = some unitScope
  layers_eq : ∃ rest, Chain ctx.table owner rest ∧
    List.Forall₂ ctx.table.HasFields (owner :: rest) s.layers
  stands : Stands ctx.table owner scope s
  frames_le : s.frames.length ≤ k + 1
  count_le : k + Expr.blockCountOfAll es ≤ counterLimit
  laid : Expr.LaidAll ctx.table ctx.blocks s.method scope k es

namespace ResolveContext.Located

open Smalltalk.Expr

variable {ctx : ResolveContext} {owner scope : ScopeId} {s : Surroundings} {k : Nat}

theorem head {e : Expr} {es : List Expr} (h : ctx.Located owner scope s k (e :: es)) :
    ctx.Located owner scope s k [e] := by
  have hcount := h.count_le
  have hlaid := h.laid
  rw [blockCountOfAll] at hcount
  rw [LaidAll] at hlaid
  refine { h with count_le := ?_, laid := ?_ }
  · rw [blockCountOfAll, blockCountOfAll]
    omega
  · rw [LaidAll, LaidAll]
    exact ⟨hlaid.1, trivial⟩

theorem tail {e : Expr} {es : List Expr} (h : ctx.Located owner scope s k (e :: es)) :
    ctx.Located owner scope s (k + e.blockCount) es := by
  have hframes := h.frames_le
  have hcount := h.count_le
  have hlaid := h.laid
  rw [blockCountOfAll] at hcount
  rw [LaidAll] at hlaid
  exact { h with frames_le := by omega, count_le := by omega, laid := hlaid.2 }

theorem children {e : Expr} (h : ctx.Located owner scope s k [e]) (he : e.isBlock = false) :
    ctx.Located owner scope s k e.children := by
  have hcount := h.count_le
  have hlaid := h.laid
  rw [blockCountOfAll, blockCountOfAll, Nat.add_zero, blockCount_eq_children he] at hcount
  rw [LaidAll, laid_iff_children he] at hlaid
  exact { h with count_le := hcount, laid := hlaid.1 }

theorem block {info : NodeInfo} {params locals : List Ident} {statements : List Expr} {close : Span}
    (h : ctx.Located owner scope s k [.block info params locals statements close]) :
    ∃ inner, ctx.blocks[info.id]? = some inner ∧
      ctx.Located owner inner (s.enter k (namesOf params ++ namesOf locals)) (k + 1) statements := by
  have hcount := h.count_le
  have hlaid := h.laid
  rw [blockCountOfAll, blockCountOfAll, blockCount] at hcount
  rw [LaidAll, Laid] at hlaid
  obtain ⟨⟨inner, hinner, hscope, hlaid⟩, -⟩ := hlaid
  refine ⟨inner, hinner, h.valid, h.owner_kind, h.owner_parent, h.layers_eq, ?_, ?_, by omega, hlaid⟩
  · exact .block hscope.kind_eq hscope.parent_eq hscope.hasSlots hscope.name_eq h.stands
  · exact Nat.succ_le_succ h.frames_le

theorem bindingOf_eq_global_iff {es : List Expr} (h : ctx.Located owner scope s k es) (x : String) :
    ctx.table.bindingOf scope x = .global ↔ s.refer x = .global := by
  obtain ⟨rest, hchain, hlayers⟩ := h.layers_eq
  have hframes : s.frames.length ≤ counterLimit + 1 :=
    h.frames_le.trans (Nat.succ_le_succ ((Nat.le_add_right k _).trans h.count_le))
  exact (h.stands.denotes_bindingOf h.valid h.owner_kind h.owner_parent hchain hlayers hframes
    x).eq_global_iff

end ResolveContext.Located

namespace Expr

variable {ctx : ResolveContext} {unknown : String → Bool} {owner : ScopeId}

theorem complaintAboutName_eq
    (hunknown : ∀ x, unknown x = (ctx.strict && (ctx.table.lookupClass x).isNone))
    {scope : ScopeId} {s : Surroundings} {k : Nat} {es : List Expr}
    (h : ctx.Located owner scope s k es) (info : NodeInfo) (x : String) :
    complaintAboutName ctx scope info x = nameErrors unknown s info x := by
  simp only [complaintAboutName, nameErrors, hunknown, Bool.and_eq_true, h.bindingOf_eq_global_iff]

theorem targetComplaints_eq
    (hunknown : ∀ x, unknown x = (ctx.strict && (ctx.table.lookupClass x).isNone))
    {scope : ScopeId} {s : Surroundings} {k : Nat} {es : List Expr}
    (h : ctx.Located owner scope s k es) (e : Expr) :
    e.targetComplaints ctx scope = e.targetErrors unknown s := by
  cases e with
  | name info x =>
    rw [targetComplaints, targetErrors, complaintAboutName_eq hunknown h]
    simp only [h.bindingOf_eq_global_iff]
  | atom | array | block | send | superSend | assign | ret => rfl

theorem complaintsAboutAll_eq {es : List Expr}
    (h : ∀ e ∈ es, ∀ scope s k, ctx.Located owner scope s k [e] →
      e.complaints ctx scope = e.bindingErrors unknown s k)
    {scope : ScopeId} {s : Surroundings} {k : Nat} (hes : ctx.Located owner scope s k es) :
    complaintsAboutAll ctx scope es = bindingErrorsOfAll unknown s k es := by
  induction es generalizing k with
  | nil => rw [complaintsAboutAll, bindingErrorsOfAll]
  | cons e es ih =>
    rw [complaintsAboutAll, bindingErrorsOfAll, h e List.mem_cons_self scope s k hes.head,
      ih (fun e' he' => h e' (List.mem_cons_of_mem e he')) hes.tail]

/-- The complaints about an expression that has been laid out are the errors in its source. -/
theorem complaints_eq
    (hunknown : ∀ x, unknown x = (ctx.strict && (ctx.table.lookupClass x).isNone)) (e : Expr) :
    ∀ scope s k, ctx.Located owner scope s k [e] →
      e.complaints ctx scope = e.bindingErrors unknown s k := by
  induction e using tree_induction with
  | atom info value =>
    intro scope s k _
    rw [complaints, bindingErrors]
  | name info x =>
    intro scope s k h
    rw [complaints, bindingErrors, complaintAboutName_eq hunknown h]
  | array info items ih =>
    intro scope s k h
    rw [complaints, bindingErrors]
    exact complaintsAboutAll_eq ih (h.children rfl)
  | block info params locals statements close ih =>
    intro scope s k h
    obtain ⟨inner, hinner, hstatements⟩ := h.block
    rw [complaints, bindingErrors, hinner]
    exact complaintsAboutAll_eq ih hstatements
  | send info receiver selector arguments ihr iha =>
    intro scope s k h
    have hparts : ctx.Located owner scope s k (receiver :: arguments) := h.children rfl
    rw [complaints, bindingErrors, ihr scope s k hparts.head, complaintsAboutAll_eq iha hparts.tail]
  | superSend info selector arguments ih =>
    intro scope s k h
    rw [complaints, bindingErrors]
    exact complaintsAboutAll_eq ih (h.children rfl)
  | assign info target value iht ihv =>
    intro scope s k h
    have hparts : ctx.Located owner scope s k [target, value] := h.children rfl
    rw [complaints, bindingErrors, ihv scope s _ hparts.tail, targetComplaints_eq hunknown h]
  | ret info value ih =>
    intro scope s k h
    rw [complaints, bindingErrors]
    exact ih scope s k (h.children rfl)

end Expr

/-! ## Classes -/

/-- What is wrong with the names in a method of the class `owner`, whose fields and inherited fields are
`layers`. -/
def MethodDef.bindingErrors (unknown : String → Bool) (layers : List (List String)) (owner : String)
    (m : MethodDef) : List Diagnostic :=
  Expr.bindingErrorsOfAll unknown (m.surroundings none layers owner m.body.locals) 0 m.body.statements

/-- What is wrong with the names in a class among the classes of its unit. -/
def ClassDef.bindingErrors (unknown : String → Bool) (classes : List ClassDef) (c : ClassDef) :
    List Diagnostic :=
  c.methods.flatMap (MethodDef.bindingErrors unknown (c.layers classes) c.name.name)

/-- A method that has been laid out has slots for its names and scopes for its blocks. -/
theorem ScopeTable.IsScopeOf.holdsStatements {t : ScopeTable} {blocks : Std.TreeMap Nat ScopeId}
    {owner scope : ScopeId} {m : MethodDef} (h : t.IsScopeOf blocks owner scope m) :
    t.HasSlots scope (namesOf m.params) (namesOf m.body.locals) ∧
      Expr.blockCountOfAll m.body.statements ≤ counterLimit ∧
      Expr.LaidAll t blocks m.selector.name scope 0 m.body.statements := by
  have hholds := h.holdsBody
  cases hbody : m.body with
  | primitive name =>
    rw [hbody] at hholds
    simp only [MethodBody.statements, Expr.blockCountOfAll, Expr.LaidAll]
    exact ⟨hholds.2, Nat.zero_le _, trivial⟩
  | code body =>
    rw [hbody] at hholds
    exact ⟨hholds.2.1, hholds.2.2.2.1, hholds.2.2.2.2⟩

/-- A method that has been laid out stands in its surroundings. -/
theorem ScopeTable.IsScopeOf.located {ctx : ResolveContext} {owner scope : ScopeId} {m : MethodDef}
    (h : ctx.table.IsScopeOf ctx.blocks owner scope m) (hvalid : ctx.table.Valid) {c : ClassHeader}
    (hclass : ctx.table.IsClassScope owner c) {rest : List ScopeId} (hchain : Chain ctx.table owner rest)
    {layers : List (List String)} (hlayers : List.Forall₂ ctx.table.HasFields (owner :: rest) layers) :
    ctx.Located owner scope (m.surroundings none layers c.name m.body.locals) 0 m.body.statements := by
  have hslots := h.holdsStatements
  refine ⟨hvalid, hclass.kind_eq, hclass.parent_eq, ⟨rest, hchain, hlayers⟩, ?_, le_rfl, ?_, hslots.2.2⟩
  · exact .method h.kind_eq h.parent_eq hslots.1 rfl h.name_eq.symm
      (by rw [h.name_eq, hclass.name_eq]; rfl)
  · rw [Nat.zero_add]
    exact hslots.2.1

theorem flatMap_zip_eq {α β γ : Type} {as : List α} {bs : List β} {f : α × β → List γ} {g : α → List γ}
    (hlength : as.length = bs.length) (h : ∀ entry ∈ as.zip bs, f entry = g entry.1) :
    (as.zip bs).flatMap f = as.flatMap g := by
  rw [List.flatMap_congr h, ← List.flatMap_map, List.map_fst_zip hlength.le]

/-! ## Classes that inherit from themselves -/

/-- Among some classes, the one called `x` extends the one called `y`. -/
def DirectlyExtends (classes : List ClassHeader) (x y : String) : Prop :=
  ∃ c ∈ classes, c.name = x ∧ c.superclass = some y

/-- No class inherits from itself. -/
def Acyclic (classes : List ClassHeader) : Prop := ∀ x, ¬ Relation.TransGen (DirectlyExtends classes) x x

namespace ScopeTable.HoldsClasses

variable {t : ScopeTable} {entries : List (ScopeId × ClassHeader)} {c d : ScopeId} {a b : ClassHeader}

theorem superclassScope_eq_some_iff (ht : t.Valid) (h : t.HoldsClasses entries) (ha : (c, a) ∈ entries) :
    t.superclassScope c = some d ↔ ∃ b, (d, b) ∈ entries ∧ a.superclass = some b.name := by
  rw [superclassScope, (h.isClassScope _ ha).superclass_eq, Option.bind_eq_some_iff]
  simp only [h.lookupClass_eq_some_iff ht]
  constructor
  · rintro ⟨x, hx, b, hb, rfl⟩
    exact ⟨b, hb, hx⟩
  · rintro ⟨b, hb, hx⟩
    exact ⟨b.name, hx, b, hb, rfl⟩

theorem transGen_of_stepsUp (ht : t.Valid) (h : t.HoldsClasses entries) {n : Nat}
    (ha : (c, a) ∈ entries) (hsteps : t.stepsUp (n + 1) c = some d) :
    ∃ b, (d, b) ∈ entries ∧ Relation.TransGen (DirectlyExtends (entries.map (·.2))) a.name b.name := by
  have hstep : ∀ {c a d}, (c, a) ∈ entries → t.superclassScope c = some d →
      ∃ b, (d, b) ∈ entries ∧ DirectlyExtends (entries.map (·.2)) a.name b.name := by
    intro c a d ha hd
    obtain ⟨b, hb, hname⟩ := (h.superclassScope_eq_some_iff ht ha).mp hd
    exact ⟨b, hb, a, List.mem_map_of_mem ha, rfl, hname⟩
  induction n generalizing c a with
  | zero =>
    rw [stepsUp_one] at hsteps
    obtain ⟨b, hb, hextends⟩ := hstep ha hsteps
    exact ⟨b, hb, .single hextends⟩
  | succ n ih =>
    obtain ⟨e, he, hrest⟩ := Option.bind_eq_some_iff.mp hsteps
    obtain ⟨b, hb, hextends⟩ := hstep ha he
    obtain ⟨b', hb', hpath⟩ := ih hb hrest
    exact ⟨b', hb', .head hextends hpath⟩

theorem stepsUp_of_transGen (ht : t.Valid) (h : t.HoldsClasses entries) {x y : String}
    (hpath : Relation.TransGen (DirectlyExtends (entries.map (·.2))) x y) (ha : (c, a) ∈ entries)
    (hx : a.name = x) (hb : (d, b) ∈ entries) (hy : b.name = y) :
    ∃ n, t.stepsUp (n + 1) c = some d := by
  have hstep : ∀ {c a d b}, (c, a) ∈ entries → (d, b) ∈ entries →
      DirectlyExtends (entries.map (·.2)) a.name b.name → t.superclassScope c = some d := by
    rintro c a d b ha hb ⟨a', ha', hname, hsuperclass⟩
    obtain ⟨⟨c', a'⟩, hentry, rfl⟩ := List.mem_map.mp ha'
    obtain rfl := h.scope_eq_of_name_eq ht hentry ha hname
    rw [h.eq_of_scope_eq hentry ha] at hsuperclass
    exact (h.superclassScope_eq_some_iff ht ha).mpr ⟨b, hb, hsuperclass⟩
  subst hx
  induction hpath generalizing d b with
  | single hextends =>
    subst hy
    refine ⟨0, ?_⟩
    rw [stepsUp_one]
    exact hstep ha hb hextends
  | tail _ hextends ih =>
    subst hy
    -- the class in the middle is in the unit, since it extends another one
    obtain ⟨e, he, rfl, -⟩ := id hextends
    obtain ⟨⟨s, e⟩, hentry, rfl⟩ := List.mem_map.mp he
    obtain ⟨n, hn⟩ := ih hentry rfl
    refine ⟨n + 1, ?_⟩
    rw [stepsUp_add, hn, Option.bind_some, stepsUp_one]
    exact hstep hentry hb hextends

/-- Nothing in the table is on a cycle exactly if no class inherits from itself by name. -/
theorem acyclic_iff (ht : t.Valid) (h : t.HoldsClasses entries) :
    (∀ c n, t.stepsUp (n + 1) c ≠ some c) ↔ Acyclic (entries.map (·.2)) := by
  constructor
  · intro hacyclic x hpath
    obtain ⟨a, ha, rfl, -⟩ := (Relation.TransGen.head'_iff.mp hpath).choose_spec.1
    obtain ⟨⟨c, a⟩, hentry, rfl⟩ := List.mem_map.mp ha
    obtain ⟨n, hn⟩ := h.stepsUp_of_transGen ht hpath hentry rfl hentry rfl
    exact hacyclic c n hn
  · intro hacyclic c n hn
    -- a class that is above another one is in the unit
    have hentry : ∃ a, (c, a) ∈ entries := by
      rw [stepsUp_add, Option.bind_eq_some_iff] at hn
      obtain ⟨d, -, hd⟩ := hn
      rw [stepsUp_one, superclassScope, Option.bind_eq_some_iff] at hd
      obtain ⟨x, -, hlookup⟩ := hd
      obtain ⟨a, ha, -⟩ := (h.lookupClass_eq_some_iff ht).mp hlookup
      exact ⟨a, ha⟩
    obtain ⟨a, ha⟩ := hentry
    obtain ⟨b, hb, hpath⟩ := h.transGen_of_stepsUp ht ha hn
    rw [h.eq_of_scope_eq hb ha] at hpath
    exact hacyclic a.name hpath

end ScopeTable.HoldsClasses

/-! ## Units -/

namespace SourceUnit

variable {u : SourceUnit} {options : CompileOptions}

/-- Whether a name that no declaration explains is an error: if asked for, unless it is the name of a
class. -/
def isUnknown (u : SourceUnit) (options : CompileOptions) (x : String) : Bool :=
  options.strictGlobals && u.allClasses.all (·.name.name ≠ x)

theorem isUnknown_eq (hunit : (declareUnit u).table.HoldsUnit (declareUnit u).scopes u) (x : String) :
    u.isUnknown options x
      = ((u.generateContext options).resolveContext.strict &&
        ((u.generateContext options).resolveContext.table.lookupClass x).isNone) := by
  have hlookup : ((declareUnit u).table.lookupClass x).isNone = u.allClasses.all (·.name.name ≠ x) := by
    rw [Bool.eq_iff_iff, Option.isNone_iff_eq_none, Option.eq_none_iff_forall_ne_some, List.all_eq_true]
    constructor
    · intro h c hc
      have hheader := List.mem_map_of_mem (f := ClassDef.header) hc
      rw [← hunit.map_snd_zip_headers] at hheader
      obtain ⟨⟨s, a⟩, hentry, heq⟩ := List.mem_map.mp hheader
      refine decide_eq_true fun hname => h s ?_
      refine (hunit.holdsClasses.lookupClass_eq_some_iff hunit.valid).mpr ⟨a, hentry, ?_⟩
      rw [show a = c.header from heq]
      exact hname
    · intro h s hs
      obtain ⟨a, ha, rfl⟩ := (hunit.holdsClasses.lookupClass_eq_some_iff hunit.valid).mp hs
      obtain ⟨c, hc, rfl⟩ := List.mem_map.mp (List.of_mem_zip ha).2
      exact of_decide_eq_true (h c hc) rfl
  rw [isUnknown, ← hlookup]
  rfl

/-- Without cycles, the complaints about the names of a unit are the errors in its source. -/
theorem complaintsAboutClasses_eq (hunit : (declareUnit u).table.HoldsUnit (declareUnit u).scopes u)
    (hacyclic : ∀ c n, (declareUnit u).table.stepsUp (n + 1) c ≠ some c) :
    complaintsAboutClasses (u.generateContext options).resolveContext
        (u.classes.zip (declareUnit u).scopes.methods)
      ++ u.mainComplaints (u.generateContext options).resolveContext (declareUnit u).scopes.main
      = u.allClasses.flatMap (ClassDef.bindingErrors (u.isUnknown options) u.allClasses) := by
  refine (hunit.flatMap_statements (Expr.complaintsAboutAll _)).trans ?_
  have hholds := List.forall₂_iff_zip.mp hunit.forall₂_holdsClass
  refine flatMap_zip_eq (by rw [List.length_map, hholds.1]) ?_
  rintro ⟨c, scopes⟩ hmem
  rw [List.zip_map_right, List.mem_map] at hmem
  obtain ⟨⟨c, entry⟩, hmem, heq⟩ := hmem
  cases heq
  obtain ⟨hclass, hmethods⟩ := hholds.2 (mem_zip_swap hmem)
  have hheader : (entry.1, c.header) ∈ ((declareUnit u).scopes.entries.map (·.1)).zip
      (u.allClasses.map ClassDef.header) := by
    rw [List.zip_map]
    exact List.mem_map_of_mem (mem_zip_swap hmem)
  obtain ⟨rest, hchain⟩ := hunit.valid.exists_chain hacyclic entry.1
  have hlayers := hunit.holdsClasses.forall₂_layers hunit.valid hchain hheader
  rw [hunit.map_snd_zip_headers] at hlayers
  refine flatMap_zip_eq hmethods.length_eq.symm ?_
  rintro ⟨m, scope⟩ hm
  have hscope : (u.generateContext options).resolveContext.table.IsScopeOf
      (u.generateContext options).resolveContext.blocks entry.1 scope m :=
    (List.forall₂_iff_zip.mp hmethods).2 (mem_zip_swap hm)
  exact Expr.complaintsAboutAll_eq (fun e _ => Expr.complaints_eq (isUnknown_eq hunit) e)
    (hscope.located hunit.valid hclass hchain hlayers)

theorem complaintsAboutCycles_eq_nil_iff
    (hunit : (declareUnit u).table.HoldsUnit (declareUnit u).scopes u) :
    complaintsAboutCycles (u.generateContext options).resolveContext
        (u.classes.zip (declareUnit u).scopes.classes) = [] ↔
      ∀ c n, (declareUnit u).table.stepsUp (n + 1) c ≠ some c := by
  refine ⟨fun h => hunit.acyclic (inheritsFromItself_of_complaintsAboutCycles h), fun h => ?_⟩
  refine List.flatMap_eq_nil_iff.mpr fun entry _ => if_neg fun hself => ?_
  obtain ⟨n, hn⟩ := stepsUp_of_inheritsFromItself hself
  exact h entry.2 n hn

/-- Units without complaints are those in whose source nothing is wrong: neither with the declarations nor
with the classes that classes extend nor with the names in their methods. -/
theorem complaints_eq_nil_iff (hnodup : (Expr.ids u.statements).Nodup) :
    u.complaints options = [] ↔
      u.declarationErrors = [] ∧ Acyclic (u.allClasses.map ClassDef.header) ∧
        ∀ c ∈ u.allClasses, c.bindingErrors (u.isUnknown options) u.allClasses = [] := by
  rw [complaints, List.append_eq_nil_iff, errors_resolveUnit, List.append_eq_nil_iff, ← errors_declareUnit]
  refine and_congr_right fun hdeclared => ?_
  have hunit := holdsUnit_declareUnit hnodup hdeclared
  have hacyclic := hunit.holdsClasses.acyclic_iff hunit.valid
  rw [hunit.map_snd_zip_headers] at hacyclic
  rw [complaintsAboutCycles_eq_nil_iff hunit, ← hacyclic]
  refine and_congr_right fun hsteps => ?_
  rw [complaintsAboutClasses_eq hunit hsteps, List.flatMap_eq_nil_iff]

end SourceUnit

end Smalltalk
