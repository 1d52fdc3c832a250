import Mathlib
import Smalltalk.Proofs.UnitLayout

/-!
# Names that have been registered

Whether a name can be declared in a scope depends on little: on the names that have been registered
there, and on how many of them are on the counter of the new one. What a declaration does and reports is
described here in these terms, whether it is accepted or refused, so that the reports about a whole unit
can be read off its source.
-/

namespace Smalltalk

/-- A declared name, as far as clashes and counters see it. -/
structure Registration where
  /-- What the name stands for. -/
  kind : SymbolKind
  /-- The names it can clash with. -/
  space : Namespace
  /-- The name. -/
  name : String
  deriving DecidableEq

namespace Registration

/-- Whether two names clash. -/
def clashes (r r' : Registration) : Bool := r.space = r'.space && r.name = r'.name

/-- How many names are on the counter of a name. -/
def onCounter (old : List Registration) (new : Registration) : Nat :=
  old.countP fun r => r.kind.counter = new.kind.counter

/-- What is wrong with declaring one more name in a scope that messages call `place`. -/
def complaints (place : String) (old : List Registration) (new : Registration) (span : Span) :
    List Diagnostic :=
  if old.any new.clashes then [.duplicate new.name place span]
  else if counterLimit ≤ new.onCounter old then [.limitExceeded (.counted new.kind.counter) span]
  else []

/-- The names of a scope after one more declaration; a name that is refused is not registered. -/
def register (old : List Registration) (new : Registration) : List Registration :=
  if old.any new.clashes then old
  else if counterLimit ≤ new.onCounter old then old
  else old ++ [new]

/-- What is wrong with declaring several names, one after the other. -/
def complaintsOfAll (place : String) : List Registration → List (Registration × Span) → List Diagnostic
  | _, [] => []
  | old, (new, span) :: news =>
    new.complaints place old span ++ complaintsOfAll place (register old new) news

/-- The names of a scope after several declarations. -/
def registerAll (old : List Registration) (news : List (Registration × Span)) : List Registration :=
  news.foldl (fun old new => register old new.1) old

theorem complaintsOfAll_append (place : String) (old : List Registration)
    (news news' : List (Registration × Span)) :
    complaintsOfAll place old (news ++ news')
      = complaintsOfAll place old news ++ complaintsOfAll place (registerAll old news) news' := by
  induction news generalizing old with
  | nil => rfl
  | cons new news ih =>
    rw [List.cons_append, complaintsOfAll, complaintsOfAll, ih, List.append_assoc]
    rfl

theorem registerAll_append (old : List Registration) (news news' : List (Registration × Span)) :
    registerAll old (news ++ news') = registerAll (registerAll old news) news' :=
  List.foldl_append

/-- If nothing is wrong, all names are registered. -/
theorem registerAll_of_complaintsOfAll {place : String} {old : List Registration}
    {news : List (Registration × Span)} (h : complaintsOfAll place old news = []) :
    registerAll old news = old ++ news.map (·.1) := by
  induction news generalizing old with
  | nil => exact (List.append_nil old).symm
  | cons new news ih =>
    rw [complaintsOfAll, List.append_eq_nil_iff] at h
    have hregister : register old new.1 = old ++ [new.1] := by
      have hfirst := h.1
      unfold complaints at hfirst
      unfold register
      split_ifs at hfirst ⊢
      rfl
    show registerAll (register old new.1) news = _
    rw [ih h.2, hregister, List.append_assoc]
    rfl

/-- What is wrong with declaring several names, if there are reports about what is behind each of them
as well. -/
def reportsOfAll (place : String) :
    List Registration → List ((Registration × Span) × List Diagnostic) → List Diagnostic
  | _, [] => []
  | old, ((new, span), inner) :: news =>
    new.complaints place old span ++ inner ++ reportsOfAll place (register old new) news

theorem reportsOfAll_append (place : String) (old : List Registration)
    (news news' : List ((Registration × Span) × List Diagnostic)) :
    reportsOfAll place old (news ++ news')
      = reportsOfAll place old news ++ reportsOfAll place (registerAll old (news.map (·.1))) news' := by
  induction news generalizing old with
  | nil => rfl
  | cons new news ih =>
    rw [List.cons_append, reportsOfAll, reportsOfAll, ih, ← List.append_assoc]
    rfl

theorem reportsOfAll_eq_nil_iff {place : String} {old : List Registration}
    {news : List ((Registration × Span) × List Diagnostic)} :
    reportsOfAll place old news = [] ↔
      complaintsOfAll place old (news.map (·.1)) = [] ∧ ∀ new ∈ news, new.2 = [] := by
  induction news generalizing old with
  | nil => simp [reportsOfAll, complaintsOfAll]
  | cons new news ih =>
    rw [reportsOfAll, List.map_cons, complaintsOfAll, List.append_eq_nil_iff, List.append_eq_nil_iff,
      List.append_eq_nil_iff, List.forall_mem_cons, ih]
    tauto

/-- Only names that are declared can be registered. -/
theorem mem_register {old : List Registration} {new r : Registration} (h : r ∈ register old new) :
    r ∈ old ∨ r = new := by
  unfold register at h
  split at h
  · exact Or.inl h
  · split at h
    · exact Or.inl h
    · simpa using h

theorem mem_registerAll {old : List Registration} {news : List (Registration × Span)} {r : Registration}
    (h : r ∈ registerAll old news) : r ∈ old ∨ r ∈ news.map (·.1) := by
  induction news generalizing old with
  | nil => exact Or.inl h
  | cons new news ih =>
    rcases ih h with hr | hr
    · rcases mem_register hr with hr | rfl
      · exact Or.inl hr
      · exact Or.inr List.mem_cons_self
    · exact Or.inr (List.mem_cons_of_mem _ hr)

end Registration

namespace ScopeTable

/-! ## Registrations in a table -/

/-- A symbol as a registration. -/
def registration (t : ScopeTable) (y : Symbol) : Registration :=
  ⟨y.kind, t.spaceOf y.kind y.defines, y.name⟩

/-- The registrations of a scope, in the order in which they were made. -/
def registrationsOf (t : ScopeTable) (s : ScopeId) : List Registration :=
  (t.symbolsOf s).map t.registration

variable {t t' : ScopeTable} {s : ScopeId}

theorem variablesOf_eq (t : ScopeTable) (s : ScopeId) : t.variablesOf s
    = ((t.registrationsOf s).filter (·.kind.isVariable)).map fun r => (r.kind, r.name) := by
  rw [variablesOf, registrationsOf, List.filter_map, List.map_map]
  rfl

theorem Valid.any_clashes_iff (ht : t.Valid) (new : Registration) :
    (t.registrationsOf s).any new.clashes = ((t.scope s).names.find? new.space new.name).isSome := by
  rw [Bool.eq_iff_iff, List.any_eq_true, Option.isSome_iff_exists]
  constructor
  · rintro ⟨r, hr, hclash⟩
    obtain ⟨y, hy, rfl⟩ := List.mem_map.mp hr
    obtain ⟨i, hi, rfl⟩ := List.mem_map.mp hy
    rw [Registration.clashes, Bool.and_eq_true, decide_eq_true_iff, decide_eq_true_iff] at hclash
    exact ⟨i, (ht.named _ _ _ _).mpr ⟨Array.mem_toList_iff.mp hi, hclash.2.symm, hclash.1.symm⟩⟩
  · rintro ⟨i, hi⟩
    obtain ⟨hmem, hname, hspace⟩ := (ht.named _ _ _ _).mp hi
    refine ⟨t.registration (t.symbol i), List.mem_map_of_mem (List.mem_map_of_mem
      (Array.mem_toList_iff.mpr hmem)), ?_⟩
    rw [Registration.clashes, Bool.and_eq_true, decide_eq_true_iff, decide_eq_true_iff]
    exact ⟨hspace.symm, hname.symm⟩

theorem Valid.onCounter_eq (ht : t.Valid) (new : Registration) :
    new.onCounter (t.registrationsOf s) = (t.scope s).counters.get new.kind.counter := by
  have hlength := congrArg List.length (ht.numbered s new.kind.counter)
  rw [List.length_map, List.length_range] at hlength
  rw [← hlength, Registration.onCounter, registrationsOf, List.countP_map, List.countP_eq_length_filter]
  rfl

/-- Declaring a name is refused for the reasons that the registrations give. -/
theorem Valid.declare_eq (ht : t.Valid) (scope : ScopeId) (kind : SymbolKind) (name : Ident)
    (defines : Option ScopeId) :
    ∃ existing, t.declare scope kind name defines =
      if (t.registrationsOf scope).any
          (Registration.mk kind (t.spaceOf kind defines) name.name).clashes then
        (.error (.taken existing), t)
      else if counterLimit ≤ (Registration.mk kind (t.spaceOf kind defines) name.name).onCounter
          (t.registrationsOf scope) then (.error .full, t)
      else (.ok t.symbols.size, t.addSymbol (t.spaceOf kind defines)
        { kind := kind, name := name.name, scope := scope, defines := defines, span := name.span,
          index := (t.scope scope).counters.get kind.counter }) := by
  rw [ht.any_clashes_iff, ht.onCounter_eq]
  unfold declare
  simp only
  cases hfind : (t.scope scope).names.find? (t.spaceOf kind defines) name.name with
  | some existing => exact ⟨existing, rfl⟩
  | none => exact ⟨0, rfl⟩

/-! ## Paths -/

/-- The names of a scope and of those around it, from the outside in, without the scope of the unit. -/
def pathOf (t : ScopeTable) (s : ScopeId) : List String :=
  (((t.outward s).takeWhile fun s => (t.scope s).kind ≠ .unit).map fun s => (t.scope s).name).reverse

theorem describe_eq (h : (t.scope s).kind ≠ .unit) :
    t.describe s = String.intercalate ">>" (t.pathOf s) := by
  rw [describe, if_neg h]
  rfl

theorem Valid.pathOf_of_parent (ht : t.Valid) {p : ScopeId} (hparent : (t.scope s).parent = some p)
    (hkind : (t.scope s).kind ≠ .unit) : t.pathOf s = t.pathOf p ++ [(t.scope s).name] := by
  rw [pathOf, ht.outward_of_parent hparent, List.takeWhile_cons, if_pos (by simpa using hkind), List.map_cons,
    List.reverse_cons]
  rfl

theorem pathOf_of_unit (hkind : (t.scope s).kind = .unit) : t.pathOf s = [] := by
  have hhead : ∃ rest, t.outward s = s :: rest := by
    rw [outward]
    split
    · split <;> exact ⟨_, rfl⟩
    · exact ⟨_, rfl⟩
  obtain ⟨rest, hrest⟩ := hhead
  rw [pathOf, hrest, List.takeWhile_cons, if_neg (by simpa using hkind)]
  rfl

/-- Paths depend only on what is fixed when scopes are made. -/
theorem Valid.pathOf_eq (ht : t.Valid) (ht' : t'.Valid) {n : Nat}
    (hhead : ∀ s < n, (t'.scope s).head = (t.scope s).head) (hs : s < n) :
    t'.pathOf s = t.pathOf s := by
  induction s using Nat.strong_induction_on with
  | _ s ih =>
    have hkind : (t'.scope s).kind = (t.scope s).kind :=
      Scope.field_eq_of_head_eq (hhead s hs) Scope.kind fun _ => rfl
    have hname : (t'.scope s).name = (t.scope s).name :=
      Scope.field_eq_of_head_eq (hhead s hs) Scope.name fun _ => rfl
    have hparent : (t'.scope s).parent = (t.scope s).parent :=
      Scope.field_eq_of_head_eq (hhead s hs) Scope.parent fun _ => rfl
    by_cases hunit : (t.scope s).kind = .unit
    · rw [pathOf_of_unit hunit, pathOf_of_unit (hkind.trans hunit)]
    · cases hp : (t.scope s).parent with
      | none =>
        rw [pathOf, pathOf, outward_of_root hp, outward_of_root (hparent.trans hp)]
        simp [List.takeWhile_cons, hkind, hname]
      | some p =>
        have hlt := ht.parent_lt s p hp
        rw [ht.pathOf_of_parent hp hunit, ht'.pathOf_of_parent (hparent.trans hp) (hkind ▸ hunit), hname,
          ih p hlt (hlt.trans hs)]

/-! ## Changes that keep registrations -/

/-- Symbols that stand for nothing new keep their namespaces in a larger table. -/
theorem registrationsOf_eq_of_head {n : Nat} (ht : t.Valid) (hn : t.scopeCount ≤ n)
    (hhead : ∀ s < n, (t'.scope s).head = (t.scope s).head)
    (hsymbols : (t'.symbolsOf s).map Symbol.core = (t.symbolsOf s).map Symbol.core) :
    t'.registrationsOf s = t.registrationsOf s := by
  have hcore : ∀ (u : ScopeTable) (ys : List Symbol),
      ys.map u.registration = (ys.map Symbol.core).map u.registration := by
    intro u ys
    rw [List.map_map]
    rfl
  rw [registrationsOf, hcore, hsymbols, ← hcore, registrationsOf]
  apply List.map_congr_left
  intro y hy
  obtain ⟨i, -, rfl⟩ := List.mem_map.mp hy
  rw [registration, registration, spaceOf, spaceOf]
  cases hd : (t.symbol i).defines with
  | none => rfl
  | some d =>
    have hside : (t'.scope d).classSide = (t.scope d).classSide := Scope.field_eq_of_head_eq
      (hhead d ((ht.defines_lt i d hd).trans_le hn)) Scope.classSide fun _ => rfl
    rw [Option.any_some, Option.any_some, hside]

theorem Similar.registrationsOf_eq (h : Similar t t') (ht : t.Valid) (s : ScopeId) :
    t'.registrationsOf s = t.registrationsOf s := by
  refine registrationsOf_eq_of_head ht le_rfl (fun s _ => h.scope_field Scope.head (fun _ => rfl) s) ?_
  simp only [symbolsOf, h.symbols_eq, List.map_map]
  exact List.map_congr_left fun i _ => h.symbol_eq i

theorem Valid.registrationsOf_push (ht : t.Valid) {new : Scope} (hnew : IsFresh new) (s : ScopeId) :
    (t.push new).registrationsOf s = t.registrationsOf s := by
  refine registrationsOf_eq_of_head ht le_rfl (fun s hs => ?_) ?_
  · rw [scope_push_of_lt new hs]
  · rw [t.symbolsOf_push hnew.symbols_eq]

theorem registrationsOf_of_le (h : t.scopeCount ≤ s) : t.registrationsOf s = [] := by
  rw [registrationsOf, symbolsOf, scope_of_le h]
  rfl

end ScopeTable

/-! ## Declaring names -/

namespace Declarations

open ScopeTable Registration

/-- One state comes after another one by declaring names in a scope; some may have been refused. -/
structure Declares (scope : ScopeId) (news : List (Registration × Span)) (d d' : Declarations) :
    Prop where
  valid : d'.table.Valid
  scopeCount_eq : d'.table.scopeCount = d.table.scopeCount
  head_eq : ∀ s, (d'.table.scope s).head = (d.table.scope s).head
  blockCount_eq : ∀ s, (d'.table.scope s).blockCount = (d.table.scope s).blockCount
  registrationsOf_other : ∀ s ≠ scope, d'.table.registrationsOf s = d.table.registrationsOf s
  registrationsOf_self : d'.table.registrationsOf scope
    = registerAll (d.table.registrationsOf scope) news
  classesOf_eq : (∀ new ∈ news, new.1.kind ≠ .classDef) → d'.table.classesOf = d.table.classesOf
  errors_eq : d'.errors.toList = d.errors.toList
    ++ complaintsOfAll (d.table.describe scope) (d.table.registrationsOf scope) news

namespace Declares

variable {scope : ScopeId} {news news' : List (Registration × Span)} {d d' d'' : Declarations}

theorem refl (hvalid : d.table.Valid) (scope : ScopeId) : Declares scope [] d d :=
  ⟨hvalid, rfl, fun _ => rfl, fun _ => rfl, fun _ _ => rfl, rfl, fun _ => rfl, (List.append_nil _).symm⟩

theorem describe_eq (hvalid : d.table.Valid) (h : Declares scope news d d')
    (hscope : scope < d.table.scopeCount) : d'.table.describe scope = d.table.describe scope := by
  have hkind : (d'.table.scope scope).kind = (d.table.scope scope).kind :=
    Scope.field_eq_of_head_eq (h.head_eq scope) Scope.kind fun _ => rfl
  by_cases hunit : (d.table.scope scope).kind = .unit
  · rw [describe, describe, if_pos hunit, if_pos (hkind.trans hunit)]
  · rw [ScopeTable.describe_eq hunit, ScopeTable.describe_eq (hkind ▸ hunit),
      hvalid.pathOf_eq h.valid (fun s _ => h.head_eq s) hscope]

theorem trans (hvalid : d.table.Valid) (hscope : scope < d.table.scopeCount)
    (h : Declares scope news d d') (h' : Declares scope news' d' d'') :
    Declares scope (news ++ news') d d'' where
  valid := h'.valid
  scopeCount_eq := h'.scopeCount_eq.trans h.scopeCount_eq
  head_eq s := (h'.head_eq s).trans (h.head_eq s)
  blockCount_eq s := (h'.blockCount_eq s).trans (h.blockCount_eq s)
  registrationsOf_other s hs := (h'.registrationsOf_other s hs).trans (h.registrationsOf_other s hs)
  registrationsOf_self := by
    rw [h'.registrationsOf_self, h.registrationsOf_self, registerAll_append]
  classesOf_eq hnews := by
    rw [List.forall_mem_append] at hnews
    exact (h'.classesOf_eq hnews.2).trans (h.classesOf_eq hnews.1)
  errors_eq := by
    rw [h'.errors_eq, h.errors_eq, h.describe_eq hvalid hscope, h.registrationsOf_self,
      complaintsOfAll_append, List.append_assoc]

end Declares

/-- What is refused changes nothing and is reported. -/
theorem declares_of_refused {d : Declarations} (hvalid : d.table.Valid) {scope : ScopeId}
    {new : Registration} {span : Span} {e : Diagnostic}
    (hregister : register (d.table.registrationsOf scope) new = d.table.registrationsOf scope)
    (hcomplaints : new.complaints (d.table.describe scope) (d.table.registrationsOf scope) span = [e]) :
    Declares scope [(new, span)] d { d with errors := d.errors.push e } := by
  refine ⟨hvalid, rfl, fun _ => rfl, fun _ => rfl, fun _ _ => rfl, ?_, fun _ => rfl, ?_⟩
  · exact hregister.symm
  · rw [complaintsOfAll, complaintsOfAll, hcomplaints, List.append_nil, Array.toList_push]

/-- What is accepted is registered. -/
theorem declares_of_accepted {d : Declarations} (hvalid : d.table.Valid) {scope : ScopeId}
    {space : Namespace} {new : Symbol} {span : Span} (hnew : d.table.IsAcceptable space new)
    (hscope : new.scope = scope)
    (hregister : register (d.table.registrationsOf scope) (d.table.registration new)
      = d.table.registrationsOf scope ++ [d.table.registration new])
    (hcomplaints : (d.table.registration new).complaints (d.table.describe scope)
      (d.table.registrationsOf scope) span = []) :
    Declares scope [(d.table.registration new, span)] d { d with table := d.table.addSymbol space new } := by
  have hsymbols := symbolsOf_addSymbol hvalid space hnew.scope_lt
  have hhead := d.table.scope_field_addSymbol space new Scope.head fun _ _ _ _ => rfl
  have hregistration : ∀ y, (d.table.addSymbol space new).registration y = d.table.registration y := by
    intro y
    rw [registration, spaceOf_addSymbol, registration]
  subst hscope
  refine ⟨hvalid.addSymbol hnew, scopeCount_addSymbol _ _ _, hhead, fun s => ?_, fun s hs => ?_, ?_,
    fun hkind => ?_, ?_⟩
  · exact d.table.scope_field_addSymbol space new Scope.blockCount (fun _ _ _ _ => rfl) s
  · show (d.table.addSymbol space new).registrationsOf s = _
    rw [registrationsOf, hsymbols, if_neg hs]
    exact List.map_congr_left fun y _ => hregistration y
  · show (d.table.addSymbol space new).registrationsOf new.scope = _
    rw [registrationsOf, hsymbols, if_pos rfl, List.map_congr_left fun y _ => hregistration y,
      List.map_append]
    exact hregister.symm
  · have hclass : new.kind ≠ .classDef := hkind _ (List.mem_singleton_self _)
    show (d.table.addSymbol space new).classesOf = _
    rw [classesOf_addSymbol hvalid hnew.scope_lt, if_neg fun h => hclass h.2]
  · rw [complaintsOfAll, complaintsOfAll, hcomplaints]
    exact (List.append_nil _).symm

end Declarations

namespace DeclareM

open Declarations ScopeTable Registration

variable {d : Declarations}

/-- Declaring a name registers it, or reports why it cannot be. -/
theorem declares_declare (hvalid : d.table.Valid) {scope : ScopeId} (hscope : scope < d.table.scopeCount)
    (kind : SymbolKind) (name : Ident) (defines : Option ScopeId)
    (hdefines : ∀ s, defines = some s → s < d.table.scopeCount) :
    Declares scope [(⟨kind, d.table.spaceOf kind defines, name.name⟩, name.span)] d
      (declare scope kind name defines d).2 := by
  obtain ⟨existing, hdeclare⟩ := hvalid.declare_eq scope kind name defines
  generalize hnew : Registration.mk kind (d.table.spaceOf kind defines) name.name = new at hdeclare ⊢
  have hname : new.name = name.name := by rw [← hnew]
  have hkind : new.kind = kind := by rw [← hnew]
  have hstep : ∀ result t, d.table.declare scope kind name defines = (result, t) →
      (modifyGet fun d : Declarations => ((d.table.declare scope kind name defines).1,
          { d with table := (d.table.declare scope kind name defines).2 }) :
          DeclareM (Except DeclareError SymbolId)) d = (result, { d with table := t }) := by
    intro result t h
    show (_, _) = _
    rw [h]
  unfold declare
  rw [bind_apply]
  split at hdeclare
  · next hclash =>
    rw [hstep _ _ hdeclare]
    refine declares_of_refused hvalid (if_pos hclash) ?_
    rw [complaints, if_pos hclash, hname]
  · next hclash =>
    split at hdeclare
    · next hlimit =>
      rw [hstep _ _ hdeclare]
      refine declares_of_refused hvalid ?_ ?_
      · rw [register, if_neg hclash, if_pos hlimit]
      · rw [complaints, if_neg hclash, if_pos hlimit, hkind]
    · next hlimit =>
      rw [hstep _ _ hdeclare]
      subst hnew
      have hacceptable : d.table.IsAcceptable (d.table.spaceOf kind defines)
          { kind := kind, name := name.name, scope := scope, defines := defines, span := name.span,
            index := (d.table.scope scope).counters.get kind.counter } := by
        refine ⟨hscope, hdefines, rfl, rfl, ?_, ?_⟩
        · rw [hvalid.onCounter_eq] at hlimit
          exact Nat.lt_of_not_le hlimit
        · rw [hvalid.any_clashes_iff, Bool.not_eq_true, Option.isSome_eq_false_iff,
            Option.isNone_iff_eq_none] at hclash
          exact hclash
      exact declares_of_accepted hvalid hacceptable rfl ((if_neg hclash).trans (if_neg hlimit))
        ((if_neg hclash).trans (if_neg hlimit))

/-- Variables of one kind as they are registered. -/
def variableRegistrations (kind : SymbolKind) (names : List Ident) : List (Registration × Span) :=
  names.map fun x => (⟨kind, .values, x.name⟩, x.span)

theorem declares_declareAll (hvalid : d.table.Valid) {scope : ScopeId}
    (hscope : scope < d.table.scopeCount) {kind : SymbolKind} (hkind : kind.isVariable)
    (names : List Ident) :
    Declares scope (variableRegistrations kind names) d (declareAll scope kind names d).2 := by
  induction names generalizing d with
  | nil => exact .refl hvalid scope
  | cons name names ih =>
    have hfirst := declares_declare hvalid hscope kind name none (fun _ h => by cases h)
    have hspace : d.table.spaceOf kind none = .values := by
      cases kind <;> first | rfl | cases hkind
    rw [hspace] at hfirst
    exact hfirst.trans hvalid hscope (ih hfirst.valid (hfirst.scopeCount_eq ▸ hscope))

end DeclareM

/-! ## Making scopes -/

namespace Declarations

open ScopeTable Registration

/-- One state comes after another one by making a scope, declaring what it belongs to in the scope around
it, and declaring names in it; some declarations may have been refused. -/
structure Enters (new : Scope) (outer : ScopeId) (entry : Registration × Span)
    (news : List (Registration × Span)) (d d' : Declarations) : Prop where
  valid : d'.table.Valid
  scopeCount_eq : d'.table.scopeCount = d.table.scopeCount + 1
  head_eq : ∀ s < d.table.scopeCount, (d'.table.scope s).head = (d.table.scope s).head
  head_new : (d'.table.scope d.table.scopeCount).head = new.head
  blockCount_eq : ∀ s < d.table.scopeCount, (d'.table.scope s).blockCount = (d.table.scope s).blockCount
  blockCount_new : (d'.table.scope d.table.scopeCount).blockCount = new.blockCount
  pathOf_new : d'.table.pathOf d.table.scopeCount = d.table.pathOf outer ++ [new.name]
  registrationsOf_other : ∀ s < d.table.scopeCount, s ≠ outer →
    d'.table.registrationsOf s = d.table.registrationsOf s
  registrationsOf_outer : d'.table.registrationsOf outer
    = register (d.table.registrationsOf outer) entry.1
  registrationsOf_new : d'.table.registrationsOf d.table.scopeCount = registerAll [] news
  classesOf_eq : entry.1.kind ≠ .classDef → d'.table.classesOf = d.table.classesOf
  errors_eq : d'.errors.toList = d.errors.toList
    ++ (entry.1.complaints (d.table.describe outer) (d.table.registrationsOf outer) entry.2
      ++ complaintsOfAll (String.intercalate ">>" (d.table.pathOf outer ++ [new.name])) [] news)

variable {d d' : Declarations} {new : Scope} {outer : ScopeId} {entry : Registration × Span}
  {news : List (Registration × Span)}

theorem Enters.scope_lt (h : Enters new outer entry news d d') :
    d.table.scopeCount < d'.table.scopeCount :=
  Nat.lt_of_lt_of_eq (Nat.lt_succ_self _) h.scopeCount_eq.symm

/-- A scope that did not exist before is the new one, or does not exist yet. -/
theorem Enters.kind_cases (h : Enters new outer entry news d d') {s : ScopeId}
    (hs : d.table.scopeCount ≤ s) :
    d'.table.scopeCount ≤ s ∨ s < d'.table.scopeCount ∧ (d'.table.scope s).kind = new.kind := by
  rcases Nat.eq_or_lt_of_le hs with rfl | hlt
  · exact Or.inr ⟨h.scope_lt, Scope.field_eq_of_head_eq h.head_new Scope.kind fun _ => rfl⟩
  · exact Or.inl (h.scopeCount_eq ▸ hlt)

/-- A scope is made, and declared in the scope around it. -/
theorem enters_declare (hvalid : d.table.Valid) (hnew : IsFresh new) (hunit : new.kind ≠ .unit)
    (houter : outer < d.table.scopeCount) (hparent : new.parent = some outer) (kind : SymbolKind)
    (name : Ident) (blocks : Std.TreeMap Nat ScopeId) :
    Enters new outer (⟨kind, kind.space new.classSide, name.name⟩, name.span) [] d
      (DeclareM.declare outer kind name (some d.table.scopeCount)
        { d with table := d.table.push new, blocks := blocks }).2 := by
  have hlt := d.table.scopeCount_lt_push new
  have hold : ∀ s < d.table.scopeCount, (d.table.push new).scope s = d.table.scope s :=
    fun s hs => scope_push_of_lt new hs
  have hlast := d.table.scope_push_self new
  have hvalid' := hvalid.push_of_parent hnew hparent houter
  have hdeclares := DeclareM.declares_declare
    (d := { d with table := d.table.push new, blocks := blocks }) hvalid' (houter.trans hlt) kind name
    (some d.table.scopeCount) (fun s hs => by cases hs; exact hlt)
  have hspace : (d.table.push new).spaceOf kind (some d.table.scopeCount) = kind.space new.classSide := by
    rw [spaceOf, Option.any_some, hlast]
  rw [hspace] at hdeclares
  have hhead : ∀ s < d.table.scopeCount, ((d.table.push new).scope s).head = (d.table.scope s).head :=
    fun s hs => congrArg Scope.head (hold s hs)
  have hdescribe : (d.table.push new).describe outer = d.table.describe outer := by
    rw [describe, describe, hold outer houter]
    split
    · rfl
    · exact congrArg (String.intercalate ">>") (hvalid.pathOf_eq hvalid' hhead houter)
  have hregistrations := hvalid.registrationsOf_push hnew
  have hhead_new := (hdeclares.head_eq d.table.scopeCount).trans (congrArg Scope.head hlast)
  refine ⟨hdeclares.valid, hdeclares.scopeCount_eq.trans (d.table.scopeCount_push new),
    fun s hs => (hdeclares.head_eq s).trans (hhead s hs), hhead_new, fun s hs => ?_, ?_, ?_,
    fun s hs hne => ?_, ?_, ?_, fun hclass => ?_, ?_⟩
  · exact (hdeclares.blockCount_eq s).trans (congrArg Scope.blockCount (hold s hs))
  · exact (hdeclares.blockCount_eq _).trans (congrArg Scope.blockCount hlast)
  · have hkind : ((DeclareM.declare outer kind name (some d.table.scopeCount)
        { d with table := d.table.push new, blocks := blocks }).2.table.scope
          d.table.scopeCount).kind ≠ .unit := by
      rw [Scope.field_eq_of_head_eq hhead_new Scope.kind fun _ => rfl]
      exact hunit
    rw [hdeclares.valid.pathOf_of_parent
        ((Scope.field_eq_of_head_eq hhead_new Scope.parent fun _ => rfl).trans hparent) hkind,
      Scope.field_eq_of_head_eq hhead_new Scope.name fun _ => rfl,
      hvalid.pathOf_eq hdeclares.valid (fun s hs => (hdeclares.head_eq s).trans (hhead s hs)) houter]
  · exact (hdeclares.registrationsOf_other s hne).trans (hregistrations s)
  · rw [hdeclares.registrationsOf_self]
    show registerAll ((d.table.push new).registrationsOf outer) _ = _
    rw [hregistrations]
    rfl
  · rw [hdeclares.registrationsOf_other _ (Nat.ne_of_gt houter)]
    show (d.table.push new).registrationsOf _ = _
    rw [hregistrations, registrationsOf_of_le le_rfl]
    rfl
  · rw [hdeclares.classesOf_eq (by simpa using hclass)]
    exact d.table.classesOf_push hnew
  · rw [hdeclares.errors_eq]
    show _ ++ complaintsOfAll ((d.table.push new).describe outer) ((d.table.push new).registrationsOf outer) _
      = _
    rw [hdescribe, hregistrations]
    rfl

/-- Names are declared in the new scope. -/
theorem Enters.declareAll (h : Enters new outer entry news d d') (houter : outer < d.table.scopeCount)
    (hunit : new.kind ≠ .unit) (kind : SymbolKind) (hkind : kind.isVariable) (names : List Ident) :
    Enters new outer entry (news ++ DeclareM.variableRegistrations kind names) d
      (DeclareM.declareAll d.table.scopeCount kind names d').2 := by
  have hdeclares := DeclareM.declares_declareAll h.valid h.scope_lt hkind names
  have hhead_new := (hdeclares.head_eq d.table.scopeCount).trans h.head_new
  have hplace : d'.table.describe d.table.scopeCount
      = String.intercalate ">>" (d.table.pathOf outer ++ [new.name]) := by
    rw [describe_eq, h.pathOf_new]
    rw [Scope.field_eq_of_head_eq h.head_new Scope.kind fun _ => rfl]
    exact hunit
  refine ⟨hdeclares.valid, hdeclares.scopeCount_eq.trans h.scopeCount_eq,
    fun s hs => (hdeclares.head_eq s).trans (h.head_eq s hs), hhead_new,
    fun s hs => (hdeclares.blockCount_eq s).trans (h.blockCount_eq s hs),
    (hdeclares.blockCount_eq _).trans h.blockCount_new, ?_, fun s hs hne => ?_, ?_, ?_, fun hclass => ?_, ?_⟩
  · rw [← h.pathOf_new]
    exact h.valid.pathOf_eq hdeclares.valid (fun s _ => hdeclares.head_eq s) h.scope_lt
  · rw [hdeclares.registrationsOf_other s (Nat.ne_of_lt hs), h.registrationsOf_other s hs hne]
  · rw [hdeclares.registrationsOf_other outer (Nat.ne_of_lt houter), h.registrationsOf_outer]
  · rw [hdeclares.registrationsOf_self, h.registrationsOf_new, registerAll_append]
  · rw [hdeclares.classesOf_eq, h.classesOf_eq hclass]
    intro r hr hr'
    obtain ⟨x, -, rfl⟩ := List.mem_map.mp hr
    rw [show kind = .classDef from hr'] at hkind
    cases hkind
  · rw [hdeclares.errors_eq, h.errors_eq, hplace, h.registrationsOf_new, complaintsOfAll_append]
    simp only [List.append_assoc]

end Declarations

end Smalltalk
