import Mathlib
import Smalltalk.Proofs.Lookup
import Smalltalk.Proofs.Reading

/-!
# What declaring a unit leaves behind

A walk through a unit that reports nothing has made a scope for every class, method and block, with
the names that belong there, and has numbered the blocks of each method in the order in which they
begin. Scopes that are older than a part of the unit are left as they are by going through that part,
but for the methods and blocks that they list.
-/

namespace Smalltalk

namespace DeclareM

variable {α β : Type}

theorem bind_apply (m : DeclareM α) (f : α → DeclareM β) (d : Declarations) :
    (m >>= f) d = f (m d).1 (m d).2 := rfl

/-- Only blocks are treated specially. -/
theorem expr_eq_exprs {e : Expr} (he : e.isBlock = false) (method scope : ScopeId) :
    expr method scope e = exprs method scope e.children := by
  cases e with
  | block info params locals statements close => cases he
  | atom | name | array | send | superSend | assign | ret => simp [expr, exprs, Expr.children]

/-! ## Errors are not forgotten -/

/-- A step adds to the errors, and only what is about the source text. -/
def KeepsErrors (m : DeclareM α) : Prop :=
  ∀ d, ∃ new, (m d).2.errors.toList = d.errors.toList ++ new ∧ ∀ e ∈ new, e.isInternal = false

/-- A step that ends without errors has started without. -/
theorem KeepsErrors.clean {m : DeclareM α} (hm : KeepsErrors m) {d : Declarations}
    (h : (m d).2.errors = #[]) : d.errors = #[] := by
  obtain ⟨new, hnew, -⟩ := hm d
  rw [h] at hnew
  exact Array.toList_eq_nil_iff.mp (List.append_eq_nil_iff.mp hnew.symm).1

theorem KeepsErrors.bind {m : DeclareM α} {f : α → DeclareM β} (hm : KeepsErrors m)
    (hf : ∀ a, KeepsErrors (f a)) : KeepsErrors (m >>= f) := by
  intro d
  obtain ⟨new, hnew, hsource⟩ := hm d
  obtain ⟨new', hnew', hsource'⟩ := hf (m d).1 (m d).2
  refine ⟨new ++ new', ?_, List.forall_mem_append.mpr ⟨hsource, hsource'⟩⟩
  rw [bind_apply, hnew', hnew, List.append_assoc]

theorem keepsErrors_of_eq {m : DeclareM α} (h : ∀ d, (m d).2.errors = d.errors) : KeepsErrors m :=
  fun d => ⟨[], by rw [h, List.append_nil], fun _ he => absurd he List.not_mem_nil⟩

theorem keepsErrors_pure (a : α) : KeepsErrors (pure a : DeclareM α) := keepsErrors_of_eq fun _ => rfl

theorem keepsErrors_report {e : Diagnostic} (he : e.isInternal = false) : KeepsErrors (report e) :=
  fun _ => ⟨[e], Array.toList_push, by simpa using he⟩

theorem keepsErrors_declare (scope : ScopeId) (kind : SymbolKind) (name : Ident)
    (defines : Option ScopeId) : KeepsErrors (declare scope kind name defines) := by
  refine (keepsErrors_of_eq fun _ => rfl).bind fun result => ?_
  cases result with
  | ok y => exact keepsErrors_pure _
  | error e =>
    cases e with
    | taken existing =>
      exact (keepsErrors_of_eq fun _ => rfl).bind fun _ =>
        (keepsErrors_report rfl).bind fun _ => keepsErrors_pure _
    | full => exact (keepsErrors_report rfl).bind fun _ => keepsErrors_pure _

theorem keepsErrors_declareAll (scope : ScopeId) (kind : SymbolKind) (names : List Ident) :
    KeepsErrors (declareAll scope kind names) := by
  induction names with
  | nil => exact keepsErrors_pure _
  | cons name names ih => exact (keepsErrors_declare scope kind name none).bind fun _ => ih

theorem keepsErrors_openBlock (method scope : ScopeId) (info : NodeInfo) (index : Nat) :
    KeepsErrors (openBlock method scope info index) := by
  refine (keepsErrors_of_eq fun _ => rfl).bind fun _ => (keepsErrors_of_eq fun _ => rfl).bind fun inner => ?_
  refine (keepsErrors_of_eq fun _ => rfl).bind fun _ => ?_
  exact (keepsErrors_declare _ _ _ _).bind fun _ => keepsErrors_pure _

theorem keepsErrors_closeBlock (method : ScopeId) (index : Nat) (symbol : Option SymbolId) :
    KeepsErrors (closeBlock method index symbol) := by
  cases symbol <;> exact keepsErrors_of_eq fun _ => rfl

theorem keepsErrors_exprs {method : ScopeId} {es : List Expr}
    (h : ∀ e ∈ es, ∀ scope, KeepsErrors (expr method scope e)) (scope : ScopeId) :
    KeepsErrors (exprs method scope es) := by
  induction es with
  | nil =>
    rw [exprs]
    exact keepsErrors_pure _
  | cons e es ih =>
    rw [exprs]
    exact (h e List.mem_cons_self scope).bind fun _ =>
      ih fun e' he' => h e' (List.mem_cons_of_mem e he')

theorem keepsErrors_expr (method : ScopeId) (e : Expr) :
    ∀ scope, KeepsErrors (expr method scope e) := by
  induction e using Expr.children_induction with
  | block info params locals statements close ih =>
    intro scope
    rw [expr]
    refine (keepsErrors_of_eq fun _ => rfl).bind fun index => ?_
    cases index with
    | none => exact keepsErrors_report rfl
    | some index =>
      refine (keepsErrors_openBlock _ _ _ _).bind fun opened => ?_
      refine (keepsErrors_declareAll _ _ _).bind fun _ => (keepsErrors_declareAll _ _ _).bind fun _ => ?_
      exact (keepsErrors_exprs ih _).bind fun _ => keepsErrors_closeBlock _ _ _
  | other e he ih =>
    intro scope
    rw [expr_eq_exprs he]
    exact keepsErrors_exprs ih scope

theorem keepsErrors_methodScope (owner : ScopeId) (selector : Ident) (params : List Ident)
    (classSide : Bool) (body : MethodBody) :
    KeepsErrors (methodScope owner selector params classSide body) := by
  refine (keepsErrors_of_eq fun _ => rfl).bind fun scope => (keepsErrors_declare _ _ _ _).bind fun _ => ?_
  refine (keepsErrors_declareAll _ _ _).bind fun _ => ?_
  cases body with
  | code body =>
    refine (keepsErrors_declareAll _ _ _).bind fun _ => ?_
    exact (keepsErrors_exprs (fun e _ => keepsErrors_expr scope e) scope).bind fun _ => keepsErrors_pure _
  | primitive name => exact (keepsErrors_of_eq fun _ => rfl).bind fun _ => keepsErrors_pure _

theorem keepsErrors_methodScopes (owner : ScopeId) (done : Array ScopeId) (methods : List MethodDef) :
    KeepsErrors (methodScopes owner done methods) := by
  induction methods generalizing done with
  | nil => exact keepsErrors_pure _
  | cons m methods ih => exact (keepsErrors_methodScope _ _ _ _ _).bind fun _ => ih _

theorem keepsErrors_classScope (name : Ident) (superclass : Option String) (fields : List Ident)
    (span : Span) : KeepsErrors (classScope name superclass fields span) := by
  refine (keepsErrors_of_eq fun _ => rfl).bind fun scope => (keepsErrors_declare _ _ _ _).bind fun _ => ?_
  exact (keepsErrors_declareAll _ _ _).bind fun _ => keepsErrors_pure _

theorem keepsErrors_classScopes (done : Array (ScopeId × List ScopeId)) (classes : List ClassDef) :
    KeepsErrors (classScopes done classes) := by
  induction classes generalizing done with
  | nil => exact keepsErrors_pure _
  | cons c classes ih =>
    exact (keepsErrors_classScope _ _ _ _).bind fun _ => (keepsErrors_methodScopes _ _ _).bind fun _ => ih _

theorem keepsErrors_mainScopes (u : SourceUnit) : KeepsErrors (mainScopes u) := by
  unfold mainScopes
  split
  · exact keepsErrors_pure _
  · exact (keepsErrors_classScope _ _ _ _).bind fun _ => (keepsErrors_methodScope _ _ _ _ _).bind fun _ =>
      keepsErrors_pure _

end DeclareM

/-! ## Later states -/

/-- What is fixed when a scope is made, and stays so whatever is declared. -/
def Scope.head (s : Scope) : Scope :=
  { s with symbols := #[], names := {}, counters := {}, primitive := none, blockCount := 0 }

theorem Scope.field_eq_of_head_eq {s s' : Scope} (h : s.head = s'.head) {α : Type} (f : Scope → α)
    (hf : ∀ s : Scope, f s.head = f s) : f s = f s' := by
  rw [← hf, h, hf]

namespace Declarations

/-- One state comes after another one, and the scopes below `n` still declare the same variables. -/
structure Grows (n : Nat) (d d' : Declarations) : Prop where
  scopeCount_le : d.table.scopeCount ≤ d'.table.scopeCount
  head_eq : ∀ s < n, (d'.table.scope s).head = (d.table.scope s).head
  primitive_eq : ∀ s < n, (d'.table.scope s).primitive = (d.table.scope s).primitive
  variablesOf_eq : ∀ s < n, d'.table.variablesOf s = d.table.variablesOf s
  blocks_le : ∀ (i : Nat) (s : ScopeId), d.blocks[i]? = some s → d'.blocks[i]? = some s

namespace Grows

variable {m n : Nat} {d d' d'' : Declarations}

theorem refl (n : Nat) (d : Declarations) : Grows n d d :=
  ⟨le_rfl, fun _ _ => rfl, fun _ _ => rfl, fun _ _ => rfl, fun _ _ h => h⟩

theorem trans (h : Grows n d d') (h' : Grows n d' d'') : Grows n d d'' :=
  ⟨h.scopeCount_le.trans h'.scopeCount_le, fun s hs => (h'.head_eq s hs).trans (h.head_eq s hs),
    fun s hs => (h'.primitive_eq s hs).trans (h.primitive_eq s hs),
    fun s hs => (h'.variablesOf_eq s hs).trans (h.variablesOf_eq s hs),
    fun i s hs => h'.blocks_le i s (h.blocks_le i s hs)⟩

theorem mono (h : Grows n d d') (hmn : m ≤ n) : Grows m d d' :=
  ⟨h.scopeCount_le, fun s hs => h.head_eq s (hs.trans_le hmn),
    fun s hs => h.primitive_eq s (hs.trans_le hmn), fun s hs => h.variablesOf_eq s (hs.trans_le hmn),
    h.blocks_le⟩

theorem head_field (h : Grows n d d') {α : Type} (f : Scope → α) (hf : ∀ s : Scope, f s.head = f s)
    {s : ScopeId} (hs : s < n) : f (d'.table.scope s) = f (d.table.scope s) :=
  Scope.field_eq_of_head_eq (h.head_eq s hs) f hf

theorem of_similar (h : ScopeTable.Similar d.table d'.table)
    (hprimitive : ∀ s < n, (d'.table.scope s).primitive = (d.table.scope s).primitive)
    (hblocks : d'.blocks = d.blocks) : Grows n d d' :=
  ⟨le_of_eq h.scopeCount_eq.symm, fun s _ => h.scope_field Scope.head (fun _ => rfl) s, hprimitive,
    fun s _ => h.variablesOf_eq s, fun _ _ hs => hblocks ▸ hs⟩

end Grows

/-! ## Declaring names -/

/-- One state comes after another one by declaring the given variables in a scope, and the given
classes. -/
structure Adds (scope : ScopeId) (variableList : List (SymbolKind × String))
    (classes : List (String × Option ScopeId)) (d d' : Declarations) : Prop where
  valid : d'.table.Valid
  scopeCount_eq : d'.table.scopeCount = d.table.scopeCount
  head_eq : ∀ s, (d'.table.scope s).head = (d.table.scope s).head
  primitive_eq : ∀ s, (d'.table.scope s).primitive = (d.table.scope s).primitive
  blockCount_eq : ∀ s, (d'.table.scope s).blockCount = (d.table.scope s).blockCount
  variablesOf_self : d'.table.variablesOf scope = d.table.variablesOf scope ++ variableList
  variablesOf_other : ∀ s ≠ scope, d'.table.variablesOf s = d.table.variablesOf s
  classesOf_eq : d'.table.classesOf = d.table.classesOf ++ classes
  blocks_eq : d'.blocks = d.blocks

namespace Adds

variable {scope : ScopeId} {l l' : List (SymbolKind × String)} {cs cs' : List (String × Option ScopeId)}
  {d d' d'' : Declarations}

theorem refl (hvalid : d.table.Valid) (scope : ScopeId) : Adds scope [] [] d d :=
  ⟨hvalid, rfl, fun _ => rfl, fun _ => rfl, fun _ => rfl, (List.append_nil _).symm, fun _ _ => rfl,
    (List.append_nil _).symm, rfl⟩

theorem trans (h : Adds scope l cs d d') (h' : Adds scope l' cs' d' d'') :
    Adds scope (l ++ l') (cs ++ cs') d d'' where
  valid := h'.valid
  scopeCount_eq := h'.scopeCount_eq.trans h.scopeCount_eq
  head_eq s := (h'.head_eq s).trans (h.head_eq s)
  primitive_eq s := (h'.primitive_eq s).trans (h.primitive_eq s)
  blockCount_eq s := (h'.blockCount_eq s).trans (h.blockCount_eq s)
  variablesOf_self := by rw [h'.variablesOf_self, h.variablesOf_self, List.append_assoc]
  variablesOf_other s hs := (h'.variablesOf_other s hs).trans (h.variablesOf_other s hs)
  classesOf_eq := by rw [h'.classesOf_eq, h.classesOf_eq, List.append_assoc]
  blocks_eq := h'.blocks_eq.trans h.blocks_eq

/-- Scopes older than the one that variables are declared in stay as they are. -/
theorem grows (h : Adds scope l cs d d') : Grows scope d d' where
  scopeCount_le := le_of_eq h.scopeCount_eq.symm
  head_eq s _ := h.head_eq s
  primitive_eq s _ := h.primitive_eq s
  variablesOf_eq s hs := h.variablesOf_other s (Nat.ne_of_lt hs)
  blocks_le _ _ hs := h.blocks_eq ▸ hs

/-- Without new variables all scopes stay as they are. -/
theorem grows_of_nil (h : Adds scope [] cs d d') (n : Nat) : Grows n d d' where
  scopeCount_le := le_of_eq h.scopeCount_eq.symm
  head_eq s _ := h.head_eq s
  primitive_eq s _ := h.primitive_eq s
  variablesOf_eq s _ := by
    by_cases hs : s = scope
    · rw [hs, h.variablesOf_self, List.append_nil]
    · exact h.variablesOf_other s hs
  blocks_le _ _ hs := h.blocks_eq ▸ hs

end Adds

end Declarations

namespace DeclareM

open Declarations ScopeTable

variable {d : Declarations}

/-- The variables that declaring a name adds. -/
def newVariables (kind : SymbolKind) (name : Ident) : List (SymbolKind × String) :=
  if kind.isVariable then [(kind, name.name)] else []

/-- The classes that declaring a name adds. -/
def newClasses (scope : ScopeId) (kind : SymbolKind) (name : Ident) (defines : Option ScopeId) :
    List (String × Option ScopeId) :=
  if scope = unitScope ∧ kind = .classDef then [(name.name, defines)] else []

/-- A declaration that is not reported has been made. -/
theorem adds_declare (hvalid : d.table.Valid) {scope : ScopeId} (hscope : scope < d.table.scopeCount)
    {kind : SymbolKind} {name : Ident} {defines : Option ScopeId}
    (hdefines : ∀ s, defines = some s → s < d.table.scopeCount)
    (hclean : (declare scope kind name defines d).2.errors = #[]) :
    Adds scope (newVariables kind name) (newClasses scope kind name defines) d
      (declare scope kind name defines d).2 := by
  unfold declare at hclean ⊢
  rw [bind_apply] at hclean ⊢
  rcases d.table.declare_cases scope kind name defines hscope hdefines with
    ⟨new, hnew, rfl, hname, rfl, rfl, hdeclare⟩ | ⟨e, hdeclare⟩
  · have hstep : (modifyGet fun d : Declarations =>
        ((d.table.declare new.scope new.kind name new.defines).1,
          { d with table := (d.table.declare new.scope new.kind name new.defines).2 }) :
          DeclareM (Except DeclareError SymbolId)) d
        = (.ok d.table.symbols.size,
          { d with table := d.table.addSymbol (d.table.spaceOf new.kind new.defines) new }) := by
      show (_, _) = _
      rw [hdeclare]
    have hvars : ∀ s, (d.table.addSymbol (d.table.spaceOf new.kind new.defines) new).variablesOf s = _ :=
      variablesOf_addSymbol hvalid hscope
    rw [hstep]
    refine ⟨hvalid.addSymbol hnew, scopeCount_addSymbol _ _ _, fun s => ?_, fun s => ?_, fun s => ?_,
      ?_, fun s hs => ?_, ?_, rfl⟩
    · exact d.table.scope_field_addSymbol _ new Scope.head (fun _ _ _ _ => rfl) s
    · exact d.table.scope_field_addSymbol _ new Scope.primitive (fun _ _ _ _ => rfl) s
    · exact d.table.scope_field_addSymbol _ new Scope.blockCount (fun _ _ _ _ => rfl) s
    · show (d.table.addSymbol _ new).variablesOf _ = _
      rw [hvars, newVariables]
      by_cases hk : new.kind.isVariable <;> simp [hk, hname]
    · show (d.table.addSymbol _ new).variablesOf _ = _
      rw [hvars, if_neg fun h => hs h.1]
    · show (d.table.addSymbol _ new).classesOf = _
      rw [classesOf_addSymbol hvalid hscope, newClasses, hname]
      split <;> simp
  · -- what is refused is reported
    exfalso
    have hstep : (modifyGet fun d : Declarations =>
        ((d.table.declare scope kind name defines).1,
          { d with table := (d.table.declare scope kind name defines).2 }) :
          DeclareM (Except DeclareError SymbolId)) d = (.error e, d) := by
      show (_, _) = _
      rw [hdeclare]
    rw [hstep] at hclean
    cases e with
    | taken existing => exact Array.push_ne_empty hclean
    | full => exact Array.push_ne_empty hclean

theorem adds_declareAll (hvalid : d.table.Valid) {scope : ScopeId} (hscope : scope < d.table.scopeCount)
    {kind : SymbolKind} (hkind : kind.isVariable) (hclass : kind ≠ .classDef) {names : List Ident}
    (hclean : (declareAll scope kind names d).2.errors = #[]) :
    Adds scope ((namesOf names).map fun x => (kind, x)) [] d (declareAll scope kind names d).2 := by
  induction names generalizing d with
  | nil => exact .refl hvalid scope
  | cons name names ih =>
    have hfirst := adds_declare hvalid hscope (fun _ h => by cases h)
      ((keepsErrors_declareAll scope kind names).clean hclean)
    rw [newVariables, if_pos hkind, newClasses, if_neg fun h => hclass h.2] at hfirst
    exact hfirst.trans (ih hfirst.valid (hfirst.scopeCount_eq ▸ hscope) hclean)

end DeclareM

/-! ## Making scopes -/

namespace Declarations

open ScopeTable

/-- One state comes after another one by making a scope, declaring what it belongs to, and declaring
the given variables in it. -/
structure Opens (new : Scope) (variableList : List (SymbolKind × String))
    (blocks : Std.TreeMap Nat ScopeId) (classes : List (String × Option ScopeId))
    (d d' : Declarations) : Prop where
  valid : d'.table.Valid
  scopeCount_eq : d'.table.scopeCount = d.table.scopeCount + 1
  grows : Grows d.table.scopeCount d d'
  blockCount_eq : ∀ s < d.table.scopeCount, (d'.table.scope s).blockCount = (d.table.scope s).blockCount
  head_new : (d'.table.scope d.table.scopeCount).head = new.head
  primitive_new : (d'.table.scope d.table.scopeCount).primitive = new.primitive
  blockCount_new : (d'.table.scope d.table.scopeCount).blockCount = new.blockCount
  variablesOf_new : d'.table.variablesOf d.table.scopeCount = variableList
  classesOf_eq : d'.table.classesOf = d.table.classesOf ++ classes
  blocks_eq : d'.blocks = blocks

variable {d : Declarations}

theorem opens_declare (hvalid : d.table.Valid) {new : Scope} (hnew : IsFresh new) {outer : ScopeId}
    (houter : outer < d.table.scopeCount) (hparent : new.parent = some outer) {kind : SymbolKind}
    (hkind : kind.isVariable = false) {name : Ident} {blocks : Std.TreeMap Nat ScopeId}
    (hblocks : ∀ (i : Nat) (s : ScopeId), d.blocks[i]? = some s → blocks[i]? = some s)
    (hclean : (DeclareM.declare outer kind name (some d.table.scopeCount)
      { d with table := d.table.push new, blocks := blocks }).2.errors = #[]) :
    Opens new [] blocks (DeclareM.newClasses outer kind name (some d.table.scopeCount)) d
      (DeclareM.declare outer kind name (some d.table.scopeCount)
        { d with table := d.table.push new, blocks := blocks }).2 := by
  have hlt := d.table.scopeCount_lt_push new
  have hold : ∀ s < d.table.scopeCount, (d.table.push new).scope s = d.table.scope s :=
    fun s hs => scope_push_of_lt new hs
  have hlast := d.table.scope_push_self new
  have hvars := d.table.variablesOf_push hnew
  have hadds := DeclareM.adds_declare (d := { d with table := d.table.push new, blocks := blocks })
    (hvalid.push_of_parent hnew hparent houter) (houter.trans hlt)
    (fun s hs => by cases hs; exact hlt) hclean
  rw [DeclareM.newVariables, if_neg (Bool.not_eq_true _ ▸ hkind)] at hadds
  have hpush : Grows d.table.scopeCount d { d with table := d.table.push new, blocks := blocks } :=
    ⟨hlt.le, fun s hs => congrArg Scope.head (hold s hs),
      fun s hs => congrArg Scope.primitive (hold s hs), fun s _ => hvars s, hblocks⟩
  refine ⟨hadds.valid, hadds.scopeCount_eq.trans (d.table.scopeCount_push new), hpush.trans (hadds.grows_of_nil _),
    fun s hs => ?_, ?_, ?_, ?_, ?_, ?_, hadds.blocks_eq⟩
  · exact (hadds.blockCount_eq s).trans (congrArg Scope.blockCount (hold s hs))
  · exact (hadds.head_eq _).trans (congrArg Scope.head hlast)
  · exact (hadds.primitive_eq _).trans (congrArg Scope.primitive hlast)
  · exact (hadds.blockCount_eq _).trans (congrArg Scope.blockCount hlast)
  · have hempty : d.table.variablesOf d.table.scopeCount = [] := by
      rw [variablesOf, symbolsOf, scope_of_le le_rfl]
      rfl
    rw [((hadds.grows_of_nil (d.table.scopeCount + 1)).variablesOf_eq _ (Nat.lt_succ_self _))]
    exact (hvars _).trans hempty
  · rw [hadds.classesOf_eq]
    congr 1
    exact d.table.classesOf_push hnew

theorem Opens.scope_lt {new : Scope} {l : List (SymbolKind × String)}
    {blocks : Std.TreeMap Nat ScopeId} {cs : List (String × Option ScopeId)} {d' : Declarations}
    (h : Opens new l blocks cs d d') : d.table.scopeCount < d'.table.scopeCount :=
  Nat.lt_of_lt_of_eq (Nat.lt_succ_self _) h.scopeCount_eq.symm

theorem Opens.declareAll {new : Scope} {l : List (SymbolKind × String)}
    {blocks : Std.TreeMap Nat ScopeId} {cs : List (String × Option ScopeId)} {d' : Declarations}
    (h : Opens new l blocks cs d d') {kind : SymbolKind} (hkind : kind.isVariable)
    (hclass : kind ≠ .classDef) {names : List Ident}
    (hclean : (DeclareM.declareAll d.table.scopeCount kind names d').2.errors = #[]) :
    Opens new (l ++ (namesOf names).map fun x => (kind, x)) blocks cs d
      (DeclareM.declareAll d.table.scopeCount kind names d').2 := by
  have hadds := DeclareM.adds_declareAll h.valid h.scope_lt hkind hclass hclean
  exact {
    valid := hadds.valid
    scopeCount_eq := hadds.scopeCount_eq.trans h.scopeCount_eq
    grows := h.grows.trans hadds.grows
    blockCount_eq := fun s hs => (hadds.blockCount_eq s).trans (h.blockCount_eq s hs)
    head_new := (hadds.head_eq _).trans h.head_new
    primitive_new := (hadds.primitive_eq _).trans h.primitive_new
    blockCount_new := (hadds.blockCount_eq _).trans h.blockCount_new
    variablesOf_new := by rw [hadds.variablesOf_self, h.variablesOf_new]
    classesOf_eq := by rw [hadds.classesOf_eq, List.append_nil, h.classesOf_eq]
    blocks_eq := hadds.blocks_eq.trans h.blocks_eq }

end Declarations

end Smalltalk
