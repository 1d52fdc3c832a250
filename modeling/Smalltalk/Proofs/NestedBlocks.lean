import Mathlib
import Smalltalk.Proofs.BlockLiterals
import Smalltalk.Proofs.UnitReports

/-!
# How many blocks are inside a block

When the statements of a block have been gone through, its symbol notes how many blocks of the method have
been numbered since the block itself. This is the number of blocks inside it, and what is declared later
leaves the note as it is.
-/

namespace Smalltalk

open ScopeTable

/-! ## What no declaration undoes -/

namespace ScopeTable

/-- One table comes after another one: its symbols have not changed, names still refer to them, no block
number has been taken back, and none beyond the limit has been given out. -/
structure Retains (t t' : ScopeTable) : Prop where
  scopeCount_le : t.scopeCount ≤ t'.scopeCount
  size_le : t.symbols.size ≤ t'.symbols.size
  symbol_eq : ∀ y < t.symbols.size, t'.symbol y = t.symbol y
  head_eq : ∀ s < t.scopeCount, (t'.scope s).head = (t.scope s).head
  find?_eq : ∀ s space x y, (t.scope s).names.find? space x = some y →
    (t'.scope s).names.find? space x = some y
  blockCount_le : ∀ s < t.scopeCount, (t.scope s).blockCount ≤ (t'.scope s).blockCount
  blockCount_limited : ∀ s < t.scopeCount, (t.scope s).blockCount ≤ counterLimit →
    (t'.scope s).blockCount ≤ counterLimit

variable {t t' t'' : ScopeTable}

theorem Retains.refl (t : ScopeTable) : Retains t t :=
  ⟨le_rfl, le_rfl, fun _ _ => rfl, fun _ _ => rfl, fun _ _ _ _ h => h, fun _ _ => le_rfl, fun _ _ h => h⟩

theorem Retains.trans (h : Retains t t') (h' : Retains t' t'') : Retains t t'' where
  scopeCount_le := h.scopeCount_le.trans h'.scopeCount_le
  size_le := h.size_le.trans h'.size_le
  symbol_eq y hy := (h'.symbol_eq y (hy.trans_le h.size_le)).trans (h.symbol_eq y hy)
  head_eq s hs := (h'.head_eq s (hs.trans_le h.scopeCount_le)).trans (h.head_eq s hs)
  find?_eq s space x y hy := h'.find?_eq s space x y (h.find?_eq s space x y hy)
  blockCount_le s hs := (h.blockCount_le s hs).trans (h'.blockCount_le s (hs.trans_le h.scopeCount_le))
  blockCount_limited s hs hle :=
    h'.blockCount_limited s (hs.trans_le h.scopeCount_le) (h.blockCount_limited s hs hle)

theorem retains_push (t : ScopeTable) (new : Scope) : Retains t (t.push new) := by
  have hold : ∀ s < t.scopeCount, (t.push new).scope s = t.scope s :=
    fun s hs => scope_push_of_lt new hs
  refine ⟨(t.scopeCount_lt_push new).le, le_rfl, fun _ _ => rfl, fun s hs => by rw [hold s hs],
    fun s space x y hy => ?_, fun s hs => by rw [hold s hs], fun s hs hle => by rwa [hold s hs]⟩
  by_cases hs : s < t.scopeCount
  · rw [hold s hs, hy]
  · -- a scope that is not there declares nothing
    have hnone : IsFresh (default : Scope) := ⟨rfl, rfl, rfl⟩
    rw [scope_of_le (Nat.le_of_not_lt hs), hnone.find?_eq_none] at hy
    cases hy

theorem retains_modifyScope (t : ScopeTable) (id : ScopeId) {f : Scope → Scope}
    (hhead : ∀ s, (f s).head = s.head) (hnames : ∀ s, (f s).names = s.names)
    (hcount : (t.scope id).blockCount ≤ (f (t.scope id)).blockCount)
    (hlimit : (t.scope id).blockCount ≤ counterLimit → (f (t.scope id)).blockCount ≤ counterLimit) :
    Retains t (t.modifyScope id f) := by
  refine ⟨(scopeCount_modifyScope t id f).ge, le_rfl, fun _ _ => rfl,
    fun s _ => t.scope_field_modifyScope Scope.head fun _ => hhead _, fun s space x y hy => ?_, fun s _ => ?_,
    fun s _ hle => ?_⟩
  · rw [t.scope_field_modifyScope Scope.names fun _ => hnames _]
    exact hy
  · rw [scope_modifyScope]
    split
    · next h => exact h.1 ▸ hcount
    · exact le_rfl
  · rw [scope_modifyScope]
    split
    · next h => exact h.1 ▸ hlimit (h.1 ▸ hle)
    · exact hle

theorem retains_addSymbol (t : ScopeTable) {space : Namespace} {new : Symbol}
    (hname : (t.scope new.scope).names.find? space new.name = none) : Retains t (t.addSymbol space new) := by
  have hcount := t.scope_field_addSymbol space new Scope.blockCount fun _ _ _ _ => rfl
  refine ⟨(scopeCount_addSymbol t space new).ge, ?_, fun y hy => symbol_addSymbol_of_lt space new hy,
    fun s _ => t.scope_field_addSymbol space new Scope.head (fun _ _ _ _ => rfl) s, fun s space' x y hy => ?_,
    fun s _ => (hcount s).ge, fun s _ hle => (hcount s).trans_le hle⟩
  · rw [size_symbols_addSymbol]
    exact Nat.le_succ _
  · rw [scope_addSymbol]
    split
    · next h =>
      rw [NameTable.find?_insert, if_neg, hy]
      rintro ⟨rfl, rfl⟩
      rw [h.1, hname] at hy
      cases hy
    · exact hy

/-- A note on a symbol that is new leaves the old ones as they are. -/
theorem Retains.setNestedBlocks (h : Retains t t') {y : SymbolId} (hy : t.symbols.size ≤ y) (count : Nat) :
    Retains t (t'.setNestedBlocks y count) where
  scopeCount_le := h.scopeCount_le
  size_le := by
    rw [(similar_setNestedBlocks t' y count).size_eq]
    exact h.size_le
  symbol_eq z hz := by
    rw [symbol_setNestedBlocks, if_neg fun hzy => Nat.ne_of_lt (hz.trans_le hy) hzy.1]
    exact h.symbol_eq z hz
  head_eq := h.head_eq
  find?_eq := h.find?_eq
  blockCount_le := h.blockCount_le
  blockCount_limited := h.blockCount_limited

end ScopeTable

namespace DeclareM

variable {α β : Type} {d : Declarations}

/-- A step that undoes nothing. -/
def Retaining (m : DeclareM α) : Prop := ∀ d : Declarations, d.table.Retains (m d).2.table

theorem Retaining.bind {m : DeclareM α} {f : α → DeclareM β} (hm : Retaining m) (hf : ∀ a, Retaining (f a)) :
    Retaining (m >>= f) :=
  fun d => (hm d).trans (hf (m d).1 (m d).2)

theorem retaining_of_eq {m : DeclareM α} (h : ∀ d, (m d).2.table = d.table) : Retaining m := by
  intro d
  rw [h]
  exact .refl d.table

/-- A declaration adds a symbol of a new name, or it is reported and changes nothing. -/
theorem declare_apply_cases (scope : ScopeId) (kind : SymbolKind) (name : Ident) (defines : Option ScopeId)
    (d : Declarations) :
    (∃ new : Symbol, (new.scope = scope ∧ new.kind = kind ∧ new.name = name.name ∧ new.defines = defines) ∧
      (d.table.scope scope).names.find? (d.table.spaceOf kind defines) name.name = none ∧
      declare scope kind name defines d = (some d.table.symbols.size,
        { d with table := d.table.addSymbol (d.table.spaceOf kind defines) new })) ∨
    ∃ e : Diagnostic, declare scope kind name defines d = (none, { d with errors := d.errors.push e }) := by
  have hstep : ∀ {result : Except DeclareError SymbolId} {t : ScopeTable},
      d.table.declare scope kind name defines = (result, t) →
      (modifyGet fun d : Declarations =>
        ((d.table.declare scope kind name defines).1,
          { d with table := (d.table.declare scope kind name defines).2 }) :
          DeclareM (Except DeclareError SymbolId)) d = (result, { d with table := t }) := by
    intro result t h
    show (_, _) = _
    rw [h]
  unfold declare
  rw [bind_apply]
  cases hfind : (d.table.scope scope).names.find? (d.table.spaceOf kind defines) name.name with
  | some existing =>
    have hdeclare : d.table.declare scope kind name defines = (.error (.taken existing), d.table) := by
      simp only [ScopeTable.declare, hfind]
    rw [hstep hdeclare]
    exact .inr ⟨_, rfl⟩
  | none =>
    by_cases hlimit : counterLimit ≤ (d.table.scope scope).counters.get kind.counter
    · have hdeclare : d.table.declare scope kind name defines = (.error .full, d.table) := by
        simp only [ScopeTable.declare, hfind, if_pos hlimit]
      rw [hstep hdeclare]
      exact .inr ⟨_, rfl⟩
    · have hdeclare : d.table.declare scope kind name defines = (.ok d.table.symbols.size,
          d.table.addSymbol (d.table.spaceOf kind defines)
            { kind := kind, name := name.name, scope := scope, defines := defines, span := name.span,
              index := (d.table.scope scope).counters.get kind.counter }) := by
        simp only [ScopeTable.declare, hfind, if_neg hlimit]
      rw [hstep hdeclare]
      exact .inl ⟨_, ⟨rfl, rfl, rfl, rfl⟩, rfl, rfl⟩

theorem retaining_declare (scope : ScopeId) (kind : SymbolKind) (name : Ident) (defines : Option ScopeId) :
    Retaining (declare scope kind name defines) := by
  intro d
  rcases declare_apply_cases scope kind name defines d with
    ⟨new, ⟨rfl, rfl, hname, rfl⟩, hfind, h⟩ | ⟨e, h⟩
  · rw [h]
    exact d.table.retains_addSymbol (hname ▸ hfind)
  · rw [h]
    exact .refl _

theorem retaining_declareAll (scope : ScopeId) (kind : SymbolKind) (names : List Ident) :
    Retaining (declareAll scope kind names) := by
  induction names with
  | nil => exact retaining_of_eq fun _ => rfl
  | cons name names ih => exact (retaining_declare scope kind name none).bind fun _ => ih

theorem retaining_nextBlockIndex (method : ScopeId) : Retaining (nextBlockIndex method) := by
  intro d
  rw [nextBlockIndex_apply]
  split
  · exact .refl _
  · next hlimit =>
    exact d.table.retains_modifyScope method (fun _ => rfl) (fun _ => rfl) (Nat.le_succ _)
      fun _ => Nat.lt_of_not_le hlimit

theorem retaining_openBlock (method scope : ScopeId) (info : NodeInfo) (index : Nat) :
    Retaining (openBlock method scope info index) := by
  refine (retaining_of_eq fun _ => rfl).bind fun _ => ?_
  refine Retaining.bind (fun d => d.table.retains_push _) fun inner => ?_
  refine (retaining_of_eq fun _ => rfl).bind fun _ => ?_
  exact (retaining_declare _ _ _ _).bind fun _ => retaining_of_eq fun _ => rfl

/-! ## Opening and closing a block -/

/-- The state in which a block is declared: its scope has been made. -/
def pushBlock (method scope : ScopeId) (info : NodeInfo) (index : Nat) (d : Declarations) : Declarations :=
  { d with
    table := d.table.push (newBlockScope (d.table.scope method).name scope info index)
    blocks := d.blocks.insert info.id d.table.scopeCount }

/-- The name of a block, where it is declared. -/
def blockIdent (method : ScopeId) (info : NodeInfo) (index : Nat) (d : Declarations) : Ident :=
  ⟨(d.table.scope method).name ++ "-block" ++ toString index, info.span⟩

theorem openBlock_apply (method scope : ScopeId) (info : NodeInfo) (index : Nat) (d : Declarations) :
    openBlock method scope info index d =
      ((d.table.scopeCount, (declare scope .block (blockIdent method info index d) (some d.table.scopeCount)
        (pushBlock method scope info index d)).1),
        (declare scope .block (blockIdent method info index d) (some d.table.scopeCount)
          (pushBlock method scope info index d)).2) := rfl

section Block

variable {method scope : ScopeId} {info : NodeInfo} {index : Nat}

theorem retains_beginBlock (method scope : ScopeId) (info : NodeInfo) (params locals : List Ident)
    (index : Nat) (d : Declarations) :
    d.table.Retains (beginBlock method scope info params locals index d).table :=
  ((retaining_openBlock method scope info index d).trans (retaining_declareAll _ _ _ _)).trans
    (retaining_declareAll _ _ _ _)

/-- The symbol of a block is a new one. -/
theorem openBlock_snd {y : SymbolId} (h : (openBlock method scope info index d).1.2 = some y) :
    y = d.table.symbols.size := by
  rw [openBlock_apply] at h
  rcases declare_apply_cases scope .block (blockIdent method info index d) (some d.table.scopeCount)
    (pushBlock method scope info index d) with ⟨new, -, -, hdeclare⟩ | ⟨e, hdeclare⟩ <;> rw [hdeclare] at h
  · exact (Option.some.inj h).symm
  · cases h

theorem retains_closeBlock {t : ScopeTable} {symbol : Option SymbolId} (h : t.Retains d.table)
    (hnew : ∀ y, symbol = some y → t.symbols.size ≤ y) :
    t.Retains (closeBlock method index symbol d).2.table := by
  cases symbol with
  | none => exact h
  | some y => exact h.setNestedBlocks (hnew y rfl) _

end Block

theorem retaining_exprs (method : ScopeId) (es : List Expr) : ∀ scope, Retaining (exprs method scope es) := by
  induction es using Expr.forest_induction with
  | nil =>
    intro scope
    rw [exprs]
    exact retaining_of_eq fun _ => rfl
  | block info params locals statements close es ihs ihes =>
    intro scope
    rw [exprs]
    refine Retaining.bind (fun d => ?_) fun _ => ihes scope
    have hnumber := retaining_nextBlockIndex method d
    rcases hnext : nextBlockIndex method d with ⟨_ | index, d₁⟩ <;> rw [hnext] at hnumber
    · rw [expr_block_of_none hnext]
      exact hnumber
    · rw [expr_block_of_some hnext]
      refine retains_closeBlock ((hnumber.trans (retains_beginBlock _ _ _ _ _ _ _)).trans (ihs _ _))
        fun y hy => ?_
      rw [openBlock_snd hy]
      exact hnumber.size_le
  | other e es he ihe ihes =>
    intro scope
    rw [exprs, expr_eq_exprs he]
    exact (ihe scope).bind fun _ => ihes scope

theorem retaining_expr (method scope : ScopeId) (e : Expr) : Retaining (expr method scope e) := by
  have h := retaining_exprs method [e] scope
  rw [exprs, exprs] at h
  exact h

/-! ## The count of nested blocks does not underflow

What a symbol notes is a difference of counters. The walk below takes the way to subtract as a parameter; as
long as it is right for numbers of 16 bits, where the result is not negative, the outcome is the same. -/

section Subtraction

variable (sub : Nat → Nat → Nat)

/-- `closeBlock` with a given way to subtract. -/
def closeBlockBy (method : ScopeId) (index : Nat) : Option SymbolId → DeclareM Unit
  | none => return
  | some symbol => modify fun d =>
    { d with table := d.table.setNestedBlocks symbol (sub (sub (d.table.scope method).blockCount index) 1) }

mutual

/-- `expr` with a given way to subtract. -/
def exprBy (method scope : ScopeId) : Expr → DeclareM Unit
  | .atom _ _ | .name _ _ => return
  | .array _ items => exprsBy method scope items
  | .block info params locals statements _ => do
    match ← nextBlockIndex method with
    | none => report (.limitExceeded (.counted .blocks) info.span)
    | some index =>
      let opened ← openBlock method scope info index
      declareAll opened.1 .argument params
      declareAll opened.1 .localVar locals
      exprsBy method opened.1 statements
      closeBlockBy sub method index opened.2
  | .send _ receiver _ arguments => do
    exprBy method scope receiver
    exprsBy method scope arguments
  | .superSend _ _ arguments => exprsBy method scope arguments
  | .assign _ target value => do
    exprBy method scope target
    exprBy method scope value
  | .ret _ value => exprBy method scope value

/-- `exprs` with a given way to subtract. -/
def exprsBy (method scope : ScopeId) : List Expr → DeclareM Unit
  | [] => return
  | e :: es => do
    exprBy method scope e
    exprsBy method scope es

end

/-- `methodScope` with a given way to subtract. -/
def methodScopeBy (owner : ScopeId) (selector : Ident) (params : List Ident) (classSide : Bool) :
    MethodBody → DeclareM ScopeId
  | .primitive name => methodScope owner selector params classSide (.primitive name)
  | .code body => do
    let scope ← pushScope (newMethodScope owner selector classSide)
    let _ ← declare owner .method selector (some scope)
    declareAll scope .argument params
    declareAll scope .localVar body.locals
    exprsBy sub scope scope body.statements
    return scope

/-- `methodScopes` with a given way to subtract. -/
def methodScopesBy (owner : ScopeId) (done : Array ScopeId) : List MethodDef → DeclareM (List ScopeId)
  | [] => return done.toList
  | m :: ms => do
    let scope ← methodScopeBy sub owner m.selector m.params m.classSide m.body
    methodScopesBy owner (done.push scope) ms

/-- `classScopes` with a given way to subtract. -/
def classScopesBy (done : Array (ScopeId × List ScopeId)) :
    List ClassDef → DeclareM (List (ScopeId × List ScopeId))
  | [] => return done.toList
  | c :: cs => do
    let scope ← classScope c.name (c.superclass.map (·.name)) c.fields c.span
    let methods ← methodScopesBy sub scope #[] c.methods
    classScopesBy (done.push (scope, methods)) cs

/-- `mainScopes` with a given way to subtract. -/
def mainScopesBy (u : SourceUnit) : DeclareM (Option (ScopeId × ScopeId)) := do
  if u.main.isEmpty then return none
  else
    let owner ← classScope ⟨mainClassName, u.mainSpan⟩ (some mainSuperclassName) [] u.mainSpan
    let method ← methodScopeBy sub owner ⟨mainMethodName, u.mainSpan⟩ [] false (.code u.main)
    return some (owner, method)

end Subtraction

section Equality

variable {sub : Nat → Nat → Nat} {method scope : ScopeId}

theorem exprBy_eq_exprsBy {e : Expr} (he : e.isBlock = false) (method scope : ScopeId) :
    exprBy sub method scope e = exprsBy sub method scope e.children := by
  cases e with
  | block info params locals statements close => cases he
  | atom | name | array | send | superSend | assign | ret => simp [exprBy, exprsBy, Expr.children]

/-- A way to subtract that is right wherever a machine with numbers of 16 bits has an answer. -/
def Subtracts (sub : Nat → Nat → Nat) : Prop := ∀ a b, b ≤ a → a ≤ counterLimit → sub a b = a - b

theorem closeBlockBy_eq (hsub : Subtracts sub) {index : Nat} (symbol : Option SymbolId)
    (hindex : index < (d.table.scope method).blockCount)
    (hlimit : (d.table.scope method).blockCount ≤ counterLimit) :
    closeBlockBy sub method index symbol d = closeBlock method index symbol d := by
  cases symbol with
  | none => rfl
  | some y =>
    have hdiff : sub (sub (d.table.scope method).blockCount index) 1 =
        (d.table.scope method).blockCount - index - 1 := by
      rw [hsub _ _ hindex.le hlimit, hsub _ _ (by omega) (by omega)]
    show (_, { d with table := d.table.setNestedBlocks y (sub (sub _ index) 1) }) = _
    rw [hdiff]
    rfl

/-- In a method whose scope exists, every block is closed after it has been numbered. -/
theorem exprsBy_eq (hsub : Subtracts sub) (es : List Expr) (hmethod : method < d.table.scopeCount)
    (hlimit : (d.table.scope method).blockCount ≤ counterLimit) :
    exprsBy sub method scope es d = exprs method scope es d := by
  induction es using Expr.forest_induction generalizing scope d with
  | nil => rw [exprsBy, exprs]
  | block info params locals statements close es ihs ihes =>
    have hretains := retaining_expr method scope (.block info params locals statements close) d
    have hblock : exprBy sub method scope (.block info params locals statements close) d =
        expr method scope (.block info params locals statements close) d := by
      have hnumber := retaining_nextBlockIndex method d
      rcases hnext : nextBlockIndex method d with ⟨_ | index, d₁⟩ <;> rw [hnext] at hnumber
      · rw [expr_block_of_none hnext, exprBy, bind_apply, hnext]
      · have hbegin := retains_beginBlock method scope info params locals index d₁
        have hmethod₁ := hmethod.trans_le hnumber.scopeCount_le
        have hlimit₁ := hnumber.blockCount_limited method hmethod hlimit
        obtain ⟨hindex, -, -, hnumbered⟩ := numbered_of_nextBlockIndex hmethod hnext
        have hlt : index < (d₁.table.scope method).blockCount := by
          rw [hnumbered.blockCount_method, ← hindex]
          exact Nat.lt_succ_self index
        have hinside := hbegin.trans (retaining_exprs method statements d₁.table.scopeCount _)
        have hstatements := @ihs (beginBlock method scope info params locals index d₁) d₁.table.scopeCount
          (hmethod₁.trans_le hbegin.scopeCount_le) (hbegin.blockCount_limited method hmethod₁ hlimit₁)
        have hclose := closeBlockBy_eq hsub (openBlock method scope info index d₁).1.2
          (hlt.trans_le (hinside.blockCount_le method hmethod₁))
          (hinside.blockCount_limited method hmethod₁ hlimit₁)
        rw [expr_block_of_some hnext, ← hclose, ← hstatements, exprBy, bind_apply, hnext]
        rfl
    rw [exprsBy, exprs, bind_apply, bind_apply, hblock]
    exact ihes (hmethod.trans_le hretains.scopeCount_le) (hretains.blockCount_limited method hmethod hlimit)
  | other e es he ihe ihes =>
    have hretains := retaining_exprs method e.children scope d
    rw [exprsBy, exprs, exprBy_eq_exprsBy he, expr_eq_exprs he, bind_apply, bind_apply, ihe hmethod hlimit]
    exact ihes (hmethod.trans_le hretains.scopeCount_le) (hretains.blockCount_limited method hmethod hlimit)

theorem methodScopeBy_eq (hsub : Subtracts sub) (owner : ScopeId) (selector : Ident) (params : List Ident)
    (classSide : Bool) (body : MethodBody) :
    methodScopeBy sub owner selector params classSide body =
      methodScope owner selector params classSide body := by
  cases body with
  | primitive name => rfl
  | code body =>
    funext d
    have hnew := d.table.scopeCount_lt_push (newMethodScope owner selector classSide)
    have hzero : ((d.table.push (newMethodScope owner selector classSide)).scope d.table.scopeCount).blockCount
        ≤ counterLimit := by
      rw [scope_push_self]
      exact Nat.zero_le _
    have hretains := ((retaining_declare owner .method selector (some d.table.scopeCount)
      { d with table := d.table.push (newMethodScope owner selector classSide) }).trans
        (retaining_declareAll d.table.scopeCount .argument params _)).trans
          (retaining_declareAll d.table.scopeCount .localVar body.locals _)
    have hbody := @exprsBy_eq _ _ _ d.table.scopeCount hsub body.statements
      (hnew.trans_le hretains.scopeCount_le) (hretains.blockCount_limited _ hnew hzero)
    rw [methodScope_code_apply]
    exact congrArg (fun r : Unit × Declarations => (d.table.scopeCount, r.2)) hbody

theorem methodScopesBy_eq (hsub : Subtracts sub) (owner : ScopeId) (done : Array ScopeId)
    (methods : List MethodDef) : methodScopesBy sub owner done methods = methodScopes owner done methods := by
  induction methods generalizing done with
  | nil => rfl
  | cons m methods ih => simp only [methodScopesBy, methodScopes, methodScopeBy_eq hsub, ih]

theorem classScopesBy_eq (hsub : Subtracts sub) (done : Array (ScopeId × List ScopeId))
    (classes : List ClassDef) : classScopesBy sub done classes = classScopes done classes := by
  induction classes generalizing done with
  | nil => rfl
  | cons c classes ih => simp only [classScopesBy, classScopes, methodScopesBy_eq hsub, ih]

theorem mainScopesBy_eq (hsub : Subtracts sub) (u : SourceUnit) : mainScopesBy sub u = mainScopes u := by
  simp only [mainScopesBy, methodScopeBy_eq hsub]
  rfl

end Equality

end DeclareM

/-- `declareUnit` with a given way to subtract. -/
def declareUnitBy (sub : Nat → Nat → Nat) (u : SourceUnit) : Declared :=
  let classes := DeclareM.classScopesBy sub #[] u.classes {}
  let main := DeclareM.mainScopesBy sub u classes.2
  { table := main.2.table
    scopes :=
      { classes := classes.1.map (·.1)
        methods := classes.1.map (·.2)
        main := main.1
        blocks := main.2.blocks }
    errors := main.2.errors.toList }

/-- No unit makes the count of nested blocks underflow, whether it has errors or not. -/
theorem declareUnitBy_eq {sub : Nat → Nat → Nat} (hsub : DeclareM.Subtracts sub) (u : SourceUnit) :
    declareUnitBy sub u = declareUnit u := by
  rw [declareUnit_eq, declareUnitBy, DeclareM.classScopesBy_eq hsub, DeclareM.mainScopesBy_eq hsub]

/-! ## The symbols of blocks -/

namespace ScopeTable

/-- The symbol of a block: it stands for the scope of the block, is found by the name of the block in the
scope around it, and notes how many blocks are inside. -/
structure IsBlockSymbol (t : ScopeTable) (inner : ScopeId) (y : SymbolId) (nested : Nat) : Prop where
  kind_eq : (t.symbol y).kind = .block
  defines_eq : (t.symbol y).defines = some inner
  name_eq : (t.symbol y).name = (t.scope inner).name
  parent_eq : (t.scope inner).parent = some (t.symbol y).scope
  find?_eq : (t.scope (t.symbol y).scope).names.find? .blocks (t.symbol y).name = some y
  nestedBlocks_eq : (t.symbol y).nestedBlocks = nested

namespace IsBlockSymbol

variable {t t' : ScopeTable} {inner : ScopeId} {y : SymbolId} {nested : Nat}

theorem symbol_lt (h : t.IsBlockSymbol inner y nested) : y < t.symbols.size := by
  by_contra hy
  have hkind := h.kind_eq
  rw [symbol_eq, Array.getElem?_eq_none (Nat.le_of_not_lt hy)] at hkind
  cases hkind

theorem scope_lt (h : t.IsBlockSymbol inner y nested) : inner < t.scopeCount := by
  by_contra hinner
  have hparent := h.parent_eq
  rw [scope_of_le (Nat.le_of_not_lt hinner)] at hparent
  cases hparent

theorem retained (h : t.IsBlockSymbol inner y nested) (ht : t.Retains t') :
    t'.IsBlockSymbol inner y nested := by
  have hsymbol := ht.symbol_eq y h.symbol_lt
  have hhead := ht.head_eq inner h.scope_lt
  obtain ⟨hkind, hdefines, hname, hparent, hfind, hnested⟩ := h
  refine ⟨?_, ?_, ?_, ?_, ?_, ?_⟩
  · rw [hsymbol, hkind]
  · rw [hsymbol, hdefines]
  · rw [hsymbol, hname]
    exact (Scope.field_eq_of_head_eq hhead Scope.name fun _ => rfl).symm
  · rw [hsymbol, ← hparent]
    exact Scope.field_eq_of_head_eq hhead Scope.parent fun _ => rfl
  · rw [hsymbol]
    exact ht.find?_eq _ _ _ _ hfind
  · rw [hsymbol, hnested]

/-- Another symbol may get a note. -/
theorem setNestedBlocks_of_ne (h : t.IsBlockSymbol inner y nested) {z : SymbolId} (hz : y ≠ z) (count : Nat) :
    (t.setNestedBlocks z count).IsBlockSymbol inner y nested := by
  have hsymbol : (t.setNestedBlocks z count).symbol y = t.symbol y := by
    rw [symbol_setNestedBlocks, if_neg fun hyz => hz hyz.1]
  obtain ⟨hkind, hdefines, hname, hparent, hfind, hnested⟩ := h
  rw [← hsymbol] at hkind hdefines hname hparent hfind hnested
  exact ⟨hkind, hdefines, hname, hparent, hfind, hnested⟩

/-- The note is what has been noted last. -/
theorem setNestedBlocks (h : t.IsBlockSymbol inner y nested) (count : Nat) :
    (t.setNestedBlocks y count).IsBlockSymbol inner y count := by
  have hsymbol : (t.setNestedBlocks y count).symbol y = { t.symbol y with nestedBlocks := count } := by
    rw [symbol_setNestedBlocks, if_pos ⟨rfl, h.symbol_lt⟩]
  obtain ⟨hkind, hdefines, hname, hparent, hfind, -⟩ := h
  refine ⟨?_, ?_, ?_, ?_, ?_, ?_⟩ <;> rw [hsymbol]
  · exact hkind
  · exact hdefines
  · exact hname
  · exact hparent
  · exact hfind

end IsBlockSymbol

/-- The blocks in some expressions have symbols, from number `lo` on, that note how many blocks are inside. -/
def NotesBlocks (t : ScopeTable) (blockScopes : Std.TreeMap Nat ScopeId) (lo : SymbolId)
    (es : List Expr) : Prop :=
  ∀ n ∈ Expr.blockNodes es, ∃ inner y, blockScopes[n.id]? = some inner ∧ lo ≤ y ∧
    t.IsBlockSymbol inner y (Expr.blockCountOfAll n.children)

namespace NotesBlocks

variable {t t' : ScopeTable} {blockScopes blockScopes' : Std.TreeMap Nat ScopeId} {lo lo' : SymbolId}
  {es fs : List Expr}

theorem append (h : t.NotesBlocks blockScopes lo es) (h' : t.NotesBlocks blockScopes lo fs) :
    t.NotesBlocks blockScopes lo (es ++ fs) := by
  rw [NotesBlocks, Expr.blockNodes_append]
  exact List.forall_mem_append.mpr ⟨h, h'⟩

theorem mono (h : t.NotesBlocks blockScopes lo es) (hlo : lo' ≤ lo) : t.NotesBlocks blockScopes lo' es := by
  intro n hn
  obtain ⟨inner, y, hinner, hy, hsymbol⟩ := h n hn
  exact ⟨inner, y, hinner, hlo.trans hy, hsymbol⟩

theorem retained (h : t.NotesBlocks blockScopes lo es) (ht : t.Retains t')
    (hscopes : ∀ (i : Nat) (s : ScopeId), blockScopes[i]? = some s → blockScopes'[i]? = some s) :
    t'.NotesBlocks blockScopes' lo es := by
  intro n hn
  obtain ⟨inner, y, hinner, hy, hsymbol⟩ := h n hn
  exact ⟨inner, y, hscopes _ _ hinner, hy, hsymbol.retained ht⟩

end NotesBlocks

end ScopeTable

namespace DeclareM

open Declarations Smalltalk.Expr

variable {d : Declarations} {method scope : ScopeId}

/-- Opening a block without an error makes a symbol for it. -/
theorem isBlockSymbol_openBlock {info : NodeInfo} {index : Nat} (hscope : scope < d.table.scopeCount)
    (hclean : (openBlock method scope info index d).2.errors = #[]) :
    (openBlock method scope info index d).1.2 = some d.table.symbols.size ∧
      ∃ nested, (openBlock method scope info index d).2.table.IsBlockSymbol d.table.scopeCount
        d.table.symbols.size nested := by
  have hscope' : scope < (pushBlock method scope info index d).table.scopeCount :=
    hscope.trans (d.table.scopeCount_lt_push _)
  have hlast : (pushBlock method scope info index d).table.scope d.table.scopeCount =
      newBlockScope (d.table.scope method).name scope info index := by
    rw [pushBlock, scope_push_self]
  rw [openBlock_apply] at hclean ⊢
  rcases declare_apply_cases scope .block (blockIdent method info index d) (some d.table.scopeCount)
    (pushBlock method scope info index d) with
    ⟨new, ⟨rfl, hkind, hname, hdefines⟩, -, hdeclare⟩ | ⟨e, hdeclare⟩ <;> rw [hdeclare] at hclean ⊢
  · refine ⟨rfl, new.nestedBlocks, ?_⟩
    have hsymbol : ((pushBlock method new.scope info index d).table.addSymbol .blocks new).symbol
        d.table.symbols.size = new := by
      rw [symbol_addSymbol]
      exact if_pos rfl
    have hinner : ((pushBlock method new.scope info index d).table.addSymbol .blocks new).scope
        d.table.scopeCount = newBlockScope (d.table.scope method).name new.scope info index := by
      rw [scope_addSymbol_of_ne _ _ (Nat.ne_of_gt hscope), hlast]
    have hfind : (((pushBlock method new.scope info index d).table.addSymbol .blocks new).scope
        new.scope).names.find? .blocks new.name = some d.table.symbols.size := by
      rw [find?_addSymbol hscope']
      exact if_pos ⟨rfl, rfl, rfl⟩
    change ((pushBlock method new.scope info index d).table.addSymbol .blocks new).IsBlockSymbol _ _ _
    generalize (pushBlock method new.scope info index d).table.addSymbol .blocks new = t
      at hsymbol hinner hfind ⊢
    refine ⟨?_, ?_, ?_, ?_, ?_, ?_⟩ <;> rw [hsymbol]
    · exact hkind
    · exact hdefines
    · rw [hinner, hname]
      rfl
    · rw [hinner]
      rfl
    · exact hfind
  · exact absurd hclean Array.push_ne_empty

/-- When a block is closed, its symbol notes how many blocks have been numbered since. -/
theorem notesBlocks_closeBlock {info : NodeInfo} {params locals : List Ident} {statements : List Expr}
    {close : Span} {index nested : Nat} {inner : ScopeId} {y lo lo' : SymbolId}
    (hscope : d.blocks[info.id]? = some inner) (hblock : d.table.IsBlockSymbol inner y nested) (hlo : lo ≤ y)
    (hlo' : y < lo') (hinside : d.table.NotesBlocks d.blocks lo' statements)
    (hcount : (d.table.scope method).blockCount = index + 1 + blockCountOfAll statements) :
    (closeBlock method index (some y) d).2.table.NotesBlocks (closeBlock method index (some y) d).2.blocks lo
      [.block info params locals statements close] := by
  have hclosed : (closeBlock method index (some y) d).2 =
      { d with table := d.table.setNestedBlocks y (blockCountOfAll statements) } := by
    have hnested : (d.table.scope method).blockCount - index - 1 = blockCountOfAll statements := by
      rw [hcount]
      omega
    rw [← hnested]
    rfl
  rw [hclosed, NotesBlocks, blockNodes_cons_block]
  refine List.forall_mem_cons.mpr ⟨⟨inner, y, hscope, hlo, hblock.setNestedBlocks _⟩, fun n hn => ?_⟩
  obtain ⟨inner', z, hinner', hz, hsymbol⟩ := hinside n (by simpa [blockNodes] using hn)
  have hyz : y < z := hlo'.trans_le hz
  exact ⟨inner', z, hinner', hlo.trans hyz.le, hsymbol.setNestedBlocks_of_ne (Nat.ne_of_gt hyz) _⟩

/-- Going through a block without errors leaves a symbol that notes how many blocks are inside. -/
theorem notesBlocks_block {info : NodeInfo} {params locals : List Ident} {statements : List Expr} {close : Span}
    (ih : ∀ {scope : ScopeId} {d : Declarations}, d.table.Valid → method < d.table.scopeCount →
      scope < d.table.scopeCount → (ids statements).Nodup → (∀ i ∈ ids statements, d.blocks[i]? = none) →
      (exprs method scope statements d).2.errors = #[] →
      (exprs method scope statements d).2.table.NotesBlocks (exprs method scope statements d).2.blocks
        d.table.symbols.size statements)
    (hvalid : d.table.Valid) (hmethod : method < d.table.scopeCount) (hscope : scope < d.table.scopeCount)
    (hnodup : (ids [Expr.block info params locals statements close]).Nodup)
    (hfresh : ∀ i ∈ ids [Expr.block info params locals statements close], d.blocks[i]? = none)
    (hclean : (expr method scope (.block info params locals statements close) d).2.errors = #[]) :
    (expr method scope (.block info params locals statements close) d).2.table.NotesBlocks
      (expr method scope (.block info params locals statements close) d).2.blocks d.table.symbols.size
      [.block info params locals statements close] := by
  have hids : ids [Expr.block info params locals statements close] = info.id :: ids statements :=
    ids_singleton _
  rw [hids, List.nodup_cons] at hnodup
  rw [hids, List.forall_mem_cons] at hfresh
  have hretains := retaining_nextBlockIndex method d
  rcases hnext : nextBlockIndex method d with ⟨_ | index, d₁⟩ <;> rw [hnext] at hretains
  · rw [expr_block_of_none hnext] at hclean
    exact absurd hclean Array.push_ne_empty
  · obtain ⟨hindex, -, -, hnumbered⟩ := numbered_of_nextBlockIndex hmethod hnext
    rw [expr_block_of_some hnext] at hclean ⊢
    have hscope₁ := hscope.trans_le hretains.scopeCount_le
    have hclean₃ := (keepsErrors_closeBlock _ _ _).clean hclean
    have hclean₂ := (keepsErrors_exprs (fun e _ => keepsErrors_expr method e) _).clean hclean₃
    have hopens := opens_beginBlock (hnumbered.similar.valid hvalid) hscope₁
      (hnumbered.blocks_eq ▸ hfresh.1) hclean₂
    have hclean₁ := (keepsErrors_declareAll _ _ _).clean ((keepsErrors_declareAll _ _ _).clean hclean₂)
    obtain ⟨hsymbol, nested, hblock⟩ := isBlockSymbol_openBlock hscope₁ hclean₁
    have hfilled : (openBlock method scope info index d₁).2.table.Retains
        (beginBlock method scope info params locals index d₁).table :=
      (retaining_declareAll _ _ _ _).trans (retaining_declareAll _ _ _ _)
    have hmethod₁ := hmethod.trans_le hretains.scopeCount_le
    have hfresh₂ : ∀ i ∈ ids statements,
        (beginBlock method scope info params locals index d₁).blocks[i]? = none := by
      rw [hopens.blocks_eq, hnumbered.blocks_eq]
      exact getElem?_insert_eq_none hnodup.1 hfresh.2
    have hinside := ih hopens.valid (hmethod₁.trans hopens.scope_lt) hopens.scope_lt hnodup.2 hfresh₂ hclean₃
    have hbody := walked_exprs (fun e _ => walked_expr method e) hopens.valid
      (hmethod₁.trans hopens.scope_lt) hopens.scope_lt hnodup.2 hfresh₂ hclean₃
    have hown := (hblock.retained hfilled).retained
      (retaining_exprs method statements d₁.table.scopeCount _)
    have hnew : d₁.table.symbols.size <
        (beginBlock method scope info params locals index d₁).table.symbols.size :=
      hblock.symbol_lt.trans_le hfilled.size_le
    rw [hsymbol]
    refine notesBlocks_closeBlock (hbody.grows.blocks_le _ _ ?_) hown hretains.size_le hnew hinside ?_
    · rw [hopens.blocks_eq]
      exact Std.TreeMap.getElem?_insert_self
    · rw [hbody.blockCount_method, hopens.blockCount_eq method hmethod₁, hnumbered.blockCount_method, hindex]

/-- What the first of several expressions leaves is still there after the others. -/
theorem notesBlocks_cons {e : Expr} {es : List Expr}
    (hfirst : (ids [e]).Nodup → (∀ i ∈ ids [e], d.blocks[i]? = none) →
      (expr method scope e d).2.errors = #[] → (expr method scope e d).2.table.NotesBlocks
        (expr method scope e d).2.blocks d.table.symbols.size [e])
    (hrest : ∀ d' : Declarations, d'.table.Valid → method < d'.table.scopeCount → scope < d'.table.scopeCount →
      (∀ i ∈ ids es, d'.blocks[i]? = none) → (exprs method scope es d').2.errors = #[] →
      (exprs method scope es d').2.table.NotesBlocks (exprs method scope es d').2.blocks
        d'.table.symbols.size es)
    (hvalid : d.table.Valid) (hmethod : method < d.table.scopeCount) (hscope : scope < d.table.scopeCount)
    (hnodup : (ids (e :: es)).Nodup) (hfresh : ∀ i ∈ ids (e :: es), d.blocks[i]? = none)
    (hclean : (exprs method scope (e :: es) d).2.errors = #[]) :
    (exprs method scope (e :: es) d).2.table.NotesBlocks (exprs method scope (e :: es) d).2.blocks
      d.table.symbols.size (e :: es) := by
  rw [exprs, bind_apply] at hclean ⊢
  have hids : ids (e :: es) = ids [e] ++ ids es := ids_append [e] es
  rw [hids, List.nodup_append'] at hnodup
  rw [hids, List.forall_mem_append] at hfresh
  have hclean₁ := (keepsErrors_exprs (fun e' _ => keepsErrors_expr method e') scope).clean hclean
  have hwalked := walked_expr method e scope d hvalid hmethod hscope hnodup.1 hfresh.1 hclean₁
  have hmethod₁ := hmethod.trans_le hwalked.grows.scopeCount_le
  have hscope₁ := hscope.trans_le hwalked.grows.scopeCount_le
  have hfresh₁ : ∀ i ∈ ids es, (expr method scope e d).2.blocks[i]? = none := by
    intro i hi
    rw [hwalked.blocks_eq i fun hi' => hnodup.2.2 hi' hi]
    exact hfresh.2 i hi
  have hlater := walked_exprs (fun e' _ => walked_expr method e') hwalked.valid hmethod₁ hscope₁ hnodup.2.1
    hfresh₁ hclean
  have hhead := (hfirst hnodup.1 hfresh.1 hclean₁).retained (retaining_exprs method es scope _)
    hlater.grows.blocks_le
  have htail := (hrest _ hwalked.valid hmethod₁ hscope₁ hfresh₁ hclean).mono
    (retaining_expr method scope e d).size_le
  exact hhead.append htail

/-- Going through several expressions without errors leaves such a symbol for every block in them. -/
theorem notesBlocks_exprs {es : List Expr} (hvalid : d.table.Valid) (hmethod : method < d.table.scopeCount)
    (hscope : scope < d.table.scopeCount) (hnodup : (ids es).Nodup)
    (hfresh : ∀ i ∈ ids es, d.blocks[i]? = none) (hclean : (exprs method scope es d).2.errors = #[]) :
    (exprs method scope es d).2.table.NotesBlocks (exprs method scope es d).2.blocks
      d.table.symbols.size es := by
  induction es using forest_induction generalizing scope d with
  | nil => exact fun n hn => absurd hn List.not_mem_nil
  | block info params locals statements close es ihs ihes =>
    have hnodup' := hnodup
    rw [ids_cons_block, List.nodup_cons, List.nodup_append'] at hnodup'
    refine notesBlocks_cons (notesBlocks_block ihs hvalid hmethod hscope)
      (fun d' hvalid' hmethod' hscope' => ?_) hvalid hmethod hscope hnodup hfresh hclean
    exact ihes hvalid' hmethod' hscope' hnodup'.2.2.1
  | other e es he ihe ihes =>
    have hnodup' := hnodup
    rw [ids_cons_children, List.nodup_cons, List.nodup_append'] at hnodup'
    refine notesBlocks_cons (fun hnodup₁ hfresh₁ hclean₁ => ?_) (fun d' hvalid' hmethod' hscope' => ?_)
      hvalid hmethod hscope hnodup hfresh hclean
    · rw [ids_singleton, List.forall_mem_cons] at hfresh₁
      rw [expr_eq_exprs he] at hclean₁ ⊢
      rw [NotesBlocks, blockNodes_cons_other he]
      have hparts := ihe hvalid hmethod hscope hnodup'.2.1 hfresh₁.2 hclean₁
      exact List.forall_mem_append.mpr ⟨hparts, fun n hn => absurd hn List.not_mem_nil⟩
    · exact ihes hvalid' hmethod' hscope' hnodup'.2.2.1

/-! ## Units -/

variable {owner : ScopeId}

theorem notesBlocks_methodScope {selector : Ident} {params : List Ident} {classSide : Bool} {body : MethodBody}
    (hvalid : d.table.Valid) (howner : owner < d.table.scopeCount) (hnodup : (ids body.statements).Nodup)
    (hfresh : ∀ i ∈ ids body.statements, d.blocks[i]? = none)
    (hclean : (methodScope owner selector params classSide body d).2.errors = #[]) :
    (methodScope owner selector params classSide body d).2.table.NotesBlocks
      (methodScope owner selector params classSide body d).2.blocks 0 body.statements := by
  cases body with
  | code body =>
    rw [methodScope_code_apply] at hclean ⊢
    have hclean₂ := (keepsErrors_exprs (fun e _ => keepsErrors_expr d.table.scopeCount e) _).clean hclean
    have hclean₁ := (keepsErrors_declareAll _ _ _).clean hclean₂
    have hopens := (opens_beginMethod hvalid howner hclean₁).declareAll rfl (by decide) hclean₂
    exact (notesBlocks_exprs hopens.valid hopens.scope_lt hopens.scope_lt hnodup
      (fun i hi => by rw [hopens.blocks_eq]; exact hfresh i hi) hclean).mono (Nat.zero_le _)
  | primitive name => exact fun n hn => absurd hn List.not_mem_nil

theorem retaining_methodScope (owner : ScopeId) (selector : Ident) (params : List Ident) (classSide : Bool)
    (body : MethodBody) : Retaining (methodScope owner selector params classSide body) := by
  refine Retaining.bind (fun d => d.table.retains_push _) fun scope => ?_
  refine (retaining_declare _ _ _ _).bind fun _ => (retaining_declareAll _ _ _).bind fun _ => ?_
  cases body with
  | code body =>
    exact (retaining_declareAll _ _ _).bind fun _ => (retaining_exprs scope body.statements scope).bind fun _ =>
      retaining_of_eq fun _ => rfl
  | primitive name =>
    refine Retaining.bind (fun d => ?_) fun _ => retaining_of_eq fun _ => rfl
    exact d.table.retains_modifyScope scope (fun _ => rfl) (fun _ => rfl) le_rfl fun hle => hle

theorem retaining_methodScopes (owner : ScopeId) (done : Array ScopeId) (methods : List MethodDef) :
    Retaining (methodScopes owner done methods) := by
  induction methods generalizing done with
  | nil => exact retaining_of_eq fun _ => rfl
  | cons m methods ih => exact (retaining_methodScope _ _ _ _ _).bind fun _ => ih _

theorem retaining_classScope (name : Ident) (superclass : Option String) (fields : List Ident) (span : Span) :
    Retaining (classScope name superclass fields span) := by
  refine Retaining.bind (fun d => d.table.retains_push _) fun scope => ?_
  refine (retaining_declare _ _ _ _).bind fun _ => ?_
  exact (retaining_declareAll _ _ _).bind fun _ => retaining_of_eq fun _ => rfl

theorem retaining_classScopes (done : Array (ScopeId × List ScopeId)) (classes : List ClassDef) :
    Retaining (classScopes done classes) := by
  induction classes generalizing done with
  | nil => exact retaining_of_eq fun _ => rfl
  | cons c classes ih =>
    exact (retaining_classScope _ _ _ _).bind fun _ => (retaining_methodScopes _ _ _).bind fun _ => ih _

theorem retaining_mainScopes (u : SourceUnit) : Retaining (mainScopes u) := by
  unfold mainScopes
  split
  · exact retaining_of_eq fun _ => rfl
  · exact (retaining_classScope _ _ _ _).bind fun _ => (retaining_methodScope _ _ _ _ _).bind fun _ =>
      retaining_of_eq fun _ => rfl

theorem notesBlocks_methodScopes {methods : List MethodDef} {done : Array ScopeId}
    (hvalid : d.table.Valid) (howner : owner < d.table.scopeCount)
    (hnodup : (ids (statementsOfMethods methods)).Nodup)
    (hfresh : ∀ i ∈ ids (statementsOfMethods methods), d.blocks[i]? = none)
    (hclean : (methodScopes owner done methods d).2.errors = #[]) :
    (methodScopes owner done methods d).2.table.NotesBlocks (methodScopes owner done methods d).2.blocks 0
      (statementsOfMethods methods) := by
  induction methods generalizing d done with
  | nil => exact fun n hn => absurd hn List.not_mem_nil
  | cons m methods ih =>
    rw [methodScopes, bind_apply] at hclean ⊢
    have hsplit : statementsOfMethods (m :: methods) = m.body.statements ++ statementsOfMethods methods :=
      List.flatMap_cons
    rw [hsplit] at hnodup hfresh ⊢
    have hparts := hnodup
    rw [ids_append, List.nodup_append'] at hparts
    have hclean₁ := (keepsErrors_methodScopes owner _ methods).clean hclean
    have hfresh₁ : ∀ i ∈ ids m.body.statements, d.blocks[i]? = none :=
      fun i hi => hfresh i (by rw [ids_append]; exact List.mem_append_left _ hi)
    obtain ⟨-, hsettled, -⟩ := settled_methodScope hvalid howner hparts.1 hfresh₁ hclean₁
    have howner₁ := howner.trans_le hsettled.keeps.grows.scopeCount_le
    have hfresh₂ := hsettled.fresh hnodup hfresh
    obtain ⟨hlater, -⟩ := settled_methodScopes hsettled.valid howner₁ hparts.2.1 hfresh₂ hclean
    exact ((notesBlocks_methodScope hvalid howner hparts.1 hfresh₁ hclean₁).retained
      (retaining_methodScopes owner _ methods _) hlater.keeps.grows.blocks_le).append
      (ih hsettled.valid howner₁ hparts.2.1 hfresh₂ hclean)

theorem notesBlocks_classScopes {classes : List ClassDef} {done : Array (ScopeId × List ScopeId)}
    (hvalid : d.table.Valid) (hnodup : (ids (statementsOfClasses classes)).Nodup)
    (hfresh : ∀ i ∈ ids (statementsOfClasses classes), d.blocks[i]? = none)
    (hclean : (classScopes done classes d).2.errors = #[]) :
    (classScopes done classes d).2.table.NotesBlocks (classScopes done classes d).2.blocks 0
      (statementsOfClasses classes) := by
  induction classes generalizing d done with
  | nil => exact fun n hn => absurd hn List.not_mem_nil
  | cons c classes ih =>
    rw [classScopes, bind_apply, bind_apply, classScope_fst] at hclean ⊢
    have hsplit : statementsOfClasses (c :: classes)
        = statementsOfMethods c.methods ++ statementsOfClasses classes := List.flatMap_cons
    rw [hsplit] at hnodup hfresh ⊢
    have hparts := hnodup
    rw [ids_append, List.nodup_append'] at hparts
    have hclean₂ := (keepsErrors_classScopes _ _).clean hclean
    have hopens := opens_classScope hvalid ((keepsErrors_methodScopes _ _ _).clean hclean₂)
    have hfresh₁ : ∀ i ∈ ids (statementsOfMethods c.methods),
        (classScope c.name (c.superclass.map (·.name)) c.fields c.span d).2.blocks[i]? = none := by
      intro i hi
      rw [hopens.blocks_eq]
      exact hfresh i (by rw [ids_append]; exact List.mem_append_left _ hi)
    obtain ⟨hsettled, -⟩ := settled_methodScopes hopens.valid hopens.scope_lt hparts.1 hfresh₁ hclean₂
    have hfresh₂ := ((settled_of_opens hopens).append hsettled).fresh hnodup hfresh
    obtain ⟨_, -, hlater⟩ := declaredClasses_classScopes hsettled.valid hparts.2.1 hfresh₂ hclean
    exact ((notesBlocks_methodScopes hopens.valid hopens.scope_lt hparts.1 hfresh₁ hclean₂).retained
      (retaining_classScopes _ classes _) hlater.settled.keeps.grows.blocks_le).append
      (ih hsettled.valid hparts.2.1 hfresh₂ hclean)

theorem notesBlocks_mainScopes {u : SourceUnit} (hvalid : d.table.Valid)
    (hnodup : (ids u.main.statements).Nodup) (hfresh : ∀ i ∈ ids u.main.statements, d.blocks[i]? = none)
    (hclean : (mainScopes u d).2.errors = #[]) :
    (mainScopes u d).2.table.NotesBlocks (mainScopes u d).2.blocks 0 u.main.statements := by
  by_cases hempty : u.main.isEmpty
  · have hnone : u.main.statements = [] := by
      rw [Body.isEmpty, Bool.and_eq_true] at hempty
      exact List.isEmpty_iff.mp hempty.2
    rw [hnone]
    exact fun n hn => absurd hn List.not_mem_nil
  · obtain ⟨span, hmain⟩ := mainScopes_of_not_isEmpty hempty d
    rw [hmain] at hclean ⊢
    have hopens := opens_classScope hvalid ((keepsErrors_methodScope _ _ _ _ _).clean hclean)
    generalize (classScope ⟨mainClassName, span⟩ (some mainSuperclassName) [] span d).2 = d₁ at hclean hopens ⊢
    exact notesBlocks_methodScope hopens.valid hopens.scope_lt hnodup (hopens.blocks_eq ▸ hfresh) hclean

end DeclareM

/-- In a unit that is declared without errors, the symbol of every block notes how many blocks are inside. -/
theorem notesBlocks_declareUnit {u : SourceUnit} (hnodup : (Expr.ids u.statements).Nodup)
    (hclean : (declareUnit u).errors = []) :
    (declareUnit u).table.NotesBlocks (declareUnit u).scopes.blocks 0 u.statements := by
  rw [declareUnit_eq] at hclean ⊢
  have hclean₂ : (DeclareM.mainScopes u (DeclareM.classScopes #[] u.classes {}).2).2.errors = #[] :=
    Array.toList_eq_nil_iff.mp hclean
  have hclean₁ := (DeclareM.keepsErrors_mainScopes u).clean hclean₂
  have hsplit := hnodup
  rw [SourceUnit.statements, Expr.ids_append, List.nodup_append'] at hsplit
  have hempty : ∀ i : Nat, ({} : Declarations).blocks[i]? = none := fun i => Std.TreeMap.getElem?_emptyc
  obtain ⟨entries, -, hclasses⟩ := DeclareM.declaredClasses_classScopes valid_empty hsplit.1
    (fun i _ => hempty i) hclean₁
  have hfresh := hclasses.settled.fresh hnodup fun i _ => hempty i
  have hmain := DeclareM.declaredClasses_mainScopes hclasses.settled.valid hsplit.2.1 hfresh hclean₂
  exact ((DeclareM.notesBlocks_classScopes valid_empty hsplit.1 (fun i _ => hempty i) hclean₁).retained
    (DeclareM.retaining_mainScopes u _) hmain.settled.keeps.grows.blocks_le).append
    (DeclareM.notesBlocks_mainScopes hclasses.settled.valid hsplit.2.1 hfresh hclean₂)

end Smalltalk
