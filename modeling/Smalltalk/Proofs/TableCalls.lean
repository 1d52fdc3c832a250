import Mathlib
import Smalltalk.Proofs.Lookup

/-!
# Runs of calls on a scope table

A scope table is only changed through a few calls: scopes are made, names are declared, and some facts about
a scope or a symbol are set later. Whatever calls are made, and in whatever order, the symbols of a scope, its
names and its counters stay in step. The one thing to observe is that the side of a method is settled before
the method is declared, for its namespace depends on that.
-/

namespace Smalltalk

/-! ## Calls -/

/-- A call that may change a scope table. -/
inductive TableCall where
  /-- Makes a scope inside another one. -/
  | push (kind : ScopeKind) (name : String) (parent : ScopeId) (span : Span)
  /-- Says which class a class extends. -/
  | setSuperclass (id : ScopeId) (name : Option String)
  /-- Says on which side of its class a method is. -/
  | setClassSide (id : ScopeId) (classSide : Bool)
  /-- Declares a name in a scope. -/
  | declare (id : ScopeId) (kind : SymbolKind) (name : Ident) (defines : Option ScopeId)
  /-- Notes how many blocks are inside a block. -/
  | setNestedBlocks (id : SymbolId) (count : Nat)
  /-- Asks for the next block number of a method. -/
  | nextBlockIndex (method : ScopeId)

/-- What a call answers. -/
inductive TableAnswer where
  | done
  | scope (id : ScopeId)
  | declared (result : Except DeclareError SymbolId)
  | blockIndex (index : Option Nat)

namespace TableCall

/-- What a call answers, and the table after it. -/
def apply (t : ScopeTable) : TableCall → TableAnswer × ScopeTable
  | push kind name parent span =>
    (.scope t.scopeCount, t.push { kind := kind, name := name, parent := some parent, span := span })
  | setSuperclass id name => (.done, t.modifyScope id fun s => { s with superclass := name })
  | setClassSide id classSide => (.done, t.modifyScope id fun s => { s with classSide := classSide })
  | declare id kind name defines =>
    (.declared (t.declare id kind name defines).1, (t.declare id kind name defines).2)
  | setNestedBlocks id count => (.done, t.setNestedBlocks id count)
  | nextBlockIndex method => (.blockIndex (t.nextBlockIndex method).1, (t.nextBlockIndex method).2)

/-- Whether a call may be made: what it mentions has to exist, and no method that is already declared changes
its side. -/
def IsAllowed (t : ScopeTable) : TableCall → Prop
  | push _ _ parent _ => parent < t.scopeCount
  | setSuperclass id _ => id < t.scopeCount
  | setClassSide id _ =>
    id < t.scopeCount ∧ ∀ y ∈ t.symbols, y.defines = some id → y.kind.counter ≠ .methods
  | declare id _ _ defines => id < t.scopeCount ∧ ∀ d ∈ defines, d < t.scopeCount
  | setNestedBlocks id _ => id < t.symbols.size
  | nextBlockIndex method => method < t.scopeCount

instance (t : ScopeTable) : (call : TableCall) → Decidable (call.IsAllowed t)
  | push _ _ parent _ => inferInstanceAs (Decidable (parent < t.scopeCount))
  | setSuperclass id _ => inferInstanceAs (Decidable (id < t.scopeCount))
  | setClassSide id _ => inferInstanceAs (Decidable (id < t.scopeCount ∧ ∀ y ∈ t.symbols, _ → _))
  | declare id _ _ defines => inferInstanceAs (Decidable (id < t.scopeCount ∧ ∀ d ∈ defines, d < t.scopeCount))
  | setNestedBlocks id _ => inferInstanceAs (Decidable (id < t.symbols.size))
  | nextBlockIndex method => inferInstanceAs (Decidable (method < t.scopeCount))

/-- Makes calls one after the other. Returns each with its answer, and the table after the last one. -/
def run (t : ScopeTable) : List TableCall → List (TableCall × TableAnswer) × ScopeTable
  | [] => ([], t)
  | call :: calls =>
    let rest := run (call.apply t).2 calls
    ((call, (call.apply t).1) :: rest.1, rest.2)

/-- Whether each of several calls may be made when its turn comes. -/
def AllAllowed (t : ScopeTable) : List TableCall → Prop
  | [] => True
  | call :: calls => call.IsAllowed t ∧ AllAllowed (call.apply t).2 calls

/-- Decides whether calls may be made, along their run. -/
def decideAllAllowed (t : ScopeTable) : (calls : List TableCall) → Decidable (AllAllowed t calls)
  | [] => .isTrue trivial
  | call :: calls =>
    have := decideAllAllowed (call.apply t).2 calls
    inferInstanceAs (Decidable (call.IsAllowed t ∧ AllAllowed (call.apply t).2 calls))

instance (t : ScopeTable) (calls : List TableCall) : Decidable (AllAllowed t calls) := decideAllAllowed t calls

end TableCall

/-! ## What the calls keep -/

namespace ScopeTable

variable {t : ScopeTable}

/-- The namespace of a symbol depends on the side of what it stands for only if it is a method. -/
theorem spaceOfSymbol_of_not_method {i : SymbolId} (h : (t.symbol i).kind.counter ≠ .methods) (b : Bool) :
    t.spaceOfSymbol i = (t.symbol i).kind.space b := by
  unfold spaceOfSymbol spaceOf
  cases hkind : (t.symbol i).kind <;> rw [hkind] at h <;> first | rfl | exact absurd rfl h

/-- A change of a scope that leaves its symbols alone, and the namespaces of all symbols, keeps the
invariant. -/
theorem Valid.modifyScope (ht : t.Valid) {id : ScopeId} {f : Scope → Scope}
    (hparent : ∀ s, (f s).parent = s.parent) (hsymbols : ∀ s, (f s).symbols = s.symbols)
    (hnames : ∀ s, (f s).names = s.names) (hcounters : ∀ s, (f s).counters = s.counters)
    (hspace : ∀ i, (t.modifyScope id f).spaceOfSymbol i = t.spaceOfSymbol i) : (t.modifyScope id f).Valid := by
  have hfield : ∀ {α : Type} (field : Scope → α), (∀ s, field (f s) = field s) →
      ∀ s, field ((t.modifyScope id f).scope s) = field (t.scope s) :=
    fun field hf s => t.scope_field_modifyScope field fun _ => hf _
  have hsymbols' := hfield Scope.symbols hsymbols
  have hcounters' := hfield Scope.counters hcounters
  have hsymbolsOf : ∀ s, (t.modifyScope id f).symbolsOf s = t.symbolsOf s := fun s => by
    rw [symbolsOf, hsymbols']
    rfl
  refine ⟨?_, fun s p hp => ?_, fun s i hi => ?_, fun s i hi => ?_, fun i d hd => ?_, fun s c => ?_,
    fun s c => ?_, fun s space x i => ?_⟩
  · rw [scopeCount_modifyScope]
    exact ht.unit_lt
  · exact ht.parent_lt s p (hfield Scope.parent hparent s ▸ hp)
  · exact ht.symbol_lt s i (hsymbols' s ▸ hi)
  · exact ht.symbol_scope s i (hsymbols' s ▸ hi)
  · rw [scopeCount_modifyScope]
    exact ht.defines_lt i d hd
  · rw [hsymbolsOf, hcounters', ht.numbered]
  · rw [hcounters']
    exact ht.counted s c
  · rw [hfield Scope.names hnames, hsymbols', hspace]
    exact ht.named s space x i

/-- A change that does not touch the sides of methods keeps the namespaces. -/
theorem spaceOfSymbol_modifyScope {id : ScopeId} {f : Scope → Scope} (hside : ∀ s, (f s).classSide = s.classSide)
    (i : SymbolId) : (t.modifyScope id f).spaceOfSymbol i = t.spaceOfSymbol i := by
  have hsides : ∀ s, ((t.modifyScope id f).scope s).classSide = (t.scope s).classSide :=
    fun s => t.scope_field_modifyScope Scope.classSide fun _ => hside _
  show (t.modifyScope id f).spaceOf (t.symbol i).kind (t.symbol i).defines = _
  simp only [spaceOf, spaceOfSymbol, hsides]

/-- Changing the side of a scope that no method stands for keeps the namespaces. -/
theorem spaceOfSymbol_setClassSide {id : ScopeId} (b : Bool)
    (hfree : ∀ y ∈ t.symbols, y.defines = some id → y.kind.counter ≠ .methods) (i : SymbolId) :
    (t.modifyScope id fun s => { s with classSide := b }).spaceOfSymbol i = t.spaceOfSymbol i := by
  by_cases hmethod : (t.symbol i).kind.counter = .methods
  · have hdefines : (t.symbol i).defines ≠ some id := by
      intro hdefines
      rw [symbol_eq] at hdefines hmethod
      cases hi : t.symbols[i]? with
      | none =>
        rw [hi] at hmethod
        cases hmethod
      | some y =>
        rw [hi] at hdefines hmethod
        exact hfree y (Array.mem_of_getElem? hi) hdefines hmethod
    show ScopeTable.spaceOf _ (t.symbol i).kind (t.symbol i).defines = _
    unfold spaceOf spaceOfSymbol spaceOf
    cases hd : (t.symbol i).defines with
    | none => rfl
    | some d =>
      have hne : d ≠ id := fun h => hdefines (hd.trans (congrArg some h))
      rw [Option.any_some, Option.any_some, scope_modifyScope, if_neg fun h => hne h.1]
  · rw [spaceOfSymbol_of_not_method hmethod b]
    exact spaceOfSymbol_of_not_method (t := t.modifyScope id fun s => { s with classSide := b }) hmethod b

/-- Where the symbols of a table are listed: each by the scope that it is declared in, in the order in which
they were declared. -/
structure Listed (t : ScopeTable) : Prop where
  mem_iff : ∀ s i, i ∈ (t.scope s).symbols ↔ i < t.symbols.size ∧ (t.symbol i).scope = s
  increasing : ∀ s, (t.scope s).symbols.toList.Pairwise (· < ·)

/-- Listing depends on nothing but the symbols of scopes and the scopes of symbols. -/
theorem Listed.congr {t' : ScopeTable} (h : t.Listed) (hsize : t'.symbols.size = t.symbols.size)
    (hsymbols : ∀ s, (t'.scope s).symbols = (t.scope s).symbols)
    (hscope : ∀ i, (t'.symbol i).scope = (t.symbol i).scope) : t'.Listed := by
  refine ⟨fun s i => ?_, fun s => ?_⟩
  · rw [hsymbols, hsize, hscope]
    exact h.mem_iff s i
  · rw [hsymbols]
    exact h.increasing s

theorem listed_empty : empty.Listed := by
  have hnone : ∀ s, (empty.scope s).symbols = #[] := by
    intro s
    rw [scope_eq]
    cases s <;> rfl
  refine ⟨fun s i => ?_, fun s => ?_⟩
  · rw [hnone]
    exact iff_of_false (Array.not_mem_empty i) fun h => Nat.not_lt_zero i h.1
  · rw [hnone]
    exact List.Pairwise.nil

theorem Listed.push (h : t.Listed) {new : Scope} (hnew : new.symbols = #[]) : (t.push new).Listed := by
  refine h.congr rfl (fun s => ?_) fun i => rfl
  rw [scope_push]
  split
  · next hs =>
    rw [hnew, scope_of_le hs.ge]
    rfl
  · rfl

theorem Listed.addSymbol (h : t.Listed) {space : Namespace} {new : Symbol} (hnew : new.scope < t.scopeCount) :
    (t.addSymbol space new).Listed := by
  refine ⟨fun s i => ?_, fun s => ?_⟩
  · rw [mem_symbols_addSymbol hnew, h.mem_iff, size_symbols_addSymbol, symbol_addSymbol]
    by_cases hi : i = t.symbols.size
    · simp [hi, eq_comm]
    · rw [if_neg hi, Nat.lt_succ_iff_lt_or_eq, or_iff_left hi, or_iff_left fun hlast => hi hlast.1]
  · rw [scope_addSymbol]
    split
    · rw [Array.toList_push]
      refine List.pairwise_append.mpr ⟨h.increasing s, List.pairwise_singleton _ _, fun i hi j hj => ?_⟩
      rw [List.mem_singleton.mp hj]
      exact ((h.mem_iff s i).mp (Array.mem_toList_iff.mp hi)).1
    · exact h.increasing s

/-! ## Tables in step -/

/-- How many symbols of a scope a counter has numbered. -/
def countOn (t : ScopeTable) (s : ScopeId) (c : Counter) : Nat := (t.symbolsOf s).countP (·.kind.counter = c)

/-- What is known about a scope in several forms agrees. -/
structure InStep (t : ScopeTable) : Prop where
  /-- A scope is younger than the one around it. -/
  parent_lt : ∀ s p, (t.scope s).parent = some p → p < s
  /-- A scope lists the symbols that are declared in it, and no others, in the order of their declaration. -/
  mem_iff : ∀ s i, i ∈ (t.scope s).symbols ↔ i < t.symbols.size ∧ (t.symbol i).scope = s
  increasing : ∀ s, (t.scope s).symbols.toList.Pairwise (· < ·)
  /-- The symbols on a counter are numbered from zero in that order, and are not too many. -/
  numbered : ∀ s c, ((t.symbolsOf s).filter (·.kind.counter = c)).map (·.index) = List.range (t.countOn s c)
  countOn_le : ∀ s c, t.countOn s c ≤ counterLimit
  counters_eq : ∀ s c, (t.scope s).counters.get c = t.countOn s c
  /-- No two symbols of a scope share a namespace and a name. -/
  distinct : ∀ s, ∀ i ∈ (t.scope s).symbols, ∀ j ∈ (t.scope s).symbols,
    t.spaceOfSymbol i = t.spaceOfSymbol j → (t.symbol i).name = (t.symbol j).name → i = j
  /-- The names of a scope are those of its symbols. -/
  named : ∀ s space x i, (t.scope s).names.find? space x = some i ↔
    i ∈ (t.scope s).symbols ∧ (t.symbol i).name = x ∧ t.spaceOfSymbol i = space
  /-- Frames are measured exactly, and 16 bits hold their sizes. -/
  frameSize_eq : ∀ s, t.frameSize s =
    ((t.symbolsOf s).countP (·.kind = .argument), (t.symbolsOf s).countP (·.kind = .localVar))
  frameSize_le : ∀ s, (t.frameSize s).1 + (t.frameSize s).2 ≤ counterLimit

theorem Valid.counters_eq (ht : t.Valid) (s : ScopeId) (c : Counter) :
    (t.scope s).counters.get c = t.countOn s c := by
  have hlength := congrArg List.length (ht.numbered s c)
  rw [List.length_map, List.length_range] at hlength
  rw [← hlength, countOn, List.countP_eq_length_filter]

theorem frameSize_eq_countP (t : ScopeTable) (s : ScopeId) : t.frameSize s =
    ((t.symbolsOf s).countP (·.kind = .argument), (t.symbolsOf s).countP (·.kind = .localVar)) := by
  rw [frameSize, countOf_eq_length, countOf_eq_length, List.countP_eq_length_filter, List.countP_eq_length_filter]

/-- Arguments and locals together are what the counter of slots has numbered. -/
theorem frameSize_add (t : ScopeTable) (s : ScopeId) :
    (t.frameSize s).1 + (t.frameSize s).2 = t.countOn s .slots := by
  rw [frameSize_eq_countP, countOn]
  induction t.symbolsOf s with
  | nil => rfl
  | cons y symbols ih =>
    simp only [List.countP_cons] at ih ⊢
    rw [← ih]
    cases y.kind <;> simp [SymbolKind.counter] <;> omega

theorem Valid.inStep (ht : t.Valid) (hlisted : t.Listed) : t.InStep where
  parent_lt := ht.parent_lt
  mem_iff := hlisted.mem_iff
  increasing := hlisted.increasing
  numbered s c := by rw [ht.numbered, ht.counters_eq]
  countOn_le s c := ht.counters_eq s c ▸ ht.counted s c
  counters_eq := ht.counters_eq
  distinct s i hi j hj hspace hname := by
    have hfind := (ht.named s (t.spaceOfSymbol i) (t.symbol i).name i).mpr ⟨hi, rfl, rfl⟩
    have hfind' := (ht.named s (t.spaceOfSymbol i) (t.symbol i).name j).mpr ⟨hj, hname.symm, hspace.symm⟩
    exact Option.some.inj (hfind.symm.trans hfind')
  named := ht.named
  frameSize_eq := t.frameSize_eq_countP
  frameSize_le s := by
    rw [frameSize_add, ← ht.counters_eq]
    exact ht.counted s .slots

/-! ## Declarations that are refused -/

/-- Whether a symbol of a scope has the name and the namespace of a new declaration. -/
def Clashes (t : ScopeTable) (id : ScopeId) (kind : SymbolKind) (x : String) (defines : Option ScopeId)
    (i : SymbolId) : Prop :=
  i ∈ (t.scope id).symbols ∧ (t.symbol i).name = x ∧ t.spaceOfSymbol i = t.spaceOf kind defines

/-- A declaration is answered as it should be: a clash is reported before a full counter, whatever is refused
changes nothing, and what is accepted becomes the last symbol of its scope. -/
structure AnswersDeclaration (t : ScopeTable) (id : ScopeId) (kind : SymbolKind) (name : Ident)
    (defines : Option ScopeId) : Prop where
  taken_iff : ∀ i, (t.declare id kind name defines).1 = .error (.taken i) ↔ t.Clashes id kind name.name defines i
  full_iff : (t.declare id kind name defines).1 = .error .full ↔
    (∀ i, ¬ t.Clashes id kind name.name defines i) ∧ t.countOn id kind.counter = counterLimit
  unchanged : ∀ e, (t.declare id kind name defines).1 = .error e → (t.declare id kind name defines).2 = t
  added : ∀ i, (t.declare id kind name defines).1 = .ok i → i = t.symbols.size ∧
    ∀ s, (t.declare id kind name defines).2.symbolsOf s = if s = id then t.symbolsOf s ++
      [⟨kind, name.name, id, t.countOn id kind.counter, defines, name.span, 0⟩] else t.symbolsOf s

theorem Valid.answersDeclaration (ht : t.Valid) {id : ScopeId} (hid : id < t.scopeCount) (kind : SymbolKind)
    (name : Ident) (defines : Option ScopeId) : t.AnswersDeclaration id kind name defines := by
  have hclash : ∀ i, (t.scope id).names.find? (t.spaceOf kind defines) name.name = some i ↔
      t.Clashes id kind name.name defines i := fun i => ht.named id _ name.name i
  have hcount := ht.counters_eq id kind.counter
  have hle := hcount ▸ ht.counted id kind.counter
  cases hfind : (t.scope id).names.find? (t.spaceOf kind defines) name.name with
  | some existing =>
    have hdeclare : t.declare id kind name defines = (.error (.taken existing), t) := by
      simp only [declare, hfind]
    refine ⟨fun i => ?_, ?_, fun e _ => ?_, fun i hi => ?_⟩
    · rw [← hclash, hfind, hdeclare]
      simp
    · rw [hdeclare]
      exact iff_of_false (by simp) fun h => h.1 existing ((hclash existing).mp hfind)
    · rw [hdeclare]
    · rw [hdeclare] at hi
      cases hi
  | none =>
    have hfree : ∀ i, ¬ t.Clashes id kind name.name defines i := fun i hi => by
      rw [(hclash i).mpr hi] at hfind
      cases hfind
    by_cases hfull : counterLimit ≤ t.countOn id kind.counter
    · have hdeclare : t.declare id kind name defines = (.error .full, t) := by
        simp only [declare, hfind, hcount, if_pos hfull]
      refine ⟨fun i => ?_, ?_, fun e _ => ?_, fun i hi => ?_⟩
      · rw [hdeclare]
        exact iff_of_false (by simp) (hfree i)
      · rw [hdeclare]
        exact iff_of_true rfl ⟨hfree, le_antisymm hle hfull⟩
      · rw [hdeclare]
      · rw [hdeclare] at hi
        cases hi
    · have hdeclare : t.declare id kind name defines = (.ok t.symbols.size, t.addSymbol (t.spaceOf kind defines)
          ⟨kind, name.name, id, t.countOn id kind.counter, defines, name.span, 0⟩) := by
        simp only [declare, hfind, hcount, if_neg hfull]
      refine ⟨fun i => ?_, ?_, fun e he => ?_, fun i hi => ⟨?_, fun s => ?_⟩⟩
      · rw [hdeclare]
        exact iff_of_false (by simp) (hfree i)
      · rw [hdeclare]
        exact iff_of_false (by simp) fun h => hfull h.2.ge
      · rw [hdeclare] at he
        cases he
      · rw [hdeclare] at hi
        exact (Except.ok.inj hi).symm
      · rw [hdeclare]
        exact symbolsOf_addSymbol ht _ hid s

end ScopeTable

/-! ## One call and a whole run -/

namespace TableCall

open ScopeTable

/-- One step: every call that is allowed keeps the invariants. -/
theorem valid_listed_apply {t : ScopeTable} (ht : t.Valid ∧ t.Listed) {call : TableCall}
    (hcall : call.IsAllowed t) : (call.apply t).2.Valid ∧ (call.apply t).2.Listed := by
  obtain ⟨hvalid, hlisted⟩ := ht
  have hmodify : ∀ {id : ScopeId} {f : Scope → Scope}, (∀ s, (f s).symbols = s.symbols) →
      (t.modifyScope id f).Listed := fun hf =>
    hlisted.congr rfl (fun _ => t.scope_field_modifyScope Scope.symbols fun _ => hf _) fun _ => rfl
  cases call with
  | push kind name parent span =>
    refine ⟨hvalid.push ⟨rfl, rfl, rfl⟩ fun p hp => ?_, hlisted.push rfl⟩
    rw [← Option.some.inj hp]
    exact hcall
  | setSuperclass id name =>
    exact ⟨hvalid.modifyScope (fun _ => rfl) (fun _ => rfl) (fun _ => rfl) (fun _ => rfl)
      (spaceOfSymbol_modifyScope fun _ => rfl), hmodify fun _ => rfl⟩
  | setClassSide id classSide =>
    exact ⟨hvalid.modifyScope (fun _ => rfl) (fun _ => rfl) (fun _ => rfl) (fun _ => rfl)
      (spaceOfSymbol_setClassSide classSide hcall.2), hmodify fun _ => rfl⟩
  | declare id kind name defines =>
    obtain ⟨new, hnew, -, -, -, -, heq⟩ | ⟨e, heq⟩ := declare_cases t id kind name defines hcall.1 hcall.2
    · simp only [TableCall.apply, heq]
      exact ⟨hvalid.addSymbol hnew, hlisted.addSymbol hnew.scope_lt⟩
    · simp only [TableCall.apply, heq]
      exact ⟨hvalid, hlisted⟩
  | setNestedBlocks id count =>
    have hsimilar := t.similar_setNestedBlocks id count
    exact ⟨hsimilar.valid hvalid, hlisted.congr hsimilar.size_eq hsimilar.symbols_eq
      (hsimilar.symbol_field Symbol.scope fun _ => rfl)⟩
  | nextBlockIndex method =>
    simp only [TableCall.apply, ScopeTable.nextBlockIndex]
    split
    · exact ⟨hvalid, hlisted⟩
    · exact ⟨hvalid.modifyScope (fun _ => rfl) (fun _ => rfl) (fun _ => rfl) (fun _ => rfl)
        (spaceOfSymbol_modifyScope fun _ => rfl), hmodify fun _ => rfl⟩

/-- A whole run keeps the invariants, too. -/
theorem valid_listed_run {calls : List TableCall} (h : AllAllowed .empty calls) :
    (run .empty calls).2.Valid ∧ (run .empty calls).2.Listed := by
  suffices hrun : ∀ t, t.Valid ∧ t.Listed → AllAllowed t calls →
      (run t calls).2.Valid ∧ (run t calls).2.Listed from hrun .empty ⟨valid_empty, listed_empty⟩ h
  clear h
  induction calls with
  | nil => exact fun t ht _ => ht
  | cons call calls ih => exact fun t ht h => ih _ (valid_listed_apply ht h.1) h.2

/-! ## Block numbers -/

/-- Whether a call asks for a block number of a given method. -/
def asksFor (m : ScopeId) : TableCall → Bool
  | nextBlockIndex method => method = m
  | _ => false

/-- The answers to the calls that ask for a block number of a given method. -/
def blockAnswers (m : ScopeId) (log : List (TableCall × TableAnswer)) : List TableAnswer :=
  (log.filter (asksFor m ·.1)).map (·.2)

/-- The answer to the request for a block number after `k` earlier ones. -/
def numberAfter (k : Nat) : TableAnswer := .blockIndex (if k < counterLimit then some k else none)

/-- Only a request for its block numbers changes how many a method has given out. -/
theorem blockCount_apply {t : ScopeTable} {call : TableCall} {m : ScopeId} (h : asksFor m call = false) :
    ((call.apply t).2.scope m).blockCount = (t.scope m).blockCount := by
  have hmodify : ∀ {id : ScopeId} {f : Scope → Scope}, (id = m → ∀ s, (f s).blockCount = s.blockCount) →
      ((t.modifyScope id f).scope m).blockCount = (t.scope m).blockCount :=
    fun hf => t.scope_field_modifyScope Scope.blockCount fun hm => hf hm.symm _
  cases call with
  | push kind name parent span =>
    show ((t.push _).scope m).blockCount = _
    rw [scope_push]
    split
    · next hm =>
      rw [scope_of_le hm.ge]
      rfl
    · rfl
  | setSuperclass id name => exact hmodify fun _ _ => rfl
  | setClassSide id classSide => exact hmodify fun _ _ => rfl
  | declare id kind name defines =>
    simp only [TableCall.apply, ScopeTable.declare]
    split
    · rfl
    · split
      · rfl
      · exact hmodify fun _ _ => rfl
  | setNestedBlocks id count => rfl
  | nextBlockIndex method =>
    have hne : method ≠ m := of_decide_eq_false h
    simp only [TableCall.apply, ScopeTable.nextBlockIndex]
    split
    · rfl
    · exact hmodify fun hm => absurd hm hne

/-- A method that has given out as many block numbers as it was asked for, or as it has, goes on so. -/
theorem apply_nextBlockIndex {t : ScopeTable} {m : ScopeId} {k : Nat} (hm : m < t.scopeCount)
    (hk : (t.scope m).blockCount = min counterLimit k) :
    ((nextBlockIndex m).apply t).1 = numberAfter k ∧
      (((nextBlockIndex m).apply t).2.scope m).blockCount = min counterLimit (k + 1) := by
  by_cases hlt : k < counterLimit
  · have hcount : (t.scope m).blockCount = k := hk.trans (min_eq_right hlt.le)
    simp only [TableCall.apply, ScopeTable.nextBlockIndex, hcount, if_neg (Nat.not_le.mpr hlt), numberAfter,
      if_pos hlt, scope_modifyScope, hm, and_self, if_true]
    exact ⟨trivial, (min_eq_right hlt).symm⟩
  · have hcount : (t.scope m).blockCount = counterLimit := hk.trans (min_eq_left (Nat.le_of_not_lt hlt))
    simp only [TableCall.apply, ScopeTable.nextBlockIndex, hcount, le_refl, if_true, numberAfter, if_neg hlt]
    exact ⟨trivial, (min_eq_left (by omega)).symm⟩

theorem blockAnswers_run {m : ScopeId} {calls : List TableCall} {t : ScopeTable} {k : Nat}
    (h : AllAllowed t calls) (hk : (t.scope m).blockCount = min counterLimit k) :
    blockAnswers m (run t calls).1 = (List.range' k (calls.countP (asksFor m))).map numberAfter := by
  induction calls generalizing t k with
  | nil => rfl
  | cons call calls ih =>
    cases hasks : asksFor m call with
    | false =>
      have hrest := ih h.2 ((blockCount_apply hasks).trans hk)
      rw [List.countP_cons_of_neg (by simp [hasks]), ← hrest]
      simp [blockAnswers, run, hasks]
    | true =>
      obtain rfl : call = nextBlockIndex m := by
        cases call with
        | nextBlockIndex method => rw [of_decide_eq_true hasks]
        | _ => cases hasks
      obtain ⟨hanswer, hcount⟩ := apply_nextBlockIndex h.1 hk
      have hrest := ih h.2 hcount
      rw [List.countP_cons_of_pos hasks, List.range'_succ, List.map_cons, ← hrest, ← hanswer]
      simp [blockAnswers, run, hasks]

/-- A scope table stays in step under all calls. Whatever scopes are made and names declared: the symbols of a
scope are numbered from zero on each counter, in the order of their declaration and up to its limit; no two of
them share a namespace and a name, and the names of the scope are exactly theirs; frames are measured exactly;
scopes are younger than those around them. Block numbers of a method are given out from zero up to the limit
and not beyond. A further declaration is refused with the symbol that has its name, or else because its counter
is full, and then nothing changes. -/
theorem inStep_of_run {calls : List TableCall} (h : AllAllowed .empty calls) :
    (run .empty calls).2.InStep ∧
      (∀ m, blockAnswers m (run .empty calls).1 = (List.range (calls.countP (asksFor m))).map numberAfter) ∧
      ∀ id kind name defines, (declare id kind name defines).IsAllowed (run .empty calls).2 →
        (run .empty calls).2.AnswersDeclaration id kind name defines := by
  obtain ⟨hvalid, hlisted⟩ := valid_listed_run h
  refine ⟨hvalid.inStep hlisted, fun m => ?_, fun id kind name defines hallowed => ?_⟩
  · have hcount : (ScopeTable.empty.scope m).blockCount = 0 := by
      rw [scope_eq]
      cases m <;> rfl
    rw [List.range_eq_range']
    exact blockAnswers_run h hcount
  · exact hvalid.answersDeclaration hallowed.1 kind name defines

/-- A class with a field and two methods of one name, on the two sides of the class, and block numbers for one of
them; a third method of that name is refused. -/
theorem inStep_of_run_two_sides : ∃ calls, AllAllowed .empty calls ∧ (run .empty calls).2.InStep ∧
    blockAnswers 3 (run .empty calls).1 = [.blockIndex (some 0), .blockIndex (some 1)] ∧
    (run .empty calls).2.frameSize 3 = (1, 1) ∧
    ((run .empty calls).2.declare 1 .primitive ⟨"x", {}⟩ (some 2)).1 = .error (.taken 2) ∧
    (run .empty calls).2.AnswersDeclaration 1 .primitive ⟨"x", {}⟩ (some 2) := by
  have hallowed : AllAllowed .empty [
      push .classDef "A" 0 {}, declare 0 .classDef ⟨"A", {}⟩ (some 1), declare 1 .field ⟨"x", {}⟩ none,
      push .method "x" 1 {}, declare 1 .method ⟨"x", {}⟩ (some 2), declare 1 .field ⟨"x", {}⟩ none,
      push .method "x" 1 {}, setClassSide 3 true, declare 1 .method ⟨"x", {}⟩ (some 3),
      declare 3 .argument ⟨"a", {}⟩ none, nextBlockIndex 3, declare 3 .localVar ⟨"b", {}⟩ none,
      setNestedBlocks 4 7, nextBlockIndex 3] := by
    decide +kernel
  obtain ⟨hinStep, hanswers, hdeclare⟩ := inStep_of_run hallowed
  exact ⟨_, hallowed, hinStep, hanswers 3, by decide +kernel, by decide +kernel,
    hdeclare _ _ _ _ (by decide +kernel)⟩

end TableCall

end Smalltalk
