import Mathlib
import Smalltalk.Scope.Lookup

/-!
# The invariant of scope tables

A scope table keeps every fact about a scope in several forms: its symbols in order, the same symbols
by name, and counters that say how many there are. The invariant ties these together, so that what a
look-up finds can be read off the list of symbols.
-/

namespace Smalltalk

theorem NameTable.find?_insert (t : NameTable) (space space' : Namespace) (x y : String)
    (i : SymbolId) :
    (t.insert space x i).find? space' y = if space = space' ∧ x = y then some i
      else t.find? space' y := by
  cases space <;> cases space' <;>
    simp [insert, find?, Std.TreeMap.getElem?_insert]

/-- An array after one of its elements has been changed. -/
theorem getD_getElem?_modify {α : Type} [Inhabited α] (xs : Array α) (i : Nat) (f : α → α) (j : Nat) :
    (xs.modify i f)[j]?.getD default =
      if j = i ∧ j < xs.size then f (xs[j]?.getD default) else xs[j]?.getD default := by
  rw [Array.getElem?_modify]
  by_cases hi : j = i
  · subst hi
    by_cases hlt : j < xs.size <;> simp [hlt]
  · simp [hi, Ne.symm hi]

namespace ScopeTable

/-! ## What the operations do to scopes and symbols -/

theorem scope_eq (t : ScopeTable) (s : ScopeId) : t.scope s = t.scopes[s]?.getD default := by
  simp [scope, Array.getD_eq_getD_getElem?]

theorem symbol_eq (t : ScopeTable) (i : SymbolId) : t.symbol i = t.symbols[i]?.getD default := by
  simp [symbol, Array.getD_eq_getD_getElem?]

theorem scope_of_le {t : ScopeTable} {s : ScopeId} (h : t.scopeCount ≤ s) : t.scope s = default := by
  rw [scope_eq, Array.getElem?_eq_none h]
  rfl

theorem scope_push (t : ScopeTable) (new : Scope) (s : ScopeId) :
    (t.push new).scope s = if s = t.scopeCount then new else t.scope s := by
  rw [scope_eq, scope_eq, push, Array.getElem?_push, scopeCount]
  split <;> rfl

theorem scope_push_self (t : ScopeTable) (new : Scope) : (t.push new).scope t.scopeCount = new := by
  rw [scope_push, if_pos rfl]

theorem scope_push_of_lt {t : ScopeTable} (new : Scope) {s : ScopeId} (h : s < t.scopeCount) :
    (t.push new).scope s = t.scope s := by
  rw [scope_push, if_neg (Nat.ne_of_lt h)]

theorem scopeCount_push (t : ScopeTable) (new : Scope) :
    (t.push new).scopeCount = t.scopeCount + 1 := by
  simp [scopeCount, push]

theorem scopeCount_lt_push (t : ScopeTable) (new : Scope) : t.scopeCount < (t.push new).scopeCount :=
  Nat.lt_of_lt_of_eq (Nat.lt_succ_self _) (t.scopeCount_push new).symm

theorem scope_modifyScope (t : ScopeTable) (id : ScopeId) (f : Scope → Scope) (s : ScopeId) :
    (t.modifyScope id f).scope s = if s = id ∧ s < t.scopeCount then f (t.scope s)
      else t.scope s := by
  rw [scope_eq, scope_eq, modifyScope, scopeCount]
  exact getD_getElem?_modify t.scopes id f s

/-- What a change of one scope does not touch stays as it was in every scope. -/
theorem scope_field_modifyScope (t : ScopeTable) {α : Type} (field : Scope → α) {id : ScopeId}
    {f : Scope → Scope} {s : ScopeId} (hf : s = id → field (f (t.scope s)) = field (t.scope s)) :
    field ((t.modifyScope id f).scope s) = field (t.scope s) := by
  rw [scope_modifyScope]
  split
  · next h => exact hf h.1
  · rfl

theorem scopeCount_modifyScope (t : ScopeTable) (id : ScopeId) (f : Scope → Scope) :
    (t.modifyScope id f).scopeCount = t.scopeCount := by
  simp [scopeCount, modifyScope]

theorem scope_addSymbol (t : ScopeTable) (space : Namespace) (new : Symbol) (s : ScopeId) :
    (t.addSymbol space new).scope s =
      if s = new.scope ∧ s < t.scopeCount then
        { t.scope s with
          symbols := (t.scope s).symbols.push t.symbols.size
          names := (t.scope s).names.insert space new.name t.symbols.size
          counters := (t.scope s).counters.bump new.kind.counter }
      else t.scope s :=
  t.scope_modifyScope _ _ s

theorem scope_addSymbol_of_ne (t : ScopeTable) (space : Namespace) {new : Symbol} {s : ScopeId}
    (h : s ≠ new.scope) : (t.addSymbol space new).scope s = t.scope s := by
  rw [scope_addSymbol, if_neg fun hs => h hs.1]

/-- A new symbol changes nothing of a scope but its symbols, its names and its counters. -/
theorem scope_field_addSymbol (t : ScopeTable) (space : Namespace) (new : Symbol) {α : Type} (field : Scope → α)
    (hfield : ∀ (s : Scope) symbols names counters,
      field { s with symbols := symbols, names := names, counters := counters } = field s) (s : ScopeId) :
    field ((t.addSymbol space new).scope s) = field (t.scope s) :=
  t.scope_field_modifyScope field fun _ => hfield _ _ _ _

theorem mem_symbols_addSymbol {t : ScopeTable} {space : Namespace} {new : Symbol}
    (hnew : new.scope < t.scopeCount) {s : ScopeId} {i : SymbolId} :
    i ∈ ((t.addSymbol space new).scope s).symbols ↔
      i ∈ (t.scope s).symbols ∨ i = t.symbols.size ∧ s = new.scope := by
  by_cases hs : s = new.scope
  · subst hs
    rw [scope_addSymbol, if_pos ⟨rfl, hnew⟩, Array.mem_push]
    simp
  · rw [scope_addSymbol_of_ne t space hs]
    simp [hs]

theorem find?_addSymbol {t : ScopeTable} {space : Namespace} {new : Symbol} (hnew : new.scope < t.scopeCount)
    (s : ScopeId) (space' : Namespace) (x : String) :
    ((t.addSymbol space new).scope s).names.find? space' x =
      if s = new.scope ∧ space = space' ∧ new.name = x then some t.symbols.size
      else (t.scope s).names.find? space' x := by
  by_cases hs : s = new.scope
  · subst hs
    rw [scope_addSymbol, if_pos ⟨rfl, hnew⟩, NameTable.find?_insert]
    simp
  · rw [scope_addSymbol_of_ne t space hs, if_neg fun h => hs h.1]

theorem spaceOf_addSymbol (t : ScopeTable) (space : Namespace) (new : Symbol) (kind : SymbolKind)
    (defines : Option ScopeId) : (t.addSymbol space new).spaceOf kind defines = t.spaceOf kind defines := by
  have hside := t.scope_field_addSymbol space new Scope.classSide fun _ _ _ _ => rfl
  simp only [spaceOf, hside]

theorem scopeCount_addSymbol (t : ScopeTable) (space : Namespace) (new : Symbol) :
    (t.addSymbol space new).scopeCount = t.scopeCount :=
  t.scopeCount_modifyScope _ _

theorem symbol_addSymbol (t : ScopeTable) (space : Namespace) (new : Symbol) (i : SymbolId) :
    (t.addSymbol space new).symbol i = if i = t.symbols.size then new else t.symbol i := by
  rw [symbol_eq, symbol_eq]
  show (t.symbols.push new)[i]?.getD default = _
  rw [Array.getElem?_push]
  split <;> rfl

theorem symbol_addSymbol_self (t : ScopeTable) (space : Namespace) (new : Symbol) :
    (t.addSymbol space new).symbol t.symbols.size = new := by
  rw [symbol_addSymbol, if_pos rfl]

theorem symbol_addSymbol_of_lt {t : ScopeTable} (space : Namespace) (new : Symbol) {i : SymbolId}
    (h : i < t.symbols.size) : (t.addSymbol space new).symbol i = t.symbol i := by
  rw [symbol_addSymbol, if_neg (Nat.ne_of_lt h)]

theorem size_symbols_addSymbol (t : ScopeTable) (space : Namespace) (new : Symbol) :
    (t.addSymbol space new).symbols.size = t.symbols.size + 1 := Array.size_push _

theorem symbol_setNestedBlocks (t : ScopeTable) (id : SymbolId) (count : Nat) (i : SymbolId) :
    (t.setNestedBlocks id count).symbol i =
      if i = id ∧ i < t.symbols.size then { t.symbol i with nestedBlocks := count }
      else t.symbol i := by
  rw [symbol_eq, symbol_eq, setNestedBlocks]
  exact getD_getElem?_modify t.symbols id _ i

/-! ## The invariant -/

/-- The namespace of a symbol. -/
def spaceOfSymbol (t : ScopeTable) (i : SymbolId) : Namespace :=
  t.spaceOf (t.symbol i).kind (t.symbol i).defines

/-- What holds of every table that has been made by making scopes and declaring names. -/
structure Valid (t : ScopeTable) : Prop where
  /-- The scope of the unit exists. -/
  unit_lt : unitScope < t.scopeCount
  /-- A scope is younger than the one around it. -/
  parent_lt : ∀ s p, (t.scope s).parent = some p → p < s
  /-- Scopes list symbols that exist. -/
  symbol_lt : ∀ s, ∀ i ∈ (t.scope s).symbols, i < t.symbols.size
  /-- Symbols know the scope that lists them. -/
  symbol_scope : ∀ s, ∀ i ∈ (t.scope s).symbols, (t.symbol i).scope = s
  /-- Symbols stand for scopes that exist. -/
  defines_lt : ∀ i d, (t.symbol i).defines = some d → d < t.scopeCount
  /-- The symbols on a counter are numbered from zero, in the order of their declaration. -/
  numbered : ∀ s c, ((t.symbolsOf s).filter (·.kind.counter = c)).map (·.index)
    = List.range ((t.scope s).counters.get c)
  /-- No counter goes beyond its limit. -/
  counted : ∀ s c, (t.scope s).counters.get c ≤ counterLimit
  /-- The names of a scope are those of its symbols. -/
  named : ∀ s space x i, (t.scope s).names.find? space x = some i ↔
    i ∈ (t.scope s).symbols ∧ (t.symbol i).name = x ∧ t.spaceOfSymbol i = space

/-! ## Symbols in order -/

theorem symbolsOf_push (t : ScopeTable) {new : Scope} (hnew : new.symbols = #[]) (s : ScopeId) :
    (t.push new).symbolsOf s = t.symbolsOf s := by
  unfold symbolsOf
  rw [scope_push]
  split
  · next h =>
    have hdefault : (t.scope s).symbols = #[] := by
      rw [scope_of_le (le_of_eq h.symm)]
      rfl
    rw [hnew, hdefault]
    rfl
  · rfl

theorem symbolsOf_addSymbol {t : ScopeTable} (ht : t.Valid) (space : Namespace) {new : Symbol}
    (hnew : new.scope < t.scopeCount) (s : ScopeId) :
    (t.addSymbol space new).symbolsOf s =
      if s = new.scope then t.symbolsOf s ++ [new] else t.symbolsOf s := by
  have hold : (t.scope s).symbols.toList.map (t.addSymbol space new).symbol = t.symbolsOf s := by
    apply List.map_congr_left
    intro i hi
    exact symbol_addSymbol_of_lt space new (ht.symbol_lt s i (Array.mem_toList_iff.mp hi))
  unfold symbolsOf
  rw [scope_addSymbol]
  by_cases hs : s = new.scope
  · rw [if_pos ⟨hs, hs ▸ hnew⟩, if_pos hs]
    simp only [Array.toList_push, List.map_append, List.map_cons, List.map_nil]
    rw [hold, symbol_addSymbol_self]
    rfl
  · rw [if_neg (fun h => hs h.1), if_neg hs]
    exact hold

end ScopeTable

/-! ## Changes that look-ups do not see -/

/-- A scope without what is only known after its body has been gone through. -/
def Scope.core (s : Scope) : Scope := { s with blockCount := 0, primitive := none }

/-- A symbol without what is only known after its block has been gone through. -/
def Symbol.core (y : Symbol) : Symbol := { y with nestedBlocks := 0 }

namespace ScopeTable

/-- Two tables that differ only in what their cores leave out. -/
structure Similar (t t' : ScopeTable) : Prop where
  /-- They have as many scopes. -/
  scopeCount_eq : t'.scopeCount = t.scopeCount
  /-- They have as many symbols. -/
  size_eq : t'.symbols.size = t.symbols.size
  /-- Their scopes are the same. -/
  scope_eq : ∀ s, (t'.scope s).core = (t.scope s).core
  /-- Their symbols are the same. -/
  symbol_eq : ∀ i, (t'.symbol i).core = (t.symbol i).core

theorem similar_modifyScope (t : ScopeTable) (id : ScopeId) {f : Scope → Scope}
    (hf : ∀ s, (f s).core = s.core) : Similar t (t.modifyScope id f) := by
  refine ⟨t.scopeCount_modifyScope id f, rfl, fun s => ?_, fun i => rfl⟩
  exact t.scope_field_modifyScope Scope.core fun _ => hf _

theorem similar_setNestedBlocks (t : ScopeTable) (id : SymbolId) (count : Nat) :
    Similar t (t.setNestedBlocks id count) := by
  refine ⟨rfl, by simp [setNestedBlocks], fun s => rfl, fun i => ?_⟩
  rw [symbol_setNestedBlocks]
  split <;> rfl

namespace Similar

variable {t t' : ScopeTable}

theorem scope_field (h : Similar t t') {α : Type} (f : Scope → α) (hf : ∀ s : Scope, f s.core = f s)
    (s : ScopeId) : f (t'.scope s) = f (t.scope s) := by
  rw [← hf, h.scope_eq, hf]

theorem symbol_field (h : Similar t t') {α : Type} (f : Symbol → α)
    (hf : ∀ y : Symbol, f y.core = f y) (i : SymbolId) : f (t'.symbol i) = f (t.symbol i) := by
  rw [← hf, h.symbol_eq, hf]

theorem symbols_eq (h : Similar t t') (s : ScopeId) : (t'.scope s).symbols = (t.scope s).symbols :=
  h.scope_field Scope.symbols (fun _ => rfl) s

/-- What can be said about symbols without their nested blocks is the same in both tables. -/
theorem map_filter_symbolsOf (h : Similar t t') {α : Type} {p : Symbol → Bool} {f : Symbol → α}
    (hp : ∀ y, p y.core = p y) (hf : ∀ y, f y.core = f y) (s : ScopeId) :
    ((t'.symbolsOf s).filter p).map f = ((t.symbolsOf s).filter p).map f := by
  have hcore : ∀ l : List Symbol, (l.filter p).map f = ((l.map Symbol.core).filter p).map f := by
    intro l
    induction l with
    | nil => rfl
    | cons y l ih =>
      simp only [List.map_cons, List.filter_cons, hp]
      split
      · simp only [List.map_cons, hf, ih]
      · exact ih
  have hmap : (t'.symbolsOf s).map Symbol.core = (t.symbolsOf s).map Symbol.core := by
    simp only [symbolsOf, h.symbols_eq, List.map_map]
    exact List.map_congr_left fun i _ => h.symbol_eq i
  rw [hcore, hcore (t.symbolsOf s), hmap]

theorem valid (h : Similar t t') (ht : t.Valid) : t'.Valid := by
  have hname : ∀ i, (t'.symbol i).name = (t.symbol i).name :=
    fun i => h.symbol_field Symbol.name (fun _ => rfl) i
  have hdefines : ∀ i, (t'.symbol i).defines = (t.symbol i).defines :=
    fun i => h.symbol_field Symbol.defines (fun _ => rfl) i
  have hcounters : ∀ s, (t'.scope s).counters = (t.scope s).counters :=
    fun s => h.scope_field Scope.counters (fun _ => rfl) s
  have hspace : ∀ i, t'.spaceOfSymbol i = t.spaceOfSymbol i := by
    intro i
    have hkind : (t'.symbol i).kind = (t.symbol i).kind := h.symbol_field Symbol.kind (fun _ => rfl) i
    have hside : ∀ d, (t'.scope d).classSide = (t.scope d).classSide :=
      fun d => h.scope_field Scope.classSide (fun _ => rfl) d
    simp only [spaceOfSymbol, spaceOf, hkind, hdefines, hside]
  refine ⟨?_, ?_, ?_, ?_, ?_, ?_, ?_, ?_⟩
  · rw [h.scopeCount_eq]
    exact ht.unit_lt
  · intro s p hp
    have hparent : (t'.scope s).parent = (t.scope s).parent := h.scope_field Scope.parent (fun _ => rfl) s
    exact ht.parent_lt s p (hparent ▸ hp)
  · intro s i hi
    rw [h.size_eq]
    exact ht.symbol_lt s i (h.symbols_eq s ▸ hi)
  · intro s i hi
    have hscope : (t'.symbol i).scope = (t.symbol i).scope := h.symbol_field Symbol.scope (fun _ => rfl) i
    rw [hscope]
    exact ht.symbol_scope s i (h.symbols_eq s ▸ hi)
  · intro i d hd
    rw [h.scopeCount_eq]
    exact ht.defines_lt i d (hdefines i ▸ hd)
  · intro s c
    rw [h.map_filter_symbolsOf (fun _ => rfl) (fun _ => rfl), hcounters, ht.numbered]
  · intro s c
    rw [hcounters]
    exact ht.counted s c
  · intro s space x i
    have hnames : (t'.scope s).names = (t.scope s).names := h.scope_field Scope.names (fun _ => rfl) s
    rw [hnames, h.symbols_eq, hname, hspace]
    exact ht.named s space x i

end Similar

/-! ## Making scopes -/

/-- A scope in which nothing has been declared. -/
structure IsFresh (new : Scope) : Prop where
  /-- It has no symbols. -/
  symbols_eq : new.symbols = #[]
  /-- It has no names. -/
  names_eq : new.names = {}
  /-- Nothing has been counted. -/
  counters_eq : new.counters = {}

theorem IsFresh.find?_eq_none {new : Scope} (h : IsFresh new) (space : Namespace) (x : String) :
    new.names.find? space x = none := by
  rw [h.names_eq]
  cases space <;> simp [NameTable.find?]

theorem IsFresh.counters_get {new : Scope} (h : IsFresh new) (c : Counter) :
    new.counters.get c = 0 := by
  rw [h.counters_eq]
  cases c <;> rfl

theorem Valid.push {t : ScopeTable} (ht : t.Valid) {new : Scope} (hnew : IsFresh new)
    (hparent : ∀ p, new.parent = some p → p < t.scopeCount) : (t.push new).Valid := by
  have hspace : ∀ i, (t.push new).spaceOfSymbol i = t.spaceOfSymbol i := by
    intro i
    show (t.push new).spaceOf (t.symbol i).kind (t.symbol i).defines = _
    unfold spaceOf spaceOfSymbol spaceOf
    cases hd : (t.symbol i).defines with
    | none => rfl
    | some d => simp only [Option.any_some, scope_push_of_lt new (ht.defines_lt i d hd)]
  refine ⟨?_, ?_, ?_, ?_, ?_, ?_, ?_, ?_⟩
  · exact ht.unit_lt.trans (t.scopeCount_lt_push new)
  · intro s p hp
    rw [scope_push] at hp
    split at hp
    · next hs => exact hs ▸ hparent p hp
    · exact ht.parent_lt s p hp
  · intro s i hi
    rw [scope_push] at hi
    split at hi
    · rw [hnew.symbols_eq] at hi
      exact absurd hi (Array.not_mem_empty i)
    · exact ht.symbol_lt s i hi
  · intro s i hi
    rw [scope_push] at hi
    split at hi
    · rw [hnew.symbols_eq] at hi
      exact absurd hi (Array.not_mem_empty i)
    · exact ht.symbol_scope s i hi
  · exact fun i d hd => (ht.defines_lt i d hd).trans (t.scopeCount_lt_push new)
  · intro s c
    rw [t.symbolsOf_push hnew.symbols_eq, ht.numbered, scope_push]
    split
    · next hs =>
      rw [hnew.counters_get, scope_of_le (le_of_eq hs.symm)]
      cases c <;> rfl
    · rfl
  · intro s c
    rw [scope_push]
    split
    · rw [hnew.counters_get]
      exact Nat.zero_le _
    · exact ht.counted s c
  · intro s space x i
    rw [hspace, scope_push]
    split
    · rw [hnew.find?_eq_none, hnew.symbols_eq]
      simp
    · exact ht.named s space x i

theorem Valid.push_of_parent {t : ScopeTable} (ht : t.Valid) {new : Scope} (hnew : IsFresh new)
    {outer : ScopeId} (hparent : new.parent = some outer) (houter : outer < t.scopeCount) :
    (t.push new).Valid := by
  refine ht.push hnew fun p hp => ?_
  rw [hparent] at hp
  cases hp
  exact houter

theorem valid_empty : empty.Valid := by
  have hscope : ∀ s, empty.scope s = { kind := .unit, name := "global" } ∨
      empty.scope s = default := by
    intro s
    rw [scope_eq]
    by_cases hs : s = 0
    · subst hs
      exact Or.inl rfl
    · refine Or.inr ?_
      rw [Array.getElem?_eq_none (Nat.one_le_iff_ne_zero.mpr hs)]
      rfl
  have hfresh : ∀ s, IsFresh (empty.scope s) ∧ (empty.scope s).parent = none := by
    intro s
    rcases hscope s with h | h <;> rw [h] <;> exact ⟨⟨rfl, rfl, rfl⟩, rfl⟩
  have hsymbols : ∀ s, empty.symbolsOf s = [] := by
    intro s
    rw [symbolsOf, (hfresh s).1.symbols_eq]
    rfl
  refine ⟨Nat.one_pos, ?_, ?_, ?_, ?_, ?_, ?_, ?_⟩
  · intro s p hp
    rw [(hfresh s).2] at hp
    cases hp
  · intro s i hi
    rw [(hfresh s).1.symbols_eq] at hi
    exact absurd hi (Array.not_mem_empty i)
  · intro s i hi
    rw [(hfresh s).1.symbols_eq] at hi
    exact absurd hi (Array.not_mem_empty i)
  · intro i d hd
    cases hd
  · intro s c
    rw [hsymbols, (hfresh s).1.counters_get]
    rfl
  · intro s c
    rw [(hfresh s).1.counters_get]
    exact Nat.zero_le _
  · intro s space x i
    rw [(hfresh s).1.find?_eq_none, (hfresh s).1.symbols_eq]
    simp

/-! ## Declaring names -/

/-- A symbol that can be added to a table under a name of the given namespace. -/
structure IsAcceptable (t : ScopeTable) (space : Namespace) (new : Symbol) : Prop where
  /-- Its scope exists. -/
  scope_lt : new.scope < t.scopeCount
  /-- What it stands for exists. -/
  defines_lt : ∀ d, new.defines = some d → d < t.scopeCount
  /-- The namespace is its own. -/
  space_eq : t.spaceOf new.kind new.defines = space
  /-- It has the next number. -/
  index_eq : new.index = (t.scope new.scope).counters.get new.kind.counter
  /-- The counter is not full. -/
  index_lt : new.index < counterLimit
  /-- The name is free. -/
  name_free : (t.scope new.scope).names.find? space new.name = none

section AddSymbol

variable {t : ScopeTable} {space : Namespace} {new : Symbol}

theorem spaceOfSymbol_addSymbol_self (hnew : t.IsAcceptable space new) :
    (t.addSymbol space new).spaceOfSymbol t.symbols.size = space := by
  rw [spaceOfSymbol, symbol_addSymbol_self, spaceOf_addSymbol, hnew.space_eq]

theorem spaceOfSymbol_addSymbol_of_lt {i : SymbolId} (h : i < t.symbols.size) :
    (t.addSymbol space new).spaceOfSymbol i = t.spaceOfSymbol i := by
  rw [spaceOfSymbol, symbol_addSymbol_of_lt space new h, spaceOf_addSymbol, spaceOfSymbol]

/-- The new symbol gets the next number on its counter. -/
theorem Valid.numbered_addSymbol (ht : t.Valid) (hnew : t.IsAcceptable space new) (s : ScopeId) (c : Counter) :
    (((t.addSymbol space new).symbolsOf s).filter (·.kind.counter = c)).map (·.index)
      = List.range (((t.addSymbol space new).scope s).counters.get c) := by
  rw [symbolsOf_addSymbol ht space hnew.scope_lt]
  by_cases hs : s = new.scope
  · subst hs
    rw [if_pos rfl, scope_addSymbol, if_pos ⟨rfl, hnew.scope_lt⟩, Counters.get_bump, List.filter_append,
      List.map_append, ht.numbered]
    by_cases hc : new.kind.counter = c
    · simp [hc, hnew.index_eq, List.range_succ]
    · simp [hc]
  · rw [if_neg hs, scope_addSymbol_of_ne t space hs]
    exact ht.numbered s c

theorem Valid.counted_addSymbol (ht : t.Valid) (hnew : t.IsAcceptable space new) (s : ScopeId) (c : Counter) :
    ((t.addSymbol space new).scope s).counters.get c ≤ counterLimit := by
  rw [scope_addSymbol]
  split
  · next hs =>
    rw [Counters.get_bump]
    split
    · next hc =>
      have hlt := hnew.index_lt
      rw [hnew.index_eq, ← hs.1, hc] at hlt
      exact hlt
    · exact ht.counted s c
  · exact ht.counted s c

/-- The new symbol has a name that no other symbol of its scope and its namespace has. -/
theorem Valid.named_addSymbol (ht : t.Valid) (hnew : t.IsAcceptable space new) (s : ScopeId)
    (space' : Namespace) (x : String) (i : SymbolId) :
    ((t.addSymbol space new).scope s).names.find? space' x = some i ↔
      i ∈ ((t.addSymbol space new).scope s).symbols ∧ ((t.addSymbol space new).symbol i).name = x ∧
        (t.addSymbol space new).spaceOfSymbol i = space' := by
  rw [find?_addSymbol hnew.scope_lt, mem_symbols_addSymbol hnew.scope_lt]
  by_cases hi : i = t.symbols.size
  · subst hi
    have hfresh : t.symbols.size ∉ (t.scope s).symbols :=
      fun h => absurd (ht.symbol_lt _ _ h) (Nat.lt_irrefl _)
    rw [symbol_addSymbol_self, spaceOfSymbol_addSymbol_self hnew]
    split
    · next h => simp [h]
    · next h =>
      constructor
      · exact fun hfind => absurd ((ht.named _ _ _ _).mp hfind).1 hfresh
      · rintro ⟨hmem | ⟨-, hs⟩, hx, hspace⟩
        · exact absurd hmem hfresh
        · exact absurd ⟨hs, hspace, hx⟩ h
  · constructor
    · intro hfind
      split at hfind
      · exact absurd (Option.some.inj hfind).symm hi
      · obtain ⟨hmem, hx, hspace⟩ := (ht.named _ _ _ _).mp hfind
        have hlt := ht.symbol_lt s i hmem
        rw [symbol_addSymbol_of_lt space new hlt, spaceOfSymbol_addSymbol_of_lt hlt]
        exact ⟨.inl hmem, hx, hspace⟩
    · rintro ⟨hmem | hmem, hx, hspace⟩
      · have hlt := ht.symbol_lt s i hmem
        rw [symbol_addSymbol_of_lt space new hlt] at hx
        rw [spaceOfSymbol_addSymbol_of_lt hlt] at hspace
        have hfind := (ht.named _ _ _ _).mpr ⟨hmem, hx, hspace⟩
        rw [if_neg, hfind]
        rintro ⟨rfl, rfl, rfl⟩
        rw [hnew.name_free] at hfind
        cases hfind
      · exact absurd hmem.1 hi

theorem Valid.addSymbol (ht : t.Valid) (hnew : t.IsAcceptable space new) : (t.addSymbol space new).Valid := by
  refine ⟨?_, fun s p hp => ?_, fun s i hi => ?_, fun s i hi => ?_, fun i d hd => ?_, ht.numbered_addSymbol hnew,
    ht.counted_addSymbol hnew, ht.named_addSymbol hnew⟩
  · rw [scopeCount_addSymbol]
    exact ht.unit_lt
  · rw [t.scope_field_addSymbol space new Scope.parent fun _ _ _ _ => rfl] at hp
    exact ht.parent_lt s p hp
  · rw [size_symbols_addSymbol]
    rcases (mem_symbols_addSymbol hnew.scope_lt).mp hi with hi | ⟨rfl, -⟩
    · exact Nat.lt_succ_of_lt (ht.symbol_lt s i hi)
    · exact Nat.lt_succ_self _
  · rcases (mem_symbols_addSymbol hnew.scope_lt).mp hi with hi | ⟨rfl, rfl⟩
    · rw [symbol_addSymbol_of_lt space new (ht.symbol_lt s i hi)]
      exact ht.symbol_scope s i hi
    · rw [symbol_addSymbol_self]
  · rw [scopeCount_addSymbol]
    rw [symbol_addSymbol] at hd
    split at hd
    · exact hnew.defines_lt d hd
    · exact ht.defines_lt i d hd

end AddSymbol

/-- What declaring a name does: it adds an acceptable symbol, or changes nothing. -/
theorem declare_cases (t : ScopeTable) (scope : ScopeId) (kind : SymbolKind) (name : Ident)
    (defines : Option ScopeId) (hscope : scope < t.scopeCount)
    (hdefines : ∀ d, defines = some d → d < t.scopeCount) :
    (∃ new, t.IsAcceptable (t.spaceOf kind defines) new ∧ new.kind = kind ∧ new.name = name.name ∧
      new.scope = scope ∧ new.defines = defines ∧
      t.declare scope kind name defines
        = (.ok t.symbols.size, t.addSymbol (t.spaceOf kind defines) new)) ∨
    ∃ e, t.declare scope kind name defines = (.error e, t) := by
  unfold declare
  simp only
  split
  · exact Or.inr ⟨_, rfl⟩
  · next hfree =>
    split
    · exact Or.inr ⟨_, rfl⟩
    · next hlimit =>
      refine Or.inl ⟨{
        kind := kind, name := name.name, scope := scope, defines := defines, span := name.span,
        index := (t.scope scope).counters.get kind.counter }, ?_, rfl, rfl, rfl, rfl, rfl⟩
      exact ⟨hscope, hdefines, rfl, rfl, Nat.lt_of_not_le hlimit, hfree⟩

/-! ## Variables and classes -/

/-- The variables that a scope declares, in order, with their kinds. -/
def variablesOf (t : ScopeTable) (s : ScopeId) : List (SymbolKind × String) :=
  ((t.symbolsOf s).filter (·.kind.isVariable)).map fun y => (y.kind, y.name)

/-- The classes of a unit, in order, with their scopes. -/
def classesOf (t : ScopeTable) : List (String × Option ScopeId) :=
  ((t.symbolsOf unitScope).filter (·.kind = .classDef)).map fun y => (y.name, y.defines)

theorem variablesOf_push (t : ScopeTable) {new : Scope} (hnew : IsFresh new) (s : ScopeId) :
    (t.push new).variablesOf s = t.variablesOf s := by
  rw [variablesOf, t.symbolsOf_push hnew.symbols_eq, variablesOf]

theorem classesOf_push (t : ScopeTable) {new : Scope} (hnew : IsFresh new) :
    (t.push new).classesOf = t.classesOf := by
  rw [classesOf, t.symbolsOf_push hnew.symbols_eq, classesOf]

theorem variablesOf_addSymbol {t : ScopeTable} (ht : t.Valid) {space : Namespace} {new : Symbol}
    (hnew : new.scope < t.scopeCount) (s : ScopeId) :
    (t.addSymbol space new).variablesOf s =
      if s = new.scope ∧ new.kind.isVariable then t.variablesOf s ++ [(new.kind, new.name)]
      else t.variablesOf s := by
  unfold variablesOf
  rw [symbolsOf_addSymbol ht space hnew]
  by_cases hs : s = new.scope
  · by_cases hk : new.kind.isVariable <;> simp [hs, hk]
  · simp [hs]

theorem classesOf_addSymbol {t : ScopeTable} (ht : t.Valid) {space : Namespace} {new : Symbol}
    (hnew : new.scope < t.scopeCount) :
    (t.addSymbol space new).classesOf =
      if new.scope = unitScope ∧ new.kind = .classDef then t.classesOf ++ [(new.name, new.defines)]
      else t.classesOf := by
  unfold classesOf
  rw [symbolsOf_addSymbol ht space hnew]
  by_cases hs : unitScope = new.scope
  · by_cases hk : new.kind = .classDef <;> simp [← hs, hk]
  · simp [hs, Ne.symm hs]

theorem Similar.variablesOf_eq {t t' : ScopeTable} (h : Similar t t') (s : ScopeId) :
    t'.variablesOf s = t.variablesOf s :=
  h.map_filter_symbolsOf (fun _ => rfl) (fun _ => rfl) s

theorem Similar.classesOf_eq {t t' : ScopeTable} (h : Similar t t') : t'.classesOf = t.classesOf :=
  h.map_filter_symbolsOf (fun _ => rfl) (fun _ => rfl) unitScope

section Counted

variable {t : ScopeTable} {s : ScopeId} {c : Counter}

/-- On a counter that only variables use, the numbered symbols are the variables. -/
theorem filter_isVariable_eq (hc : ∀ v ∈ t.variablesOf s, v.1.counter = c)
    (hvariable : ∀ kind : SymbolKind, kind.counter = c → kind.isVariable) :
    (t.symbolsOf s).filter (·.kind.isVariable) = (t.symbolsOf s).filter (·.kind.counter = c) := by
  apply List.filter_congr
  intro y hy
  rw [Bool.eq_iff_iff, decide_eq_true_iff]
  constructor
  · intro hk
    exact hc (y.kind, y.name) (List.mem_map.mpr ⟨y, List.mem_filter.mpr ⟨hy, hk⟩, rfl⟩)
  · exact hvariable y.kind

theorem Valid.counters_get_eq_length (ht : t.Valid) (hc : ∀ v ∈ t.variablesOf s, v.1.counter = c)
    (hvariable : ∀ kind : SymbolKind, kind.counter = c → kind.isVariable) :
    (t.scope s).counters.get c = (t.variablesOf s).length := by
  have hlength := congrArg List.length (ht.numbered s c)
  rw [← filter_isVariable_eq hc hvariable, List.length_map, List.length_range] at hlength
  rw [← hlength, variablesOf, List.length_map]

/-- The symbol that a scope lists at some place of its variables, if all are on one counter. -/
theorem Valid.exists_symbol_of_variablesOf (ht : t.Valid)
    (hc : ∀ v ∈ t.variablesOf s, v.1.counter = c)
    (hvariable : ∀ kind : SymbolKind, kind.counter = c → kind.isVariable) {i : Nat}
    {kind : SymbolKind} {x : String} (hi : (t.variablesOf s)[i]? = some (kind, x)) :
    ∃ y ∈ (t.scope s).symbols, (t.symbol y).kind = kind ∧ (t.symbol y).name = x ∧
      (t.symbol y).index = i := by
  have hnumbered := ht.numbered s c
  rw [← filter_isVariable_eq hc hvariable] at hnumbered
  unfold variablesOf at hi
  rw [List.getElem?_map, Option.map_eq_some_iff] at hi
  obtain ⟨symbol, hsymbol, hx⟩ := hi
  -- variables are numbered by their place
  have hindex : symbol.index = i := by
    have hget := congrArg (·[i]?) hnumbered
    simp only [List.getElem?_map, hsymbol, Option.map_some] at hget
    obtain ⟨hlt, heq⟩ := List.getElem?_eq_some_iff.mp hget.symm
    rw [List.getElem_range] at heq
    exact heq.symm
  have hmem := List.mem_of_mem_filter (List.mem_of_getElem? hsymbol)
  obtain ⟨y, hy, rfl⟩ := List.mem_map.mp hmem
  exact ⟨y, Array.mem_toList_iff.mp hy, congrArg Prod.fst hx, congrArg Prod.snd hx, hindex⟩

end Counted

theorem spaceOfSymbol_of_isVariable {t : ScopeTable} {y : SymbolId}
    (h : (t.symbol y).kind.isVariable) : t.spaceOfSymbol y = .values := by
  unfold spaceOfSymbol spaceOf
  cases hk : (t.symbol y).kind <;> rw [hk] at h <;> first | rfl | cases h

theorem Valid.lookupVariable_eq_some_iff {t : ScopeTable} (ht : t.Valid) {s : ScopeId} {x : String}
    {y : SymbolId} : t.lookupVariable s x = some y ↔
      y ∈ (t.scope s).symbols ∧ (t.symbol y).name = x ∧ (t.symbol y).kind.isVariable := by
  unfold lookupVariable
  rw [Option.filter_eq_some_iff, ht.named]
  constructor
  · rintro ⟨⟨hy, hx, -⟩, hk⟩
    exact ⟨hy, hx, hk⟩
  · rintro ⟨hy, hx, hk⟩
    exact ⟨⟨hy, hx, spaceOfSymbol_of_isVariable hk⟩, hk⟩

/-- A variable that a scope declares is found, with its place among the variables as its number. -/
theorem Valid.lookupVariable_of_idxOf? {t : ScopeTable} (ht : t.Valid) {s : ScopeId} {c : Counter}
    (hc : ∀ v ∈ t.variablesOf s, v.1.counter = c)
    (hvariable : ∀ kind : SymbolKind, kind.counter = c → kind.isVariable) {x : String} {i : Nat}
    (hi : ((t.variablesOf s).map (·.2)).idxOf? x = some i) :
    ∃ y, t.lookupVariable s x = some y ∧ (t.symbol y).index = i ∧ (t.symbol y).scope = s ∧
      (t.symbol y).kind.counter = c := by
  obtain ⟨hlt, hx, -⟩ := List.idxOf?_eq_some_iff.mp hi
  rw [List.length_map] at hlt
  rw [List.getElem_map] at hx
  have hget : (t.variablesOf s)[i]? = some ((t.variablesOf s)[i].1, x) := by
    rw [List.getElem?_eq_getElem hlt, ← hx]
  obtain ⟨y, hy, hkind, hname, hindex⟩ := ht.exists_symbol_of_variablesOf hc hvariable hget
  have hcounter : (t.symbol y).kind.counter = c := by
    rw [hkind]
    exact hc _ (List.getElem_mem hlt)
  exact ⟨y, ht.lookupVariable_eq_some_iff.mpr ⟨hy, hname, hvariable _ hcounter⟩, hindex,
    ht.symbol_scope s y hy, hcounter⟩

/-- What a scope does not declare is not found in it. -/
theorem Valid.lookupVariable_eq_none {t : ScopeTable} (ht : t.Valid) {s : ScopeId} {x : String}
    (hx : ((t.variablesOf s).map (·.2)).idxOf? x = none) : t.lookupVariable s x = none := by
  rw [List.idxOf?_eq_none_iff] at hx
  rw [Option.eq_none_iff_forall_ne_some]
  intro y hy
  obtain ⟨hmem, hname, hkind⟩ := ht.lookupVariable_eq_some_iff.mp hy
  apply hx
  have hsymbol : t.symbol y ∈ t.symbolsOf s :=
    List.mem_map_of_mem (Array.mem_toList_iff.mpr hmem)
  exact List.mem_map.mpr ⟨_, List.mem_map.mpr ⟨_, List.mem_filter.mpr ⟨hsymbol, hkind⟩, rfl⟩, hname⟩

/-- The scope of a class is found under the name of the class. -/
theorem Valid.lookupClass_eq_some_iff {t : ScopeTable} (ht : t.Valid) {x : String} {d : ScopeId} :
    t.lookupClass x = some d ↔ (x, some d) ∈ t.classesOf := by
  unfold lookupClass
  constructor
  · intro h
    split at h
    · next y hy =>
      split at h
      · next hkind =>
        obtain ⟨hmem, hname, -⟩ := (ht.named _ _ _ _).mp hy
        have hsymbol : t.symbol y ∈ t.symbolsOf unitScope :=
          List.mem_map_of_mem (Array.mem_toList_iff.mpr hmem)
        refine List.mem_map.mpr ⟨_, List.mem_filter.mpr ⟨hsymbol, by simpa using hkind⟩, ?_⟩
        rw [hname, h]
      · cases h
    · cases h
  · intro h
    obtain ⟨symbol, hsymbol, heq⟩ := List.mem_map.mp h
    obtain ⟨hmem, hkind⟩ := List.mem_filter.mp hsymbol
    obtain ⟨y, hy, rfl⟩ := List.mem_map.mp hmem
    rw [decide_eq_true_iff] at hkind
    have hspace : t.spaceOfSymbol y = .values := by
      unfold spaceOfSymbol spaceOf
      rw [hkind]
      rfl
    have hfind := (ht.named unitScope .values x y).mpr
      ⟨Array.mem_toList_iff.mp hy, congrArg Prod.fst heq, hspace⟩
    rw [hfind]
    simp only
    rw [if_pos hkind]
    exact congrArg Prod.snd heq

end ScopeTable

end Smalltalk
