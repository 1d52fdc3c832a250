import Smalltalk.Scope.Basic
import Smalltalk.Tree.Expr

/-!
# The scope table

All scopes and symbols of a unit are kept in one table and referred to by number. Scope zero is that
of the unit itself. A declaration that is refused leaves the table as it was, and a name that is
taken is found out before a counter that is full.
-/

namespace Smalltalk

/-- The scopes and symbols of a unit. -/
structure ScopeTable where
  /-- The scopes, in the order in which they were made. -/
  scopes : Array Scope
  /-- The symbols, in the order in which they were declared. -/
  symbols : Array Symbol
  deriving Inhabited

/-- Why a declaration is refused. -/
inductive DeclareError where
  /-- The name is taken. -/
  | taken (existing : SymbolId)
  /-- The counter is full. -/
  | full
  deriving DecidableEq

namespace ScopeTable

/-- The table with nothing but the scope of the unit. -/
def empty : ScopeTable := ⟨#[{ kind := .unit, name := "global" }], #[]⟩

/-- The scope of the unit. -/
def unitScope : ScopeId := 0

/-- The scope with a given number. -/
def scope (t : ScopeTable) (id : ScopeId) : Scope := t.scopes.getD id default

/-- The symbol with a given number. -/
def symbol (t : ScopeTable) (id : SymbolId) : Symbol := t.symbols.getD id default

/-- How many scopes there are. -/
def scopeCount (t : ScopeTable) : Nat := t.scopes.size

/-- The symbols of a scope, in the order in which they were declared. -/
def symbolsOf (t : ScopeTable) (id : ScopeId) : List Symbol :=
  (t.scope id).symbols.toList.map t.symbol

/-- Changes one scope. -/
def modifyScope (t : ScopeTable) (id : ScopeId) (f : Scope → Scope) : ScopeTable :=
  { t with scopes := t.scopes.modify id f }

/-- Makes a new scope; its number is that of the scopes before. -/
def push (t : ScopeTable) (scope : Scope) : ScopeTable :=
  { t with scopes := t.scopes.push scope }

/-- The namespace of a new symbol. A method belongs to the side that its scope says. -/
def spaceOf (t : ScopeTable) (kind : SymbolKind) (defines : Option ScopeId) : Namespace :=
  kind.space (defines.any fun id => (t.scope id).classSide)

/-- Adds a symbol that is known to be acceptable. -/
def addSymbol (t : ScopeTable) (space : Namespace) (symbol : Symbol) : ScopeTable :=
  let id := t.symbols.size
  let t := t.modifyScope symbol.scope fun owner =>
    { owner with
      symbols := owner.symbols.push id
      names := owner.names.insert space symbol.name id
      counters := owner.counters.bump symbol.kind.counter }
  { t with symbols := t.symbols.push symbol }

/-- Declares a name in a scope. -/
def declare (t : ScopeTable) (scope : ScopeId) (kind : SymbolKind) (name : Ident)
    (defines : Option ScopeId) : Except DeclareError SymbolId × ScopeTable :=
  let space := t.spaceOf kind defines
  match (t.scope scope).names.find? space name.name with
  | some existing => (.error (.taken existing), t)
  | none =>
    let index := (t.scope scope).counters.get kind.counter
    if counterLimit ≤ index then (.error .full, t)
    else
      (.ok t.symbols.size, t.addSymbol space
        { kind := kind, name := name.name, scope := scope, index := index, defines := defines,
          span := name.span })

/-- Notes how many blocks are inside a block. -/
def setNestedBlocks (t : ScopeTable) (id : SymbolId) (count : Nat) : ScopeTable :=
  { t with symbols := t.symbols.modify id fun s => { s with nestedBlocks := count } }

/-- Gives out the next block number of a method, unless all are in use. -/
def nextBlockIndex (t : ScopeTable) (method : ScopeId) : Option Nat × ScopeTable :=
  let index := (t.scope method).blockCount
  if counterLimit ≤ index then (none, t)
  else (some index, t.modifyScope method fun s => { s with blockCount := index + 1 })

/-- How many symbols of a kind a scope has. -/
def countOf (t : ScopeTable) (id : ScopeId) (kind : SymbolKind) : Nat :=
  (t.scope id).symbols.foldl (fun n s => if (t.symbol s).kind = kind then n + 1 else n) 0

/-- How many arguments and how many locals a method or block has. -/
def frameSize (t : ScopeTable) (id : ScopeId) : Nat × Nat :=
  (t.countOf id .argument, t.countOf id .localVar)

end ScopeTable

end Smalltalk
