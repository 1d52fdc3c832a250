import Smalltalk.Scope.Lookup

/-!
# Bindings
-/

namespace Smalltalk

/-- What an occurrence of a name refers to. -/
inductive Binding where
  /-- A field of the receiver. -/
  | field (symbol : SymbolId)
  /-- An argument or local, so many activations out. -/
  | slot (symbol : SymbolId) (depth : UInt16)
  /-- Something that the running program looks up by name. -/
  | global
  deriving DecidableEq, Inhabited

/-- The bindings of names, by node number. -/
abbrev Bindings := Std.TreeMap Nat Binding

namespace ScopeTable

/-- What a name refers to in a scope. -/
def bindingOf (t : ScopeTable) (scope : ScopeId) (name : String) : Binding :=
  match t.resolve scope name with
  | some (symbol, depth) =>
    if (t.symbol symbol).kind = .field then .field symbol else .slot symbol depth
  | none => .global

end ScopeTable

end Smalltalk
