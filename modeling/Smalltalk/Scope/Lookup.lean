import Smalltalk.Scope.Table

/-!
# Looking up names

A variable is searched from the inside out: first in the blocks and the method around its use, then
among the fields of the class, its own before inherited ones. The scope of the unit is not searched:
what is found nowhere is left to the running program.

Classes extend each other by name, so their chains may lead outside the unit, and may even return to
where they started. A chain is followed as long as it shows new classes.
-/

namespace Smalltalk

namespace ScopeTable

/-- A scope and those around it, from the inside out. A scope is younger than the one around it. -/
def outward (t : ScopeTable) (id : ScopeId) : List ScopeId :=
  match (t.scope id).parent with
  | some parent => if parent < id then id :: outward t parent else [id]
  | none => [id]
termination_by id

/-- The nearest scope of a kind around a scope, itself included. -/
def enclosing (t : ScopeTable) (id : ScopeId) (kind : ScopeKind) : Option ScopeId :=
  (t.outward id).find? fun s => (t.scope s).kind = kind

/-- The names of a scope and those around it, up to the scope of the unit. -/
def qualifiedName (t : ScopeTable) (id : ScopeId) : String :=
  let inside := (t.outward id).takeWhile fun s => (t.scope s).kind ≠ .unit
  String.intercalate ">>" (inside.map fun s => (t.scope s).name).reverse

/-- What messages call a scope. -/
def describe (t : ScopeTable) (id : ScopeId) : String :=
  if (t.scope id).kind = .unit then "global scope" else t.qualifiedName id

/-! ## Classes -/

/-- The scope of the class with a given name. -/
def lookupClass (t : ScopeTable) (name : String) : Option ScopeId :=
  match (t.scope unitScope).names.find? .values name with
  | some id => if (t.symbol id).kind = .classDef then (t.symbol id).defines else none
  | none => none

/-- The scope of the class that a class extends, if it is part of the unit. -/
def superclassScope (t : ScopeTable) (id : ScopeId) : Option ScopeId :=
  (t.scope id).superclass.bind t.lookupClass

/-- The chain that goes on with `next`, as long as it shows scopes not in `seen`; at most `n` of
them. -/
def chainFrom (t : ScopeTable) : Nat → List ScopeId → Option ScopeId → List ScopeId
  | n + 1, seen, some id =>
    if seen.contains id then [] else id :: chainFrom t n (id :: seen) (t.superclassScope id)
  | _, _, _ => []

/-- The classes that a class inherits from, the nearest first. -/
def ancestors (t : ScopeTable) (id : ScopeId) : List ScopeId :=
  t.chainFrom t.scopeCount [id] (t.superclassScope id)

/-- Whether the chain that goes on with `next` comes to `goal`, as long as it shows scopes not in
`seen`; looking at no more than `n` of them. -/
def reaches (t : ScopeTable) (goal : ScopeId) : Nat → List ScopeId → Option ScopeId → Bool
  | n + 1, seen, some id =>
    if id = goal then true
    else if seen.contains id then false
    else reaches t goal n (id :: seen) (t.superclassScope id)
  | _, _, _ => false

/-- Whether following the superclasses of a class leads back to it. -/
def inheritsFromItself (t : ScopeTable) (id : ScopeId) : Bool :=
  t.reaches id (t.scopeCount + 1) [] (t.superclassScope id)

/-- How many fields a class adds. -/
def fieldCount (t : ScopeTable) (id : ScopeId) : Nat :=
  (t.scope id).counters.fields

/-- How many fields a class inherits. -/
def inheritedFieldCount (t : ScopeTable) (id : ScopeId) : Nat :=
  (t.ancestors id).foldr (fun c n => t.fieldCount c + n) 0

/-- The place of a field in the instances of its class: inherited fields come first. -/
def fieldIndex (t : ScopeTable) (field : SymbolId) : Nat :=
  t.inheritedFieldCount (t.symbol field).scope + (t.symbol field).index

/-! ## Variables -/

/-- The variable with a given name that a scope itself declares. -/
def lookupVariable (t : ScopeTable) (id : ScopeId) (name : String) : Option SymbolId :=
  ((t.scope id).names.find? .values name).filter fun s => (t.symbol s).kind.isVariable

/-- The field with a given name that a class declares or inherits. -/
def lookupField (t : ScopeTable) (id : ScopeId) (name : String) : Option SymbolId :=
  (id :: t.ancestors id).findSome? fun c => t.lookupVariable c name

/-- Searches scopes from the inside out, the first of them `depth` activations out. The depth is
counted as instructions hold it, in 16 bits. -/
def resolveAlong (t : ScopeTable) (name : String) :
    UInt16 → List ScopeId → Option (SymbolId × UInt16)
  | _, [] => none
  | depth, id :: rest =>
    match (t.scope id).kind with
    | .method | .block =>
      match t.lookupVariable id name with
      | some s => some (s, depth)
      | none => resolveAlong t name (depth + 1) rest
    | .classDef => (t.lookupField id name).map fun s => (s, depth)
    | .unit => none

/-- The variable that a name refers to in a scope, and how many activations out it lives. -/
def resolve (t : ScopeTable) (id : ScopeId) (name : String) : Option (SymbolId × UInt16) :=
  t.resolveAlong name 0 (t.outward id)

end ScopeTable

end Smalltalk
