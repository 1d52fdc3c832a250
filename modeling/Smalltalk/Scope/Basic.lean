import Smalltalk.Source.Span
import Std.Data.TreeMap

/-!
# Scopes and symbols

Names are declared in scopes. The scope of a unit holds its classes, the scope of a class its fields
and methods, and the scope of a method or a block its arguments, locals and inner blocks.

Names only clash within one namespace: a field and a method may share a name, and so may methods of
the two sides of a class. Symbols of a scope are numbered by counters, and these group symbols
differently: arguments and locals are numbered together, as slots of one frame.
-/

namespace Smalltalk

/-- The number of a scope, in the order in which scopes are made. -/
abbrev ScopeId := Nat

/-- The number of a symbol, in the order in which symbols are declared. -/
abbrev SymbolId := Nat

/-- No counter goes beyond this. -/
def counterLimit : Nat := 65535

/-- What a scope belongs to. -/
inductive ScopeKind where
  | unit
  | classDef
  | method
  | block
  deriving DecidableEq, Inhabited

/-- What a symbol stands for. -/
inductive SymbolKind where
  | classDef
  | field
  | argument
  | localVar
  | method
  | primitive
  | block
  deriving DecidableEq, Inhabited

/-- Symbols that are numbered together. -/
inductive Counter where
  | classes
  | fields
  | slots
  | methods
  | blocks
  deriving DecidableEq

/-- What messages call the things that a counter counts. -/
def Counter.text : Counter → String
  | classes => "classes"
  | fields => "fields"
  | slots => "arguments and locals"
  | methods => "methods"
  | blocks => "blocks"

/-- Symbols whose names clash. -/
inductive Namespace where
  | values
  | instanceMethods
  | classMethods
  | blocks
  deriving DecidableEq

namespace SymbolKind

/-- Whether a plain name can refer to such a symbol. -/
def isVariable : SymbolKind → Bool
  | field | argument | localVar => true
  | _ => false

/-- The counter that numbers such symbols. -/
def counter : SymbolKind → Counter
  | classDef => .classes
  | field => .fields
  | argument | localVar => .slots
  | method | primitive => .methods
  | block => .blocks

/-- The namespace of such symbols; for methods the side of the class matters. -/
def space (kind : SymbolKind) (classSide : Bool) : Namespace :=
  match kind with
  | method | primitive => if classSide then .classMethods else .instanceMethods
  | block => .blocks
  | _ => .values

end SymbolKind

/-- How many symbols of a scope each counter has numbered. -/
structure Counters where
  /-- Classes. -/
  classes : Nat := 0
  /-- Fields. -/
  fields : Nat := 0
  /-- Arguments and locals. -/
  slots : Nat := 0
  /-- Methods of both sides. -/
  methods : Nat := 0
  /-- Blocks. -/
  blocks : Nat := 0
  deriving DecidableEq, Inhabited

namespace Counters

/-- The value of a counter. -/
def get (c : Counters) : Counter → Nat
  | .classes => c.classes
  | .fields => c.fields
  | .slots => c.slots
  | .methods => c.methods
  | .blocks => c.blocks

/-- One more on a counter. -/
def bump (c : Counters) : Counter → Counters
  | .classes => { c with classes := c.classes + 1 }
  | .fields => { c with fields := c.fields + 1 }
  | .slots => { c with slots := c.slots + 1 }
  | .methods => { c with methods := c.methods + 1 }
  | .blocks => { c with blocks := c.blocks + 1 }

theorem get_bump (c : Counters) (k l : Counter) :
    (c.bump k).get l = if k = l then c.get l + 1 else c.get l := by
  cases k <;> cases l <;> rfl

end Counters

/-- The symbols with given names. -/
abbrev NameMap := Std.TreeMap String SymbolId

/-- The names of a scope, by namespace. -/
structure NameTable where
  /-- Classes, fields, arguments and locals. -/
  values : NameMap := ∅
  /-- Methods of the instances. -/
  instanceMethods : NameMap := ∅
  /-- Methods of the class itself. -/
  classMethods : NameMap := ∅
  /-- Blocks. -/
  blocks : NameMap := ∅
  deriving Inhabited

namespace NameTable

/-- The symbol that a name has in a namespace. -/
def find? (t : NameTable) (space : Namespace) (name : String) : Option SymbolId :=
  match space with
  | .values => t.values[name]?
  | .instanceMethods => t.instanceMethods[name]?
  | .classMethods => t.classMethods[name]?
  | .blocks => t.blocks[name]?

/-- Gives a name in a namespace to a symbol. -/
def insert (t : NameTable) (space : Namespace) (name : String) (symbol : SymbolId) : NameTable :=
  match space with
  | .values => { t with values := t.values.insert name symbol }
  | .instanceMethods => { t with instanceMethods := t.instanceMethods.insert name symbol }
  | .classMethods => { t with classMethods := t.classMethods.insert name symbol }
  | .blocks => { t with blocks := t.blocks.insert name symbol }

end NameTable

/-- A region in which names are declared. -/
structure Scope where
  /-- What the scope belongs to. -/
  kind : ScopeKind
  /-- What it is called. -/
  name : String
  /-- The scope around it. -/
  parent : Option ScopeId := none
  /-- Where it stands. -/
  span : Span := {}
  /-- Its symbols, in the order in which they were declared. -/
  symbols : Array SymbolId := #[]
  /-- Its symbols by name. -/
  names : NameTable := {}
  /-- How many symbols each counter has numbered. -/
  counters : Counters := {}
  /-- For a class, the name of the class that it extends. -/
  superclass : Option String := none
  /-- For a method, whether the class itself answers. -/
  classSide : Bool := false
  /-- For a method that is part of the machine, its name there. -/
  primitive : Option String := none
  /-- For a method, how many of its blocks have been numbered. -/
  blockCount : Nat := 0
  /-- For a block, its number in the method. -/
  blockIndex : Option Nat := none
  deriving Inhabited

/-- A declared name. -/
structure Symbol where
  /-- What it stands for. -/
  kind : SymbolKind
  /-- The name. -/
  name : String
  /-- The scope that it is declared in. -/
  scope : ScopeId
  /-- Its number on the counter of its kind. -/
  index : Nat
  /-- The scope of the class, method or block that it stands for. -/
  defines : Option ScopeId := none
  /-- Where it is declared. -/
  span : Span := {}
  /-- For a block, how many blocks are inside it. -/
  nestedBlocks : Nat := 0
  deriving DecidableEq, Inhabited

end Smalltalk
