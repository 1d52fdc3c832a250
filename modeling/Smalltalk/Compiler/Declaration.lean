import Smalltalk.Compiler.Diagnostic
import Smalltalk.Scope.Lookup
import Smalltalk.Tree.Definition

/-!
# Declaring names

The first stage of a compilation makes a scope for every class, method and block and declares every
name in its scope. It goes through the whole unit whatever it finds, and collects what is wrong.

Blocks are numbered per method, and a block gets its number before the blocks inside it. The main
program becomes the method of a class of its own.
-/

namespace Smalltalk

/-- The class that the main program belongs to. -/
def mainClassName : String := "MainClass"

/-- The method that the main program becomes. -/
def mainMethodName : String := "main"

/-- The class that the class of the main program extends. -/
def mainSuperclassName : String := "Object"

/-- The scopes of the definitions of a unit. -/
structure ScopeMap where
  /-- A scope for each class. -/
  classes : List ScopeId := []
  /-- For each class, a scope for each method. -/
  methods : List (List ScopeId) := []
  /-- The class and the method of the main program, unless it is empty. -/
  main : Option (ScopeId × ScopeId) := none
  /-- The scopes of blocks, by node number. -/
  blocks : Std.TreeMap Nat ScopeId := ∅

/-- All scopes of the map and that of the unit, in the order in which they were made. -/
def ScopeMap.scopeIds (m : ScopeMap) : List ScopeId :=
  let main := match m.main with
    | some (owner, method) => [owner, method]
    | none => []
  (ScopeTable.unitScope :: m.classes ++ m.methods.flatten ++ main ++ m.blocks.values).mergeSort

/-- What has been declared so far. -/
structure Declarations where
  /-- The scopes and symbols. -/
  table : ScopeTable := .empty
  /-- The scopes of blocks, by node number. -/
  blocks : Std.TreeMap Nat ScopeId := ∅
  /-- What was wrong. -/
  errors : Array Diagnostic := #[]

/-- Steps that declare names. -/
abbrev DeclareM := StateM Declarations

namespace DeclareM

/-- Makes a new scope. -/
def pushScope (scope : Scope) : DeclareM ScopeId :=
  modifyGet fun d => (d.table.scopeCount, { d with table := d.table.push scope })

/-- Reports what is wrong. -/
def report (e : Diagnostic) : DeclareM Unit :=
  modify fun d => { d with errors := d.errors.push e }

/-- Declares a name, or reports why that is not possible. -/
def declare (scope : ScopeId) (kind : SymbolKind) (name : Ident) (defines : Option ScopeId) :
    DeclareM (Option SymbolId) := do
  let result ← modifyGet fun d =>
    let (result, table) := d.table.declare scope kind name defines
    (result, { d with table := table })
  match result with
  | .ok symbol => return some symbol
  | .error (.taken _) =>
    report (.duplicate name.name ((← get).table.describe scope) name.span)
    return none
  | .error .full =>
    report (.limitExceeded (.counted kind.counter) name.span)
    return none

/-- Declares several variables of one kind. -/
def declareAll (scope : ScopeId) (kind : SymbolKind) : List Ident → DeclareM Unit
  | [] => return
  | name :: names => do
    let _ ← declare scope kind name none
    declareAll scope kind names

/-- Gives out the next block number of a method. -/
def nextBlockIndex (method : ScopeId) : DeclareM (Option Nat) :=
  modifyGet fun d =>
    let (index, table) := d.table.nextBlockIndex method
    (index, { d with table := table })

/-- Numbers and declares a block with a given node, and opens its scope. Returns the scope, and the
symbol if the block could be declared. -/
def openBlock (method scope : ScopeId) (info : NodeInfo) (index : Nat) :
    DeclareM (ScopeId × Option SymbolId) := do
  let name := ((← get).table.scope method).name ++ "-block" ++ toString index
  let inner ← pushScope
    { kind := .block, name := name, parent := some scope, span := info.span,
      blockIndex := some index }
  modify fun d => { d with blocks := d.blocks.insert info.id inner }
  let symbol ← declare scope .block ⟨name, info.span⟩ (some inner)
  return (inner, symbol)

/-- Notes how many blocks have been numbered since the one with the given index. -/
def closeBlock (method : ScopeId) (index : Nat) : Option SymbolId → DeclareM Unit
  | none => return
  | some symbol => modify fun d =>
    { d with table :=
        d.table.setNestedBlocks symbol ((d.table.scope method).blockCount - index - 1) }

mutual

/-- Declares the blocks in an expression, and what is inside them. -/
def expr (method scope : ScopeId) : Expr → DeclareM Unit
  | .atom _ _ | .name _ _ => return
  | .array _ items => exprs method scope items
  | .block info params locals statements _ => do
    match ← nextBlockIndex method with
    | none => report (.limitExceeded (.counted .blocks) info.span)
    | some index =>
      let (inner, symbol) ← openBlock method scope info index
      declareAll inner .argument params
      declareAll inner .localVar locals
      exprs method inner statements
      closeBlock method index symbol
  | .send _ receiver _ arguments => do
    expr method scope receiver
    exprs method scope arguments
  | .superSend _ _ arguments => exprs method scope arguments
  | .assign _ target value => do
    expr method scope target
    expr method scope value
  | .ret _ value => expr method scope value

/-- Declares the blocks in several expressions. -/
def exprs (method scope : ScopeId) : List Expr → DeclareM Unit
  | [] => return
  | e :: es => do
    expr method scope e
    exprs method scope es

end

/-- Makes the scope of a class and declares the class and its fields. -/
def classScope (name : Ident) (superclass : Option String) (fields : List Ident) (span : Span) :
    DeclareM ScopeId := do
  let scope ← pushScope
    { kind := .classDef, name := name.name, parent := some ScopeTable.unitScope, span := span,
      superclass := superclass }
  let _ ← declare ScopeTable.unitScope .classDef name (some scope)
  declareAll scope .field fields
  return scope

/-- Makes the scope of a method and declares the method, its parameters, and what is in its
body. -/
def methodScope (owner : ScopeId) (selector : Ident) (params : List Ident) (classSide : Bool)
    (body : MethodBody) : DeclareM ScopeId := do
  let scope ← pushScope
    { kind := .method, name := selector.name, parent := some owner, span := selector.span,
      classSide := classSide }
  let kind := match body with
    | .code _ => SymbolKind.method
    | .primitive _ => SymbolKind.primitive
  let _ ← declare owner kind selector (some scope)
  declareAll scope .argument params
  match body with
  | .code body =>
    declareAll scope .localVar body.locals
    exprs scope scope body.statements
  | .primitive name =>
    modify fun d =>
      { d with table := d.table.modifyScope scope fun s => { s with primitive := some name.name } }
  return scope

/-- Makes the scopes of methods, after those in `done`. -/
def methodScopes (owner : ScopeId) (done : Array ScopeId) :
    List MethodDef → DeclareM (List ScopeId)
  | [] => return done.toList
  | m :: ms => do
    let scope ← methodScope owner m.selector m.params m.classSide m.body
    methodScopes owner (done.push scope) ms

/-- Makes the scopes of classes and of their methods, after those in `done`. -/
def classScopes (done : Array (ScopeId × List ScopeId)) :
    List ClassDef → DeclareM (List (ScopeId × List ScopeId))
  | [] => return done.toList
  | c :: cs => do
    let scope ← classScope c.name (c.superclass.map (·.name)) c.fields c.span
    let methods ← methodScopes scope #[] c.methods
    classScopes (done.push (scope, methods)) cs

/-- Makes the scopes of the main program, unless it is empty. It stands where its first statement
does. -/
def mainScopes (u : SourceUnit) : DeclareM (Option (ScopeId × ScopeId)) := do
  if u.main.isEmpty then return none
  else
    let span := match u.main.statements with
      | [] => u.finish
      | e :: _ => e.span
    let owner ← classScope ⟨mainClassName, span⟩ (some mainSuperclassName) [] span
    let method ← methodScope owner ⟨mainMethodName, span⟩ [] false (.code u.main)
    return some (owner, method)

end DeclareM

/-- The outcome of declaring the names of a unit. -/
structure Declared where
  /-- The scopes and symbols. -/
  table : ScopeTable
  /-- Where the definitions of the unit are. -/
  scopes : ScopeMap
  /-- What was wrong. -/
  errors : List Diagnostic

/-- Declares the names of a unit. -/
def declareUnit (u : SourceUnit) : Declared :=
  let walk : DeclareM (List (ScopeId × List ScopeId) × Option (ScopeId × ScopeId)) := do
    let classes ← DeclareM.classScopes #[] u.classes
    let main ← DeclareM.mainScopes u
    return (classes, main)
  let ((classes, main), d) := walk.run {}
  { table := d.table
    scopes :=
      { classes := classes.map (·.1)
        methods := classes.map (·.2)
        main := main
        blocks := d.blocks }
    errors := d.errors.toList }

end Smalltalk
