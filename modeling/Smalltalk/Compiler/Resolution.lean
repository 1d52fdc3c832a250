import Smalltalk.Compiler.Declaration
import Smalltalk.Compiler.LogEvent
import Smalltalk.Compiler.Options

/-!
# Binding names

The second stage of a compilation finds out what every occurrence of a name refers to. It reports
classes that extend themselves, assignments to what is no variable and, if asked for, names that are
declared nowhere.
-/

namespace Smalltalk

/-- What has been bound so far. -/
structure Resolution where
  /-- The bindings, by node number. -/
  bindings : Bindings := ∅
  /-- What was wrong. -/
  errors : Array Diagnostic := #[]
  /-- What happened. -/
  log : Array LogEvent := #[]

/-- Steps that bind names. -/
abbrev ResolveM := StateM Resolution

/-- What binding names depends on. -/
structure ResolveContext where
  /-- The scopes and symbols. -/
  table : ScopeTable
  /-- The scopes of blocks, by node number. -/
  blocks : Std.TreeMap Nat ScopeId
  /-- Whether names that are declared nowhere are errors. -/
  strict : Bool

namespace ResolveM

/-- Reports what is wrong. -/
def report (e : Diagnostic) : ResolveM Unit :=
  modify fun r => { r with errors := r.errors.push e }

/-- Notes what happened. -/
def note (event : LogEvent) : ResolveM Unit :=
  modify fun r => { r with log := r.log.push event }

/-- Binds an occurrence of a name. -/
def bind (ctx : ResolveContext) (scope : ScopeId) (info : NodeInfo) (name : String) :
    ResolveM Binding := do
  let binding := ctx.table.bindingOf scope name
  if binding = .global then
    note (.deferred name)
    if ctx.strict && (ctx.table.lookupClass name).isNone then
      report (.unresolved name info.span)
  note (.bound name info.span binding)
  modify fun r => { r with bindings := r.bindings.insert info.id binding }
  return binding

/-- Binds the target of an assignment. -/
def target (ctx : ResolveContext) (scope : ScopeId) : Expr → ResolveM Unit
  | .name info name => do
    let binding ← bind ctx scope info name
    if binding = .global then report (.notAssignable name info.span)
  | e => report (.internal (.targetIsNoName e.span))

mutual

/-- Binds the names in an expression. The value of an assignment comes before its target. Blocks
that have no scope are passed over: that they have none has been reported. -/
def expr (ctx : ResolveContext) (scope : ScopeId) : Expr → ResolveM Unit
  | .atom _ _ => return
  | .name info name => do
    let _ ← bind ctx scope info name
  | .array _ items => exprs ctx scope items
  | .block info _ _ statements _ =>
    match ctx.blocks[info.id]? with
    | some inner => exprs ctx inner statements
    | none => return
  | .send _ receiver _ arguments => do
    expr ctx scope receiver
    exprs ctx scope arguments
  | .superSend _ _ arguments => exprs ctx scope arguments
  | .assign _ left value => do
    expr ctx scope value
    target ctx scope left
  | .ret _ value => expr ctx scope value

/-- Binds the names in several expressions. -/
def exprs (ctx : ResolveContext) (scope : ScopeId) : List Expr → ResolveM Unit
  | [] => return
  | e :: es => do
    expr ctx scope e
    exprs ctx scope es

end

/-- Reports classes that extend themselves. -/
def cycles (ctx : ResolveContext) : List (ClassDef × ScopeId) → ResolveM Unit
  | [] => return
  | (c, scope) :: rest => do
    if ctx.table.inheritsFromItself scope then
      report (.cyclicInheritance c.name.name c.name.span)
    cycles ctx rest

/-- Binds the names in methods. -/
def methods (ctx : ResolveContext) : List (MethodDef × ScopeId) → ResolveM Unit
  | [] => return
  | (m, scope) :: rest => do
    match m.body with
    | .code body => exprs ctx scope body.statements
    | .primitive _ => pure ()
    methods ctx rest

/-- Binds the names in classes. -/
def classes (ctx : ResolveContext) : List (ClassDef × List ScopeId) → ResolveM Unit
  | [] => return
  | (c, scopes) :: rest => do
    methods ctx (c.methods.zip scopes)
    classes ctx rest

end ResolveM

/-- Binds the names of a unit. -/
def resolveUnit (u : SourceUnit) (table : ScopeTable) (scopes : ScopeMap)
    (options : CompileOptions) : Resolution :=
  let ctx : ResolveContext := ⟨table, scopes.blocks, options.strictGlobals⟩
  let walk : ResolveM Unit := do
    ResolveM.cycles ctx (u.classes.zip scopes.classes)
    ResolveM.classes ctx (u.classes.zip scopes.methods)
    match scopes.main with
    | some (_, method) => ResolveM.exprs ctx method u.main.statements
    | none => pure ()
    let count := (← get).bindings.size
    ResolveM.note (.resolved count)
  (walk.run {}).2

end Smalltalk
