import Smalltalk.Compiler.Resolution
import Smalltalk.LiteralTable
import Smalltalk.ObjectFile.Compiled

/-!
# Generating code

The third stage of a compilation turns every method and block into instructions. An expression
leaves exactly one value on the stack, and statements drop the value of the statement before. A
method ends by returning its receiver, a block by returning the value of its last statement.

The first thing that is wrong ends this stage. After the stages before it reported nothing, only
limits of the machine can be exceeded.
-/

namespace Smalltalk

open Bytecode

/-- What code generation depends on. -/
structure GenerateContext where
  /-- The scopes and symbols. -/
  table : ScopeTable
  /-- The scopes of blocks, by node number. -/
  blocks : Std.TreeMap Nat ScopeId
  /-- What names refer to, by node number. -/
  bindings : Bindings
  /-- What was asked for. -/
  options : CompileOptions

/-- What has been generated so far. -/
structure Generated where
  /-- The strings of the class. -/
  literals : LiteralTable := .empty
  /-- The number of the file name, once a position has been marked in the class. -/
  file : Option UInt16 := none
  /-- The instructions of the body. -/
  code : Array Instruction := #[]
  /-- The blocks of the method, by number, as far as their code is ready. -/
  blocks : Array (Option CompiledBlock) := #[]
  /-- What happened. -/
  log : Array LogEvent := #[]

/-- Steps that generate code. -/
abbrev GenerateM := EStateM Diagnostic Generated

namespace GenerateM

/-- Fails because the stages do not agree. -/
def inconsistent {α : Type} (what : Inconsistency) : GenerateM α := throw (.internal what)

/-- Notes what happened. -/
def note (event : LogEvent) : GenerateM Unit :=
  modify fun g => { g with log := g.log.push event }

/-- Adds an instruction. -/
def emit (i : Instruction) : GenerateM Unit :=
  modify fun g => { g with code := g.code.push i }

/-- A number as an operand. -/
def operand (value : Nat) (what : Quantity) (span : Span) : GenerateM UInt16 :=
  if value ≤ counterLimit then return UInt16.ofNat value else throw (.limitExceeded what span)

/-- A string as an operand. -/
def literal (s : String) (span : Span) : GenerateM UInt16 := do
  let index ← modifyGet fun g =>
    let (index, literals) := g.literals.intern s
    (index, { g with literals := literals })
  operand index .literals span

/-- The name of the source file as an operand. -/
def fileLiteral (ctx : GenerateContext) (span : Span) : GenerateM UInt16 := do
  match (← get).file with
  | some file => return file
  | none =>
    let file ← literal ctx.options.fileName span
    modify fun g => { g with file := some file }
    return file

/-- Marks a source position, if that is asked for. -/
def mark (ctx : GenerateContext) (p : Position) : GenerateM Unit := do
  if ctx.options.debugInfo then
    let span := Span.point p
    let file ← fileLiteral ctx span
    let line ← operand p.line .sourceLines span
    let column ← operand (p.column - 1) .columns span
    emit (.mark file line column)

/-- What a name refers to. -/
def binding (ctx : GenerateContext) (info : NodeInfo) : GenerateM Binding :=
  match ctx.bindings[info.id]? with
  | some b => return b
  | none => inconsistent (.nameWithoutBinding info.span)

/-- The place of a field as an operand. -/
def fieldOperand (ctx : GenerateContext) (field : SymbolId) (span : Span) : GenerateM UInt16 :=
  operand (ctx.table.fieldIndex field) (.counted .fields) span

/-- The slot of an argument or local as an operand. -/
def slotOperand (ctx : GenerateContext) (symbol : SymbolId) : UInt16 :=
  UInt16.ofNat (ctx.table.symbol symbol).index

/-- Pushes a value. -/
def atom (span : Span) : Atom → GenerateM Unit
  | .integer value => emit (.pushInt value)
  | .float bits => emit (.pushFloat bits)
  | .character c =>
    if c.toNat ≤ 0xFFFF then emit (.pushChar (UInt16.ofNat c.toNat))
    else inconsistent (.wideCharacter span)
  | .string s => do emit (.pushLiteral (← literal s span))
  | .nilObject => emit .pushNil
  | .trueObject => emit .pushTrue
  | .falseObject => emit .pushFalse
  | .receiver => emit .pushSelf

/-- Pushes the value of a variable. -/
def load (ctx : GenerateContext) (info : NodeInfo) (name : String) : GenerateM Unit := do
  match ← binding ctx info with
  | .field symbol => emit (.pushField (← fieldOperand ctx symbol info.span))
  | .slot symbol depth => emit (.pushLocal depth (slotOperand ctx symbol))
  | .global => emit (.pushGlobal (← literal name info.span))

/-- Stores into the variable `target`; `span` is the whole assignment. -/
def store (ctx : GenerateContext) (target : NodeInfo) (span : Span) : GenerateM Unit := do
  match ← binding ctx target with
  | .field symbol => emit (.storeField (← fieldOperand ctx symbol span))
  | .slot symbol depth => emit (.storeLocal depth (slotOperand ctx symbol))
  | .global => inconsistent (.globalAssigned span)

/-- The operands of a message: how many arguments it has, and its selector. -/
def message (selector : String) (count : Nat) (span : Span) : GenerateM (UInt16 × UInt16) := do
  let count ← operand count .messageArguments span
  let selector ← literal selector span
  return (count, selector)

/-- The scope and the number of a block. -/
def blockScope (ctx : GenerateContext) (info : NodeInfo) : GenerateM (ScopeId × Nat) :=
  match ctx.blocks[info.id]? with
  | none => inconsistent (.blockWithoutScope info.span)
  | some scope =>
    match (ctx.table.scope scope).blockIndex with
    | none => inconsistent (.blockWithoutIndex info.span)
    | some index => return (scope, index)

/-- Begins a body of its own, and returns the instructions of the one around it. -/
def beginBody : GenerateM (Array Instruction) :=
  modifyGet fun g => (g.code, { g with code := #[] })

/-- Ends a body: goes on with the instructions around it, and returns the code of the body. -/
def endBody (around : Array Instruction) : GenerateM (List UInt8) :=
  modifyGet fun g => (encode g.code.toList, { g with code := around })

/-- Keeps the code of a block with its method. -/
def finishBlock (ctx : GenerateContext) (scope : ScopeId) (index : Nat) (code : List UInt8) :
    GenerateM Unit := do
  let (argumentCount, localCount) := ctx.table.frameSize scope
  let block : CompiledBlock := {
    name := (ctx.table.scope scope).name
    qualifiedName := ctx.table.qualifiedName scope
    argumentCount := argumentCount
    localCount := localCount
    code := code }
  note (.blockCode block.qualifiedName code.length)
  if index < (← get).blocks.size then
    modify fun g => { g with blocks := g.blocks.setIfInBounds index (some block) }
  else inconsistent (.blockIndexOutOfRange index block.qualifiedName)

mutual

/-- Pushes the value of an expression. -/
def expr (ctx : GenerateContext) : Expr → GenerateM Unit
  | .atom info value => atom info.span value
  | .name info name => load ctx info name
  | .array info items => do
    exprs ctx false items
    emit (.pushArray (← operand items.length .arrayElements info.span))
  | .block info _ _ statements close => do
    let (scope, index) ← blockScope ctx info
    let around ← beginBody
    exprs ctx true statements
    mark ctx close.start
    emit .blockReturn
    let code ← endBody around
    finishBlock ctx scope index code
    emit (.block (UInt16.ofNat index))
  | .send info receiver selector arguments => do
    expr ctx receiver
    exprs ctx false arguments
    let (count, selector) ← message selector.text arguments.length info.span
    emit (.send count selector)
  | .superSend info selector arguments => do
    emit .pushSelf
    exprs ctx false arguments
    let (count, selector) ← message selector.name arguments.length info.span
    emit (.sendSuper count selector)
  | .assign info target value => do
    expr ctx value
    store ctx target.info info.span
  | .ret info value => do
    expr ctx value
    mark ctx info.span.start
    emit .methodReturn

/-- Pushes the values of several expressions; if `dropping`, only the last one stays. -/
def exprs (ctx : GenerateContext) (dropping : Bool) : List Expr → GenerateM Unit
  | [] => return
  | e :: es => do
    expr ctx e
    if dropping && !es.isEmpty then emit .pop
    exprs ctx dropping es

end

/-- The code of all blocks of a method, from number `index` on, after those in `done`. -/
def collectBlocks (method : String) (index : Nat) (done : Array CompiledBlock) :
    List (Option CompiledBlock) → GenerateM (List CompiledBlock)
  | [] => return done.toList
  | some b :: rest => collectBlocks method (index + 1) (done.push b) rest
  | none :: _ => inconsistent (.blockWithoutCode index method)

/-- A method: its scope, what it does, and where it ends. -/
structure MethodSource where
  /-- Its scope. -/
  scope : ScopeId
  /-- Its statements, unless it is part of the machine. -/
  statements : Option (List Expr)
  /-- Where it ends. -/
  close : Position

/-- Generates the code of a method. -/
def method (ctx : GenerateContext) (source : MethodSource) : GenerateM CompiledBlock := do
  let scope := ctx.table.scope source.scope
  let (argumentCount, localCount) := ctx.table.frameSize source.scope
  let compiled : CompiledBlock := {
    name := scope.name
    classSide := scope.classSide
    qualifiedName := ctx.table.qualifiedName source.scope
    primitive := scope.primitive
    argumentCount := argumentCount }
  match source.statements with
  | none =>
    note (.primitiveMethod compiled.qualifiedName compiled.primitive)
    return compiled
  | some statements =>
    modify fun g => { g with code := #[], blocks := Array.replicate scope.blockCount none }
    exprs ctx true statements
    mark ctx source.close
    emit .pushSelf
    emit .methodReturn
    let code ← endBody #[]
    let blocks ← collectBlocks compiled.qualifiedName 0 #[] (← get).blocks.toList
    note (.methodCode compiled.qualifiedName code.length blocks.length)
    return { compiled with localCount := localCount, code := code, blocks := blocks }

/-- Generates the code of methods, after those in `done`. -/
def methods (ctx : GenerateContext) (done : Array CompiledBlock) :
    List MethodSource → GenerateM (List CompiledBlock)
  | [] => return done.toList
  | m :: ms => do
    let compiled ← method ctx m
    methods ctx (done.push compiled) ms

/-- Generates the code of a class. Every class has a literal table of its own. -/
def compiledClass (ctx : GenerateContext) (scope : ScopeId) (sources : List MethodSource) :
    GenerateM CompiledClass := do
  modify fun g => { g with literals := .empty, file := none }
  let methods ← methods ctx #[] sources
  let fields := (ctx.table.symbolsOf scope).filter (·.kind = .field)
  return {
    name := (ctx.table.scope scope).name
    superclass := (ctx.table.scope scope).superclass
    literals := (← get).literals.strings
    fields := fields.map (·.name)
    methods := methods }

/-- Generates the code of classes, after those in `done`. -/
def compiledClasses (ctx : GenerateContext) (done : Array CompiledClass) :
    List (ScopeId × List MethodSource) → GenerateM (List CompiledClass)
  | [] => return done.toList
  | (scope, sources) :: rest => do
    let compiled ← compiledClass ctx scope sources
    compiledClasses ctx (done.push compiled) rest

/-- A method of a class with its scope. -/
def sourceOfMethod (entry : MethodDef × ScopeId) : MethodSource :=
  ⟨entry.2, entry.1.body.code?.map (·.statements), entry.1.close.start⟩

/-- The classes of a unit with their scopes, that of the main program last. -/
def classSources (u : SourceUnit) (scopes : ScopeMap) : List (ScopeId × List MethodSource) :=
  let classes := (u.classes.zip scopes.classes).zip scopes.methods
  let ofClass (entry : (ClassDef × ScopeId) × List ScopeId) : ScopeId × List MethodSource :=
    (entry.1.2, (entry.1.1.methods.zip entry.2).map sourceOfMethod)
  let main := match scopes.main with
    | some (owner, method) => [(owner, [⟨method, some u.main.statements, u.finish.start⟩])]
    | none => []
  classes.map ofClass ++ main

end GenerateM

/-- Generates the code of a unit, and tells what happened. -/
def generateUnit (u : SourceUnit) (table : ScopeTable) (scopes : ScopeMap) (bindings : Bindings)
    (options : CompileOptions) : Except Diagnostic (List CompiledClass) × List LogEvent :=
  let ctx : GenerateContext := ⟨table, scopes.blocks, bindings, options⟩
  match GenerateM.compiledClasses ctx #[] (GenerateM.classSources u scopes) {} with
  | .ok classes g => (.ok classes, (g.log.push (.generated classes.length)).toList)
  | .error e g => (.error e, g.log.toList)

end Smalltalk
