import Smalltalk.Compiler.Generation
import Smalltalk.Reader.Unit

/-!
# Compiling

A compilation reads a unit, declares its names, binds them and generates code. Syntax errors end it
at once. What the second and third step report is put together, and code is only generated if that
is nothing.
-/

namespace Smalltalk

/-- The outcome of a compilation. -/
structure Compilation where
  /-- The compiled classes, or what was wrong. -/
  result : Except (List Diagnostic) (List CompiledClass)
  /-- What happened. -/
  log : List LogEvent

/-- Compiles a unit. -/
def SourceUnit.compile (u : SourceUnit) (options : CompileOptions) : Compilation :=
  let declared := declareUnit u
  let scopes := declared.scopes
  let classCount := scopes.classes.length + (if scopes.main.isSome then 1 else 0)
  let resolution := resolveUnit u declared.table scopes options
  let log :=
    [LogEvent.declared classCount declared.table.scopeCount scopes.blocks.size,
     LogEvent.declarationErrors declared.errors.length]
    ++ resolution.log.toList
    ++ [LogEvent.resolutionErrors resolution.errors.size]
  match declared.errors ++ resolution.errors.toList with
  | [] =>
    let (result, generated) := generateUnit u declared.table scopes resolution.bindings options
    ⟨result.mapError fun e => [e], log ++ generated⟩
  | errors => ⟨.error errors, log⟩

/-- Compiles a source text. -/
def compileSource (source : String) (options : CompileOptions) : Compilation :=
  match SourceUnit.ofSource source with
  | .ok u => u.compile options
  | .error errors => ⟨.error (errors.map .unreadable), []⟩

end Smalltalk
