import Mathlib
import Smalltalk.Compiler.Declaration
import Smalltalk.Compiler.Options
import Smalltalk.Proofs.Symbolic

/-!
# Direct translation

What compiled code should be, said by recursion over the source tree alone: no scopes, symbols,
bindings or literal tables. A name is searched in the variables of the bodies around it, from the
inside out, and then among the fields of its class and of the classes that it inherits from.

Blocks of a method are numbered in the order in which they begin. The functions below take the
number `k` of the first block that is still to come.
-/

namespace Smalltalk

/-! ## Classes -/

/-- The names that a list of declarations declares. -/
def namesOf (idents : List Ident) : List String := idents.map (·.name)

/-- The name of the class that a class extends. -/
def ClassDef.superclassName (c : ClassDef) : Option String := c.superclass.map (·.name)

/-- The main program as a class with a single method, unless it is empty. -/
def SourceUnit.mainClass? (u : SourceUnit) : Option ClassDef :=
  if u.main.isEmpty then none
  else some {
    name := ⟨mainClassName, {}⟩
    superclass := some ⟨mainSuperclassName, {}⟩
    methods := [{ selector := ⟨mainMethodName, {}⟩, body := .code u.main, close := u.finish }] }

/-- The classes of a unit, that of the main program last. -/
def SourceUnit.allClasses (u : SourceUnit) : List ClassDef := u.classes ++ u.mainClass?.toList

/-- What a class says about itself before its methods. -/
structure ClassHeader where
  /-- The name of the class. -/
  name : String
  /-- The name of the class that it extends. -/
  superclass : Option String
  /-- The fields that the class adds. -/
  fields : List String
  deriving DecidableEq

/-- The header of a class. -/
def ClassDef.header (c : ClassDef) : ClassHeader :=
  ⟨c.name.name, c.superclassName, namesOf c.fields⟩

/-- The classes of a list without those of a given name. -/
def without (classes : List ClassHeader) (name : String) : List ClassHeader :=
  classes.filter (·.name ≠ name)

theorem length_without_lt {classes : List ClassHeader} {name : String} {c : ClassHeader}
    (h : classes.find? (·.name = name) = some c) :
    (without classes name).length < classes.length := by
  have hmem := List.mem_of_find?_eq_some h
  have hname := List.find?_some h
  apply List.length_filter_lt_length_iff_exists.mpr
  exact ⟨c, hmem, by simpa using hname⟩

/-- The class of a given name and those that it inherits from, as far as they are in the list. No
class is visited twice. -/
def ancestry (classes : List ClassHeader) (name : Option String) : List ClassHeader :=
  match name with
  | none => []
  | some name =>
    match h : classes.find? (·.name = name) with
    | none => []
    | some c =>
      have := length_without_lt h
      c :: ancestry (without classes name) c.superclass
termination_by classes.length

/-- The fields of a class and of the classes that it inherits from, the nearest first. -/
def ClassHeader.layers (classes : List ClassHeader) (c : ClassHeader) : List (List String) :=
  (c :: ancestry (without classes c.name) c.superclass).map (·.fields)

/-- The fields of a class and of the classes that it inherits from, the nearest first. -/
def ClassDef.layers (classes : List ClassDef) (c : ClassDef) : List (List String) :=
  c.header.layers (classes.map ClassDef.header)

/-! ## Names -/

/-- What a name refers to. -/
inductive Reference where
  /-- A variable of a body so many levels out. -/
  | slot (depth index : Nat)
  /-- A field of the receiver. -/
  | field (index : Nat)
  /-- Something that the running program looks up. -/
  | global
  deriving DecidableEq, Inhabited

/-- The nearest frame with a given name: how far out it is, and the place of the name in it. -/
def findSlot : List (List String) → String → Option (Nat × Nat)
  | [], _ => none
  | frame :: frames, x =>
    match frame.idxOf? x with
    | some i => some (0, i)
    | none => (findSlot frames x).map fun (depth, i) => (depth + 1, i)

/-- How many fields several layers have. -/
def fieldTotal : List (List String) → Nat
  | [] => 0
  | layer :: layers => layer.length + fieldTotal layers

/-- The place of the field with a given name: the layers below come first in an instance. -/
def findField : List (List String) → String → Option Nat
  | [], _ => none
  | layer :: layers, x =>
    match layer.idxOf? x with
    | some i => some (fieldTotal layers + i)
    | none => findField layers x

/-- What surrounds an expression. -/
structure Surroundings where
  /-- The file name that position marks record, if positions are marked. -/
  file : Option String
  /-- The fields of the class and of those that it inherits from, the nearest first. -/
  layers : List (List String)
  /-- The selector of the method. -/
  method : String
  /-- The names of the class, the method and the blocks around, from the outside in. -/
  path : List String
  /-- The variables of the bodies around, from the inside out. -/
  frames : List (List String)

namespace Surroundings

/-- What a name refers to. -/
def refer (s : Surroundings) (x : String) : Reference :=
  match findSlot s.frames x with
  | some (depth, i) => .slot depth i
  | none =>
    match findField s.layers x with
    | some index => .field index
    | none => .global

/-- The name of a block. -/
def blockName (s : Surroundings) (k : Nat) : String := s.method ++ "-block" ++ toString k

/-- The surroundings inside a block with given variables. -/
def enter (s : Surroundings) (k : Nat) (names : List String) : Surroundings :=
  { s with path := s.path ++ [s.blockName k], frames := names :: s.frames }

end Surroundings

/-! ## Expressions -/

/-- The push of a value. -/
def Atom.push : Atom → SymbolicInstruction
  | integer value => .pushInt value
  | float bits => .pushFloat bits
  | character c => .pushChar c.toNat
  | string s => .pushString s
  | nilObject => .pushNil
  | trueObject => .pushTrue
  | falseObject => .pushFalse
  | receiver => .pushSelf

/-- The push of what the name `x` refers to. -/
def Reference.push (x : String) : Reference → SymbolicInstruction
  | .slot depth i => .pushLocal depth i
  | .field index => .pushField index
  | .global => .pushGlobal x

/-- The assignment to what a name refers to; there is none for globals. -/
def Reference.store : Reference → List SymbolicInstruction
  | .slot depth i => [.storeLocal depth i]
  | .field index => [.storeField index]
  | .global => []

/-- The file name that position marks record, if positions are marked. -/
def CompileOptions.markedFile (options : CompileOptions) : Option String :=
  if options.debugInfo then some options.fileName else none

/-- A position mark, if positions are marked. Columns count from zero there. -/
def markAt (file : Option String) (p : Position) : List SymbolicInstruction :=
  match file with
  | some name => [.mark name p.line (p.column - 1)]
  | none => []

namespace Expr

mutual

/-- How many blocks there are in an expression, at any depth. -/
@[simp] def blockCount : Expr → Nat
  | atom _ _ | name _ _ => 0
  | array _ items => blockCountOfAll items
  | block _ _ _ statements _ => 1 + blockCountOfAll statements
  | send _ receiver _ arguments => receiver.blockCount + blockCountOfAll arguments
  | superSend _ _ arguments => blockCountOfAll arguments
  | assign _ target value => target.blockCount + value.blockCount
  | ret _ value => value.blockCount

/-- How many blocks there are in several expressions. -/
@[simp] def blockCountOfAll : List Expr → Nat
  | [] => 0
  | e :: es => e.blockCount + blockCountOfAll es

end

/-- The assignment of the value on the stack to a variable. -/
def storeInto (s : Surroundings) : Expr → List SymbolicInstruction
  | name _ x => (s.refer x).store
  | _ => []

mutual

/-- The code that pushes the value of an expression. -/
@[simp] def translate (s : Surroundings) (k : Nat) : Expr → List SymbolicInstruction
  | atom _ value => [value.push]
  | name _ x => [(s.refer x).push x]
  | array _ items => translateAll s k items ++ [.pushArray items.length]
  | block _ _ _ _ _ => [.block k]
  | send _ receiver selector arguments =>
    receiver.translate s k ++ translateAll s (k + receiver.blockCount) arguments
      ++ [.send arguments.length selector.text]
  | superSend _ selector arguments =>
    .pushSelf :: translateAll s k arguments ++ [.sendSuper arguments.length selector.name]
  | assign _ target value =>
    value.translate s (k + target.blockCount) ++ target.storeInto s
  | ret info value => value.translate s k ++ markAt s.file info.span.start ++ [.methodReturn]

/-- The code that pushes the values of several expressions. -/
@[simp] def translateAll (s : Surroundings) (k : Nat) : List Expr → List SymbolicInstruction
  | [] => []
  | e :: es => e.translate s k ++ translateAll s (k + e.blockCount) es

end

/-- The code of statements: each drops the value of the one before. -/
@[simp] def translateStatements (s : Surroundings) (k : Nat) : List Expr → List SymbolicInstruction
  | [] => []
  | [e] => e.translate s k
  | e :: es => e.translate s k ++ .pop :: translateStatements s (k + e.blockCount) es

theorem translateStatements_cons_cons (s : Surroundings) (k : Nat) (e f : Expr) (es : List Expr) :
    translateStatements s k (e :: f :: es)
      = e.translate s k ++ [.pop] ++ translateStatements s (k + e.blockCount) (f :: es) := by
  simp [translateStatements]

mutual

/-- The blocks in an expression, by number from `k` on. -/
@[simp] def blocks (s : Surroundings) (k : Nat) : Expr → List SymbolicBlock
  | atom _ _ | name _ _ => []
  | array _ items => blocksOfAll s k items
  | block _ params locals statements close =>
    let inner := s.enter k (namesOf params ++ namesOf locals)
    { name := s.blockName k
      qualifiedName := String.intercalate ">>" inner.path
      argumentCount := params.length
      localCount := locals.length
      code := translateStatements inner (k + 1) statements
        ++ markAt s.file close.start ++ [.blockReturn] }
      :: blocksOfAll inner (k + 1) statements
  | send _ receiver _ arguments =>
    receiver.blocks s k ++ blocksOfAll s (k + receiver.blockCount) arguments
  | superSend _ _ arguments => blocksOfAll s k arguments
  | assign _ target value => target.blocks s k ++ value.blocks s (k + target.blockCount)
  | ret _ value => value.blocks s k

/-- The blocks in several expressions, by number from `k` on. -/
@[simp] def blocksOfAll (s : Surroundings) (k : Nat) : List Expr → List SymbolicBlock
  | [] => []
  | e :: es => e.blocks s k ++ blocksOfAll s (k + e.blockCount) es

end

end Expr

/-! ## Definitions -/

/-- What surrounds the statements of a method with given locals. -/
def MethodDef.surroundings (file : Option String) (layers : List (List String)) (owner : String)
    (m : MethodDef) (locals : List Ident) : Surroundings :=
  ⟨file, layers, m.selector.name, [owner, m.selector.name], [namesOf m.params ++ namesOf locals]⟩

/-- A method of the class `owner`, whose fields and inherited fields are `layers`. -/
def MethodDef.translate (file : Option String) (layers : List (List String)) (owner : String)
    (m : MethodDef) : SymbolicBlock :=
  let path := [owner, m.selector.name]
  match m.body with
  | .primitive name =>
    { name := m.selector.name
      classSide := m.classSide
      qualifiedName := String.intercalate ">>" path
      primitive := some name.name
      argumentCount := m.params.length }
  | .code body =>
    let s := m.surroundings file layers owner body.locals
    { name := m.selector.name
      classSide := m.classSide
      qualifiedName := String.intercalate ">>" path
      argumentCount := m.params.length
      localCount := body.locals.length
      code := Expr.translateStatements s 0 body.statements
        ++ markAt file m.close.start ++ [.pushSelf, .methodReturn]
      blocks := Expr.blocksOfAll s 0 body.statements }

/-- A class among the classes of its unit. -/
def ClassDef.translate (file : Option String) (classes : List ClassDef) (c : ClassDef) :
    SymbolicClass :=
  { name := c.name.name
    superclass := c.superclassName
    fields := namesOf c.fields
    methods := c.methods.map (MethodDef.translate file (c.layers classes) c.name.name) }

/-- A unit, with position marks for the given file if there is one. -/
def SourceUnit.translate (u : SourceUnit) (file : Option String) : List SymbolicClass :=
  u.allClasses.map (ClassDef.translate file u.allClasses)

end Smalltalk
