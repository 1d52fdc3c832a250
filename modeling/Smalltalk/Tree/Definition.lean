import Smalltalk.Tree.Expr

/-!
# Definitions

A source unit defines classes and ends with a main program. Methods, blocks and the main program
have bodies: local variables and statements.
-/

namespace Smalltalk

/-- Local variables, and statements that use them. -/
structure Body where
  /-- The local variables. -/
  locals : List Ident := []
  /-- The statements. -/
  statements : List Expr := []
  deriving Inhabited

/-- Whether there is nothing in a body. -/
def Body.isEmpty (b : Body) : Bool := b.locals.isEmpty && b.statements.isEmpty

/-- What a method does. -/
inductive MethodBody where
  /-- It runs statements. -/
  | code (body : Body)
  /-- It is part of the machine, which knows it by this name. -/
  | primitive (name : Ident)
  deriving Inhabited

/-- The statements of a method, if it has any of its own. -/
def MethodBody.code? : MethodBody → Option Body
  | code body => some body
  | primitive _ => none

/-- A method. -/
structure MethodDef where
  /-- The selector of the messages that the method answers. -/
  selector : Ident
  /-- Names for the arguments. -/
  params : List Ident := []
  /-- Whether the class itself answers, and not its instances. -/
  classSide : Bool := false
  /-- What the method does. -/
  body : MethodBody
  /-- The whole definition. -/
  span : Span := {}
  /-- The mark that closes the definition. -/
  close : Span := {}
  deriving Inhabited

/-- A class. -/
structure ClassDef where
  /-- The name of the class. -/
  name : Ident
  /-- The class that it extends; a root class extends none. -/
  superclass : Option Ident := none
  /-- The fields that it adds. -/
  fields : List Ident := []
  /-- Its methods. -/
  methods : List MethodDef := []
  /-- The whole definition. -/
  span : Span := {}
  deriving Inhabited

/-- Everything in one source text. -/
structure SourceUnit where
  /-- The classes, in the order of the text. -/
  classes : List ClassDef := []
  /-- The statements after the last class. -/
  main : Body := {}
  /-- The end of the text. -/
  finish : Span := {}
  /-- How many nodes have been numbered. -/
  nodeCount : Nat := 0
  deriving Inhabited

namespace SourceUnit

/-- The bodies of all methods, class by class, and the main program. -/
def bodies (u : SourceUnit) : List Body :=
  u.classes.flatMap (fun c => c.methods.filterMap (·.body.code?)) ++ [u.main]

/-- All nodes of a unit. -/
def nodes (u : SourceUnit) : List Expr :=
  u.bodies.flatMap fun b => Expr.nodesOfAll b.statements

end SourceUnit

end Smalltalk
