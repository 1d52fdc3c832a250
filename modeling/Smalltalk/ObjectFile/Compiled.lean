import Smalltalk.Bytecode.Encoding

/-!
# Compiled classes

What the machine loads: for every class its name, the strings that its code refers to, its own
fields, and the code of its methods. All blocks of a method are kept with the method, by number.
-/

namespace Smalltalk

/-- The code of a method or a block. -/
structure CompiledBlock where
  /-- The selector of a method; blocks have names derived from it. -/
  name : String
  /-- Whether the class itself answers, and not its instances. -/
  classSide : Bool := false
  /-- The names of everything around it, and its own. -/
  qualifiedName : String := ""
  /-- For a method that is part of the machine, its name there. -/
  primitive : Option String := none
  /-- How many arguments there are. -/
  argumentCount : Nat := 0
  /-- How many locals there are. -/
  localCount : Nat := 0
  /-- The encoded instructions. -/
  code : List UInt8 := []
  /-- For a method, all blocks in it. -/
  blocks : List CompiledBlock := []
  deriving Inhabited

/-- The code of a class. -/
structure CompiledClass where
  /-- The name of the class. -/
  name : String
  /-- The name of the class that it extends. -/
  superclass : Option String := none
  /-- The strings that the code refers to, by number. -/
  literals : Array String := #[]
  /-- The fields that the class adds. -/
  fields : List String := []
  /-- Its methods. -/
  methods : List CompiledBlock := []
  deriving Inhabited

namespace CompiledBlock

/-- Whether the machine has the code. -/
def isPrimitive (b : CompiledBlock) : Bool := b.primitive.isSome

end CompiledBlock

namespace CompiledClass

/-- The first method with a given selector. -/
def method? (c : CompiledClass) (name : String) : Option CompiledBlock :=
  c.methods.find? (·.name == name)

end CompiledClass

end Smalltalk
