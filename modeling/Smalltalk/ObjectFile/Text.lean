import Smalltalk.ObjectFile.Compiled
import Smalltalk.ObjectFile.Json

/-!
# Object files

A compiled class is stored as JSON text. Bytes of code are written as signed numbers; what is absent
is left out.
-/

namespace Smalltalk

/-- A byte as a signed number. -/
def signedByte (b : UInt8) : Int :=
  if b.toNat < 128 then b.toNat else b.toNat - 256

/-- A member that may be absent. -/
def optionalMember (key : String) : Option String → List (String × JsonValue)
  | none => []
  | some s => [(key, .string s)]

/-- A list of strings. -/
def stringList (strings : List String) : JsonValue := .list (strings.map .string)

namespace CompiledBlock

mutual

/-- A method or block as a JSON value. -/
def toJson : CompiledBlock → JsonValue
  | ⟨name, classSide, qualifiedName, primitive, argumentCount, localCount, code, blocks⟩ =>
    .object <|
      [("name", .string name), ("isClassMethod", .boolean classSide),
       ("qualifiedName", .string qualifiedName)]
      ++ optionalMember "primitiveName" primitive
      ++ [("nargs", .integer argumentCount), ("nlocals", .integer localCount),
          ("bytecode", .list (code.map fun b => .integer (signedByte b))),
          ("blocks", .list (toJsonAll blocks))]

/-- Several blocks as JSON values. -/
def toJsonAll : List CompiledBlock → List JsonValue
  | [] => []
  | b :: bs => b.toJson :: toJsonAll bs

end

end CompiledBlock

namespace CompiledClass

/-- A class as a JSON value. -/
def toJson (c : CompiledClass) : JsonValue :=
  .object <|
    [("name", .string c.name)]
    ++ optionalMember "superClassName" c.superclass
    ++ [("literals", stringList c.literals.toList), ("fields", stringList c.fields),
        ("methods", .list (CompiledBlock.toJsonAll c.methods))]

/-- The contents of the object file of a class. -/
def objectText (c : CompiledClass) : String :=
  String.ofList (c.toJson.pretty 0)

end CompiledClass

end Smalltalk
