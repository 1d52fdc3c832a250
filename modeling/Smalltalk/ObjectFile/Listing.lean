import Smalltalk.ObjectFile.Compiled

/-!
# Listings

A compiled class as text for people: a heading, then every method with a line for each of its
instructions, and its blocks after it, further to the right. Literals are written out.
-/

namespace Smalltalk

open Bytecode

/-- A literal between quotes; its number if there is none. -/
def literalText (literals : Array String) (index : UInt16) : String :=
  match literals[index.toNat]? with
  | some s => "'" ++ s ++ "'"
  | none => Instruction.indexText index

/-- An offset with at least four digits. -/
def offsetText (offset : Nat) : String :=
  let digits := Nat.toDigits 10 offset
  String.ofList (List.replicate (4 - digits.length) '0' ++ digits)

/-- The lines for a byte string: one for each instruction, and one for what is no instruction. -/
def codeLines (literals : Array String) (code : List UInt8) : List String :=
  let decoded := decode code
  let line (entry : Nat × Instruction) : String :=
    offsetText entry.1 ++ ":  " ++ entry.2.textWith (literalText literals)
  let failure (e : DecodeError) : String :=
    offsetText (codeSize decoded.instructions) ++ ":  <" ++ e.message ++ ">"
  (located 0 decoded.instructions).map line ++ (decoded.failure?.map failure).toList

/-- A line, so many levels to the right. -/
def indented (depth : Nat) (line : String) : String :=
  String.ofList (List.replicate (4 * depth) ' ') ++ line ++ "\n"

namespace CompiledBlock

/-- The lines for a method or block itself. -/
def ownLines (literals : Array String) (b : CompiledBlock) : List String :=
  ["name: " ++ (if b.classSide then "static " else "") ++ b.name,
   "qualifiedName: " ++ b.qualifiedName,
   "nargs: " ++ toString b.argumentCount,
   "nlocals: " ++ toString b.localCount]
  ++ codeLines literals b.code
  ++ (if b.blocks.isEmpty then [] else ["blocks:"])

mutual

/-- The listing of a method or block, with its blocks, so many levels to the right. -/
def listing (literals : Array String) (depth : Nat) : CompiledBlock → String
  | b@⟨_, _, _, _, _, _, _, blocks⟩ =>
    String.join ((b.ownLines literals).map (indented depth))
      ++ listingOfAll literals (depth + 1) blocks

/-- The listings of several blocks. -/
def listingOfAll (literals : Array String) (depth : Nat) : List CompiledBlock → String
  | [] => ""
  | b :: bs => b.listing literals depth ++ listingOfAll literals depth bs

end

end CompiledBlock

namespace CompiledClass

/-- The lines for a class itself. A class that extends the usual root names none. -/
def headLines (c : CompiledClass) : List String :=
  let superclass := match c.superclass with
    | none => ""
    | some name => if name = "Object" then "" else name
  ["name: " ++ c.name,
   "superClass: " ++ superclass,
   "fields: " ++ String.intercalate "," c.fields,
   "literals: " ++ String.intercalate "," (c.literals.toList.map fun s => "'" ++ s ++ "'"),
   "methods:"]

/-- The listing of a class. -/
def listing (c : CompiledClass) : String :=
  String.join (c.headLines.map (indented 0)) ++ CompiledBlock.listingOfAll c.literals 1 c.methods

end CompiledClass

end Smalltalk
