import Smalltalk.Bytecode.Opcode
import Smalltalk.Number.Shortest
import Smalltalk.Text.Escaped

/-!
# Instructions

An instruction is an opcode with its operands. Operands that name a string are indices into the
literal table of the class that the code belongs to.
-/

namespace Smalltalk.Bytecode

open Smalltalk.Number Smalltalk.Text

/-- An instruction of the stack machine. -/
inductive Instruction where
  /-- Push `nil`. -/
  | pushNil
  /-- Push the receiver. -/
  | pushSelf
  /-- Push `true`. -/
  | pushTrue
  /-- Push `false`. -/
  | pushFalse
  /-- Push the character with this 16-bit code. -/
  | pushChar (code : UInt16)
  /-- Push an integer. -/
  | pushInt (value : Int32)
  /-- Push the floating-point number with these bits. -/
  | pushFloat (bits : UInt32)
  /-- Push a field of the receiver. -/
  | pushField (index : UInt16)
  /-- Push the slot of the activation `depth` levels out. -/
  | pushLocal (depth slot : UInt16)
  /-- Push a string of the literal table. -/
  | pushLiteral (literal : UInt16)
  /-- Push the global that a literal names. -/
  | pushGlobal (literal : UInt16)
  /-- Pop `count` values and push an array of them. -/
  | pushArray (count : UInt16)
  /-- Store the top of the stack into a field of the receiver. -/
  | storeField (index : UInt16)
  /-- Store the top of the stack into a slot of the activation `depth` levels out. -/
  | storeLocal (depth slot : UInt16)
  /-- Drop the top of the stack. -/
  | pop
  /-- Send the message that a literal names, with `count` arguments. -/
  | send (count selector : UInt16)
  /-- The same, looking for the method from the superclass on. -/
  | sendSuper (count selector : UInt16)
  /-- Push a closure of a block of the home method. -/
  | block (index : UInt16)
  /-- Return the top of the stack from a block. -/
  | blockReturn
  /-- Return the top of the stack from the home method. -/
  | methodReturn
  /-- Note a source position; columns count from zero here. -/
  | mark (file line column : UInt16)
  deriving DecidableEq, Inhabited

namespace Instruction

/-- What the instruction does, without its operands. -/
def opcode : Instruction → Opcode
  | pushNil => .pushNil
  | pushSelf => .pushSelf
  | pushTrue => .pushTrue
  | pushFalse => .pushFalse
  | pushChar _ => .pushChar
  | pushInt _ => .pushInt
  | pushFloat _ => .pushFloat
  | pushField _ => .pushField
  | pushLocal _ _ => .pushLocal
  | pushLiteral _ => .pushLiteral
  | pushGlobal _ => .pushGlobal
  | pushArray _ => .pushArray
  | storeField _ => .storeField
  | storeLocal _ _ => .storeLocal
  | pop => .pop
  | send _ _ => .send
  | sendSuper _ _ => .sendSuper
  | block _ => .block
  | blockReturn => .blockReturn
  | methodReturn => .methodReturn
  | mark _ _ _ => .mark

/-- The literal that the instruction refers to. -/
def literal? : Instruction → Option UInt16
  | pushLiteral literal | pushGlobal literal => some literal
  | send _ selector | sendSuper _ selector => some selector
  | mark file _ _ => some file
  | _ => none

/-- Numbers from `0.0001` up to `1e16` are listed positionally. -/
def floatStyle : FloatStyle := ⟨⟨1, -4⟩, ⟨1, 16⟩⟩

/-- A character is listed between quotes, unless it is a control character or half of a pair of
surrogates: then its code is. -/
def charText (code : UInt16) : String :=
  if h : code.toNat.isValidChar then
    let c := Char.ofNatAux code.toNat h
    if isControl c then toString code.toNat else String.ofList ['\'', c, '\'']
  else toString code.toNat

/-- The mnemonic, with blanks after it up to the column where operands start. -/
def column (op : Opcode) : String :=
  op.mnemonic ++ String.ofList (List.replicate (15 - op.mnemonic.length) ' ')

/-- An instruction in a listing; `literal` writes the literal with a given index. -/
def textWith (literal : UInt16 → String) (i : Instruction) : String :=
  match i with
  | pushNil | pushSelf | pushTrue | pushFalse | pop | blockReturn | methodReturn =>
    i.opcode.mnemonic
  | pushChar code => column i.opcode ++ charText code
  | pushInt value => column i.opcode ++ toString value.toInt
  | pushFloat bits => column i.opcode ++ floatStyle.single bits
  | pushField n | storeField n | block n | pushArray n => column i.opcode ++ toString n.toNat
  | pushLiteral l | pushGlobal l => column i.opcode ++ literal l
  | pushLocal depth slot | storeLocal depth slot =>
    column i.opcode ++ toString depth.toNat ++ ", " ++ toString slot.toNat
  | send count selector | sendSuper count selector =>
    column i.opcode ++ toString count.toNat ++ ", " ++ literal selector
  | mark file line col =>
    column i.opcode ++ literal file ++ ", " ++ toString line.toNat ++ ":" ++ toString col.toNat

/-- An index into a literal table that is not at hand. -/
def indexText (index : UInt16) : String := "#" ++ toString index.toNat

/-- An instruction in a listing, with literals as bare indices. -/
def text : Instruction → String := textWith indexText

end Instruction

end Smalltalk.Bytecode
