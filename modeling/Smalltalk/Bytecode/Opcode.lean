/-!
# Opcodes

Every instruction of the stack machine starts with one byte that says what it does. Its operands
follow as 16-bit words, and the opcode alone determines how many there are. The numbering is fixed
by the machine.
-/

namespace Smalltalk.Bytecode

/-- What an instruction does. -/
inductive Opcode where
  /-- Push `nil`. -/
  | pushNil
  /-- Push the receiver. -/
  | pushSelf
  /-- Push `true`. -/
  | pushTrue
  /-- Push `false`. -/
  | pushFalse
  /-- Push a character. -/
  | pushChar
  /-- Push an integer. -/
  | pushInt
  /-- Push a floating-point number. -/
  | pushFloat
  /-- Push a field of the receiver. -/
  | pushField
  /-- Push an argument or local of this or an enclosing activation. -/
  | pushLocal
  /-- Push a string of the literal table. -/
  | pushLiteral
  /-- Push the global that a literal names. -/
  | pushGlobal
  /-- Pop some values and push an array of them. -/
  | pushArray
  /-- Store the top of the stack into a field of the receiver. -/
  | storeField
  /-- Store the top of the stack into an argument or local. -/
  | storeLocal
  /-- Drop the top of the stack. -/
  | pop
  /-- Send a message to the receiver below the arguments. -/
  | send
  /-- Send a message, looking for its method from the superclass on. -/
  | sendSuper
  /-- Push a closure of a block of the home method. -/
  | block
  /-- Return the top of the stack from a block. -/
  | blockReturn
  /-- Return the top of the stack from the home method. -/
  | methodReturn
  /-- Note a source position. -/
  | mark
  deriving DecidableEq, Inhabited

namespace Opcode

/-- All opcodes in the order of their bytes, which count from one. -/
def all : List Opcode :=
  [pushNil, pushSelf, pushTrue, pushFalse, pushChar, pushInt, pushFloat, pushField, pushLocal,
   pushLiteral, pushGlobal, pushArray, storeField, storeLocal, pop, send, sendSuper, block,
   blockReturn, methodReturn, mark]

/-- The byte that stands for an opcode. -/
def byte : Opcode → UInt8
  | pushNil => 1
  | pushSelf => 2
  | pushTrue => 3
  | pushFalse => 4
  | pushChar => 5
  | pushInt => 6
  | pushFloat => 7
  | pushField => 8
  | pushLocal => 9
  | pushLiteral => 10
  | pushGlobal => 11
  | pushArray => 12
  | storeField => 13
  | storeLocal => 14
  | pop => 15
  | send => 16
  | sendSuper => 17
  | block => 18
  | blockReturn => 19
  | methodReturn => 20
  | mark => 21

/-- The opcode that a byte stands for. -/
def ofByte? (b : UInt8) : Option Opcode :=
  if b = 0 then none else all[b.toNat - 1]?

/-- The name of an opcode in listings. -/
def mnemonic : Opcode → String
  | pushNil => "nil"
  | pushSelf => "self"
  | pushTrue => "true"
  | pushFalse => "false"
  | pushChar => "push_char"
  | pushInt => "push_int"
  | pushFloat => "push_float"
  | pushField => "push_field"
  | pushLocal => "push_local"
  | pushLiteral => "push_literal"
  | pushGlobal => "push_global"
  | pushArray => "push_array"
  | storeField => "store_field"
  | storeLocal => "store_local"
  | pop => "pop"
  | send => "send"
  | sendSuper => "send_super"
  | block => "block"
  | blockReturn => "block_return"
  | methodReturn => "return"
  | mark => "dbg"

/-- How many 16-bit operand words follow. -/
def operandWords : Opcode → Nat
  | pushNil | pushSelf | pushTrue | pushFalse | pop | blockReturn | methodReturn => 0
  | pushChar | pushField | pushLiteral | pushGlobal | pushArray | storeField | block => 1
  | pushInt | pushFloat | pushLocal | storeLocal | send | sendSuper => 2
  | mark => 3

/-- How many operand bytes follow. -/
def operandBytes (op : Opcode) : Nat := 2 * op.operandWords

/-- How many bytes an instruction with this opcode takes. -/
def size (op : Opcode) : Nat := 1 + op.operandBytes

theorem ofByte?_byte (op : Opcode) : ofByte? op.byte = some op := by
  cases op <;> rfl

end Opcode

end Smalltalk.Bytecode
