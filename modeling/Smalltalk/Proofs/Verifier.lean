import Mathlib
import Smalltalk.Proofs.Translation

/-!
# Verified code

What a machine relies on when it loads a class: code decodes to its end, operands are in range, and no
instruction takes more values from the stack than are there. A machine that checks this once, when it
loads a class, need not check anything while the code runs.

Blocks are numbered within their home method. The body around a block is the one whose code makes the
block.
-/

namespace Smalltalk

open Bytecode

/-! ## Instructions -/

namespace Bytecode.Instruction

/-- How many values an instruction takes from the stack, and how many it puts there. A value that has to
be there and stays is taken and put back. -/
def stackEffect : Instruction → Nat × Nat
  | pop => (1, 0)
  | storeField _ | storeLocal _ _ | methodReturn => (1, 1)
  | send count _ | sendSuper count _ => (count.toNat + 1, 1)
  | pushArray count => (count.toNat, 1)
  | blockReturn | mark _ _ _ => (0, 0)
  | _ => (0, 1)

end Bytecode.Instruction

/-- How many values are on the stack after some effects, starting with `depth` values; none if there
are too few of them at some point. -/
def depthAfter : List (Nat × Nat) → Nat → Option Nat
  | [], depth => some depth
  | (takes, puts) :: effects, depth =>
    if takes ≤ depth then depthAfter effects (depth - takes + puts) else none

/-! ## Bodies -/

namespace CompiledBlock

/-- The instructions of a method or a block. -/
def instructions (b : CompiledBlock) : List Instruction := (decode b.code).instructions

/-- How many variables a method or a block has. -/
def frameSize (b : CompiledBlock) : Nat := b.argumentCount + b.localCount

/-- A body of the method `m`, with the sizes of the frames that its code can reach, its own first. -/
inductive Reaches (m : CompiledBlock) : CompiledBlock → List Nat → Prop where
  | method : Reaches m m [m.frameSize]
  | block {outer b : CompiledBlock} {frames : List Nat} {i : UInt16} :
    Reaches m outer frames → .block i ∈ outer.instructions → m.blocks[i.toNat]? = some b →
    Reaches m b (b.frameSize :: frames)

end CompiledBlock

/-- How much there is of what operands can refer to. -/
structure OperandLimits where
  /-- How many literals the class has. -/
  literals : Nat
  /-- How many fields an instance of the class has. -/
  fields : Nat
  /-- How many blocks the home method has. -/
  blocks : Nat

/-- The operands of some instructions are in range. -/
structure OperandsVerified (limits : OperandLimits) (frames : List Nat) (code : List Instruction) :
    Prop where
  literal_lt : ∀ i ∈ code, ∀ literal, i.literal? = some literal → literal.toNat < limits.literals
  block_lt : ∀ index, .block index ∈ code → index.toNat < limits.blocks
  slot_lt : ∀ depth slot, .pushLocal depth slot ∈ code ∨ .storeLocal depth slot ∈ code →
    ∃ size, frames[depth.toNat]? = some size ∧ slot.toNat < size
  field_lt : ∀ index, .pushField index ∈ code ∨ .storeField index ∈ code →
    index.toNat < limits.fields

/-- The code of a method never takes more from the stack than is there, and ends by returning. -/
def MethodStackVerified (code : List Instruction) : Prop :=
  .blockReturn ∉ code ∧ code.getLast? = some .methodReturn ∧
    (depthAfter (code.map Instruction.stackEffect) 0).isSome

/-- The code of a block never takes more from the stack than is there, and ends by returning the only
value that is left. A block without statements returns at once, and there is no value. -/
def BlockStackVerified (code : List Instruction) : Prop :=
  ∃ front, code = front ++ [.blockReturn] ∧ .blockReturn ∉ front ∧
    depthAfter (front.map Instruction.stackEffect) 0
      = some (if ∀ i ∈ front, i.opcode = .mark then 0 else 1)

/-- A method with code, and all blocks in it, can be run. -/
structure MethodVerified (literals fields : Nat) (m : CompiledBlock) : Prop where
  /-- Every block is part of the method, and has no blocks of its own. -/
  reached : ∀ b ∈ m.blocks, b.blocks = [] ∧ ∃ frames, m.Reaches b frames
  decoded : ∀ b frames, m.Reaches b frames → (decode b.code).failure? = none
  operands : ∀ b frames, m.Reaches b frames →
    OperandsVerified ⟨literals, fields, m.blocks.length⟩ frames b.instructions
  stack : MethodStackVerified m.instructions
  blockStack : ∀ b ∈ m.blocks, BlockStackVerified b.instructions

/-! ## Classes -/

/-- The header of a compiled class. -/
def CompiledClass.header (c : CompiledClass) : ClassHeader := ⟨c.name, c.superclass, c.fields⟩

/-- How many fields an instance of a compiled class has, inherited and own ones. -/
def CompiledClass.fieldTotal (classes : List CompiledClass) (c : CompiledClass) : Nat :=
  Smalltalk.fieldTotal (c.header.layers (classes.map CompiledClass.header))

/-- A compiled class among the classes of its unit can be run. Methods that are part of the machine have
nothing to verify. -/
structure ClassVerified (classes : List CompiledClass) (c : CompiledClass) : Prop where
  primitives : ∀ m ∈ c.methods, m.isPrimitive → m.code = [] ∧ m.blocks = []
  methods : ∀ m ∈ c.methods, m.isPrimitive = false →
    MethodVerified c.literals.size (c.fieldTotal classes) m

end Smalltalk
