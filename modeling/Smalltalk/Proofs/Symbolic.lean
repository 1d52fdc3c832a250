import Mathlib
import Smalltalk.LiteralTable
import Smalltalk.ObjectFile.Compiled
import Smalltalk.Scope.Basic
import Smalltalk.Proofs.Encoding

/-!
# Symbolic code

Code as it is meant, before it is squeezed into bytes: operands are numbers of any size, and strings
stand where encoded code has indices into the literal table of its class. Compiled code is read back
into this form by decoding it and looking up its literals.
-/

namespace Smalltalk

open Bytecode

/-- An instruction with unbounded operands, and with strings in the place of literals. -/
inductive SymbolicInstruction where
  | pushNil
  | pushSelf
  | pushTrue
  | pushFalse
  | pushChar (code : Nat)
  | pushInt (value : Int32)
  | pushFloat (bits : UInt32)
  | pushField (index : Nat)
  | pushLocal (depth slot : Nat)
  | pushString (value : String)
  | pushGlobal (name : String)
  | pushArray (count : Nat)
  | storeField (index : Nat)
  | storeLocal (depth slot : Nat)
  | pop
  | send (count : Nat) (selector : String)
  | sendSuper (count : Nat) (selector : String)
  | block (index : Nat)
  | blockReturn
  | methodReturn
  | mark (file : String) (line column : Nat)
  deriving DecidableEq, Inhabited

namespace SymbolicInstruction

/-- The string that an instruction refers to. -/
def string? : SymbolicInstruction → Option String
  | pushString s | pushGlobal s | send _ s | sendSuper _ s | mark s _ _ => some s
  | _ => none

/-- Whether an instruction marks a source position. -/
def isMark : SymbolicInstruction → Bool
  | mark _ _ _ => true
  | _ => false

/-- The counts, field numbers and positions that an instruction mentions. -/
def numbers : SymbolicInstruction → List Nat
  | pushField n | storeField n | pushArray n | send n _ | sendSuper n _ => [n]
  | mark _ line column => [line, column]
  | _ => []

/-- Whether the counts, field numbers and positions that an instruction mentions have 16 bits. -/
def Fits (i : SymbolicInstruction) : Prop := ∀ n ∈ i.numbers, n ≤ counterLimit

instance (i : SymbolicInstruction) : Decidable i.Fits :=
  inferInstanceAs (Decidable (∀ n ∈ i.numbers, n ≤ counterLimit))

end SymbolicInstruction

/-- A method or a block with symbolic code. -/
structure SymbolicBlock where
  /-- The selector of a method, or the name of a block. -/
  name : String
  /-- Whether the class itself answers, and not its instances. -/
  classSide : Bool := false
  /-- The names of everything around it, and its own. -/
  qualifiedName : String
  /-- For a method that is part of the machine, its name there. -/
  primitive : Option String := none
  /-- How many arguments there are. -/
  argumentCount : Nat
  /-- How many locals there are. -/
  localCount : Nat := 0
  /-- The instructions. -/
  code : List SymbolicInstruction := []
  /-- For a method, all blocks in it. -/
  blocks : List SymbolicBlock := []
  deriving Inhabited

/-- A class with symbolic code. -/
structure SymbolicClass where
  /-- The name of the class. -/
  name : String
  /-- The name of the class that it extends. -/
  superclass : Option String
  /-- The fields that the class adds. -/
  fields : List String
  /-- Its methods. -/
  methods : List SymbolicBlock
  deriving Inhabited

/-! ## What the machine can hold -/

/-- The most strings that a class can have. -/
def stringLimit : Nat := counterLimit + 1

/-- The instructions of a method and of all blocks in it. -/
def SymbolicBlock.instructions (b : SymbolicBlock) : List SymbolicInstruction :=
  b.code ++ b.blocks.flatMap (·.code)

namespace SymbolicClass

/-- All instructions of a class. -/
def instructions (c : SymbolicClass) : List SymbolicInstruction :=
  c.methods.flatMap SymbolicBlock.instructions

/-- All strings that the code of a class refers to. -/
def strings (c : SymbolicClass) : List String := c.instructions.filterMap (·.string?)

/-- Whether a class fits into the machine: its counts, field numbers and positions have 16 bits, and
so have the numbers of its strings. -/
structure Fits (c : SymbolicClass) : Prop where
  instructions_fit : ∀ i ∈ c.instructions, i.Fits
  strings_le : c.strings.dedup.length ≤ stringLimit

end SymbolicClass

/-! ## Reading compiled code -/

theorem mapM_eq_some_iff {α β : Type} {f : α → Option β} {l : List α} {l' : List β} :
    l.mapM f = some l' ↔ List.Forall₂ (fun a b => f a = some b) l l' := by
  induction l generalizing l' with
  | nil =>
    rw [List.mapM_nil, List.forall₂_nil_left_iff]
    exact Option.some_inj.trans eq_comm
  | cons a l ih =>
    rw [List.mapM_cons]
    constructor
    · intro h
      obtain ⟨b, hb, h⟩ := Option.bind_eq_some_iff.mp h
      obtain ⟨bs, hbs, h⟩ := Option.bind_eq_some_iff.mp h
      cases h
      exact .cons hb (ih.mp hbs)
    · rintro (_ | ⟨hb, hbs⟩)
      rw [hb, ih.mpr hbs]
      rfl

/-- An instruction with its literal looked up. -/
def Bytecode.Instruction.symbolic? (literals : Array String) :
    Instruction → Option SymbolicInstruction
  | .pushNil => some .pushNil
  | .pushSelf => some .pushSelf
  | .pushTrue => some .pushTrue
  | .pushFalse => some .pushFalse
  | .pushChar code => some (.pushChar code.toNat)
  | .pushInt value => some (.pushInt value)
  | .pushFloat bits => some (.pushFloat bits)
  | .pushField index => some (.pushField index.toNat)
  | .pushLocal depth slot => some (.pushLocal depth.toNat slot.toNat)
  | .pushLiteral literal => literals[literal.toNat]?.map .pushString
  | .pushGlobal literal => literals[literal.toNat]?.map .pushGlobal
  | .pushArray count => some (.pushArray count.toNat)
  | .storeField index => some (.storeField index.toNat)
  | .storeLocal depth slot => some (.storeLocal depth.toNat slot.toNat)
  | .pop => some .pop
  | .send count selector => literals[selector.toNat]?.map (.send count.toNat)
  | .sendSuper count selector => literals[selector.toNat]?.map (.sendSuper count.toNat)
  | .block index => some (.block index.toNat)
  | .blockReturn => some .blockReturn
  | .methodReturn => some .methodReturn
  | .mark file line column =>
    literals[file.toNat]?.map fun name => .mark name line.toNat column.toNat

/-- Bytes as symbolic code, if they are code and all their literals exist. -/
def symbolicCode? (literals : Array String) (bytes : List UInt8) :
    Option (List SymbolicInstruction) :=
  match decode bytes with
  | ⟨instructions, none⟩ => instructions.mapM (Instruction.symbolic? literals)
  | ⟨_, some _⟩ => none

mutual

/-- A compiled method or block, and the blocks in it, with symbolic code. -/
def CompiledBlock.symbolic? (literals : Array String) : CompiledBlock → Option SymbolicBlock
  | ⟨name, classSide, qualifiedName, primitive, argumentCount, localCount, bytes, blocks⟩ => do
    let code ← symbolicCode? literals bytes
    let blocks ← CompiledBlock.symbolicAll? literals blocks
    return ⟨name, classSide, qualifiedName, primitive, argumentCount, localCount, code, blocks⟩

/-- Several compiled methods or blocks with symbolic code. -/
def CompiledBlock.symbolicAll? (literals : Array String) :
    List CompiledBlock → Option (List SymbolicBlock)
  | [] => some []
  | b :: bs => do
    let b ← b.symbolic? literals
    let bs ← CompiledBlock.symbolicAll? literals bs
    return b :: bs

end

/-- A compiled class with symbolic code. -/
def CompiledClass.symbolic? (c : CompiledClass) : Option SymbolicClass := do
  let methods ← CompiledBlock.symbolicAll? c.literals c.methods
  return ⟨c.name, c.superclass, c.fields, methods⟩

end Smalltalk
