import Mathlib
import Smalltalk.Proofs.Symbolic

/-!
# Assembling symbolic code

Symbolic code and a list of strings determine compiled code: every string has one number, every
instruction one encoding. So compiled code can be put together again from what it is read back as, and two
classes with the same strings that mean the same are the same.
-/

namespace Smalltalk

open Bytecode

namespace SymbolicInstruction

/-- The instruction with numbers in the place of strings. -/
def assemble (literals : List String) : SymbolicInstruction → Instruction
  | pushNil => .pushNil
  | pushSelf => .pushSelf
  | pushTrue => .pushTrue
  | pushFalse => .pushFalse
  | pushChar code => .pushChar (UInt16.ofNat code)
  | pushInt value => .pushInt value
  | pushFloat bits => .pushFloat bits
  | pushField index => .pushField (UInt16.ofNat index)
  | pushLocal depth slot => .pushLocal (UInt16.ofNat depth) (UInt16.ofNat slot)
  | pushString value => .pushLiteral (UInt16.ofNat (literals.idxOf value))
  | pushGlobal name => .pushGlobal (UInt16.ofNat (literals.idxOf name))
  | pushArray count => .pushArray (UInt16.ofNat count)
  | storeField index => .storeField (UInt16.ofNat index)
  | storeLocal depth slot => .storeLocal (UInt16.ofNat depth) (UInt16.ofNat slot)
  | pop => .pop
  | send count selector => .send (UInt16.ofNat count) (UInt16.ofNat (literals.idxOf selector))
  | sendSuper count selector => .sendSuper (UInt16.ofNat count) (UInt16.ofNat (literals.idxOf selector))
  | block index => .block (UInt16.ofNat index)
  | blockReturn => .blockReturn
  | methodReturn => .methodReturn
  | mark file line column =>
    .mark (UInt16.ofNat (literals.idxOf file)) (UInt16.ofNat line) (UInt16.ofNat column)

end SymbolicInstruction

mutual

/-- The compiled form of a method or block. -/
def SymbolicBlock.assemble (literals : List String) : SymbolicBlock → CompiledBlock
  | ⟨name, classSide, qualifiedName, primitive, argumentCount, localCount, code, blocks⟩ =>
    ⟨name, classSide, qualifiedName, primitive, argumentCount, localCount,
      encode (code.map (SymbolicInstruction.assemble literals)), SymbolicBlock.assembleAll literals blocks⟩

/-- The compiled forms of several methods or blocks. -/
def SymbolicBlock.assembleAll (literals : List String) : List SymbolicBlock → List CompiledBlock
  | [] => []
  | b :: bs => b.assemble literals :: SymbolicBlock.assembleAll literals bs

end

/-- The compiled form of a class. -/
def SymbolicClass.assemble (literals : List String) (c : SymbolicClass) : CompiledClass :=
  ⟨c.name, c.superclass, literals.toArray, c.fields, SymbolicBlock.assembleAll literals c.methods⟩

section Reading

variable {literals : Array String}

/-- A string that occurs once is found at its number. -/
theorem idxOf_of_getElem? (hnodup : literals.toList.Nodup) {n : UInt16} {s : String}
    (h : literals[n.toNat]? = some s) : UInt16.ofNat (literals.toList.idxOf s) = n := by
  rw [← Array.getElem?_toList] at h
  obtain ⟨hlt, rfl⟩ := List.getElem?_eq_some_iff.mp h
  rw [hnodup.idxOf_getElem, UInt16.ofNat_toNat]

/-- An instruction is put together again from what it is read back as. -/
theorem Bytecode.Instruction.assemble_of_symbolic? (hnodup : literals.toList.Nodup) {i : Instruction}
    {x : SymbolicInstruction} (h : i.symbolic? literals = some x) : x.assemble literals.toList = i := by
  cases i with
  | pushLiteral n | pushGlobal n | send count n | sendSuper count n | mark n line column =>
    obtain ⟨s, hs, rfl⟩ := Option.map_eq_some_iff.mp h
    simp only [SymbolicInstruction.assemble, idxOf_of_getElem? hnodup hs, UInt16.ofNat_toNat]
  | _ =>
    cases h
    simp only [SymbolicInstruction.assemble, UInt16.ofNat_toNat]

theorem assemble_of_mapM (hnodup : literals.toList.Nodup) {code : List Instruction}
    {sym : List SymbolicInstruction} (h : code.mapM (Instruction.symbolic? literals) = some sym) :
    sym.map (SymbolicInstruction.assemble literals.toList) = code := by
  rw [mapM_eq_some_iff] at h
  induction h with
  | nil => rfl
  | cons hi _ ih => rw [List.map_cons, Instruction.assemble_of_symbolic? hnodup hi, ih]

theorem assemble_of_symbolicCode? (hnodup : literals.toList.Nodup) {bytes : List UInt8}
    {sym : List SymbolicInstruction} (h : symbolicCode? literals bytes = some sym) :
    encode (sym.map (SymbolicInstruction.assemble literals.toList)) = bytes := by
  unfold symbolicCode? at h
  split at h
  · next instructions hdecode =>
    have hbytes := encode_decode bytes (by rw [hdecode])
    rw [hdecode] at hbytes
    rw [assemble_of_mapM hnodup h]
    exact hbytes
  · cases h

mutual

/-- A method or block is put together again from what it is read back as. -/
theorem CompiledBlock.assemble_of_symbolic? (hnodup : literals.toList.Nodup) :
    ∀ {c : CompiledBlock} {b : SymbolicBlock}, c.symbolic? literals = some b →
      b.assemble literals.toList = c
  | ⟨name, classSide, qualifiedName, primitive, argumentCount, localCount, bytes, blocks⟩, b, h => by
    rw [CompiledBlock.symbolic?] at h
    obtain ⟨code, hcode, h⟩ := Option.bind_eq_some_iff.mp h
    obtain ⟨bs, hbs, h⟩ := Option.bind_eq_some_iff.mp h
    cases h
    rw [SymbolicBlock.assemble, assemble_of_symbolicCode? hnodup hcode,
      CompiledBlock.assembleAll_of_symbolicAll? hnodup hbs]

theorem CompiledBlock.assembleAll_of_symbolicAll? (hnodup : literals.toList.Nodup) :
    ∀ {cs : List CompiledBlock} {bs : List SymbolicBlock}, symbolicAll? literals cs = some bs →
      SymbolicBlock.assembleAll literals.toList bs = cs
  | [], bs, h => by
    rw [symbolicAll?] at h
    cases h
    rw [SymbolicBlock.assembleAll]
  | c :: cs, bs, h => by
    rw [symbolicAll?] at h
    obtain ⟨b, hb, h⟩ := Option.bind_eq_some_iff.mp h
    obtain ⟨bs, hbs, h⟩ := Option.bind_eq_some_iff.mp h
    cases h
    rw [SymbolicBlock.assembleAll, CompiledBlock.assemble_of_symbolic? hnodup hb,
      CompiledBlock.assembleAll_of_symbolicAll? hnodup hbs]

end

end Reading

/-- A class whose strings are all different is put together again from what it is read back as. -/
theorem CompiledClass.assemble_of_symbolic? {c : CompiledClass} {s : SymbolicClass}
    (hnodup : c.literals.toList.Nodup) (h : c.symbolic? = some s) : s.assemble c.literals.toList = c := by
  obtain ⟨methods, hmethods, heq⟩ := Option.bind_eq_some_iff.mp h
  cases heq
  rw [SymbolicClass.assemble, CompiledBlock.assembleAll_of_symbolicAll? hnodup hmethods]

end Smalltalk
