import Mathlib
import Smalltalk.Proofs.Arrangement
import Smalltalk.Proofs.Verification

/-!
# Literal tables hold what the code uses

The strings that the code of a class refers to can be listed from its instructions alone, if the code of a
block is gone through where the block is made. The literal table is this list, where a string that comes
again is left out.
-/

namespace Smalltalk

open Bytecode

/-! ## First occurrences -/

theorem prefix_eraseDups_append (strings strings' : List String) :
    strings.eraseDups <+: (strings ++ strings').eraseDups := by
  rw [List.eraseDups_append]
  exact List.prefix_append _ _

/-- In a list without duplicates, an entry stands at the same place as in a part that it starts with. -/
theorem getElem?_of_prefix {l l' : List String} (hfront : l <+: l') (hnodup : l'.Nodup) {s : String}
    (hs : s ∈ l) {i : Nat} (hi : l'[i]? = some s) : l[i]? = some s := by
  obtain ⟨rest, rfl⟩ := hfront
  obtain ⟨j, hj⟩ := List.mem_iff_getElem?.mp hs
  have hj' : (l ++ rest)[j]? = some s := by
    rw [List.getElem?_append_left (List.getElem?_eq_some_iff.mp hj).1]
    exact hj
  have hij : i = j :=
    (List.getElem?_inj (List.getElem?_eq_some_iff.mp hi).1 hnodup).mp (hi.trans hj'.symm)
  rw [hij]
  exact hj

/-- A new table holds the strings that have been entered, each where it came first. -/
theorem LiteralTable.toList_internAll_empty (strings : List String) :
    (empty.internAll strings).toList = strings.eraseDups := by
  induction strings using List.reverseRecOn with
  | nil => rfl
  | append_singleton strings s ih =>
    rw [internAll_append, internAll_cons, internAll_nil, toList_intern, ih, List.eraseDups_append]
    by_cases hs : s ∈ strings
    · rw [if_pos (List.mem_eraseDups.mpr hs)]
      simp [List.removeAll, hs]
    · rw [if_neg (mt List.mem_eraseDups.mp hs)]
      simp [List.removeAll, hs, List.eraseDups_cons]

/-! ## Uses of literals -/

/-- A reference from an instruction to the table of literals. -/
structure LiteralUse where
  index : UInt16
  text : String
  deriving DecidableEq, Repr

/-- The literals that instructions refer to, in order. The code of a block is gone through where the block
is made, before the instructions that follow. An instruction decides which rule applies to it, so that
there is at most one such list. -/
inductive Uses (literals : Array String) (blocks : List CompiledBlock) :
    List Instruction → List LiteralUse → Prop where
  | nil : Uses literals blocks [] []
  | literal {i : Instruction} {rest : List Instruction} {index : UInt16} {text : String}
    {uses : List LiteralUse} :
    i.literal? = some index → literals[index.toNat]? = some text → Uses literals blocks rest uses →
    Uses literals blocks (i :: rest) (⟨index, text⟩ :: uses)
  | block {k : UInt16} {b : CompiledBlock} {rest : List Instruction} {inside uses : List LiteralUse} :
    blocks[k.toNat]? = some b → Uses literals blocks b.instructions inside →
    Uses literals blocks rest uses → Uses literals blocks (.block k :: rest) (inside ++ uses)
  | plain {i : Instruction} {rest : List Instruction} {uses : List LiteralUse} :
    i.literal? = none → (∀ k, i ≠ .block k) → Uses literals blocks rest uses →
    Uses literals blocks (i :: rest) uses

namespace Uses

variable {literals : Array String} {blocks : List CompiledBlock} {is is' : List Instruction}
  {uses uses' : List LiteralUse}

theorem append (h : Uses literals blocks is uses) (h' : Uses literals blocks is' uses') :
    Uses literals blocks (is ++ is') (uses ++ uses') := by
  induction h with
  | nil => exact h'
  | literal hi htext _ ih => exact .literal hi htext ih
  | block hb hinside _ _ ih =>
    rw [List.append_assoc]
    exact .block hb hinside ih
  | plain hi hne _ ih => exact .plain hi hne ih

/-- What is used is used by an instruction, of the code itself or of some block. -/
theorem exists_instruction (h : Uses literals blocks is uses) {use : LiteralUse} (huse : use ∈ uses) :
    literals[use.index.toNat]? = some use.text ∧
      ∃ i, i.literal? = some use.index ∧ (i ∈ is ∨ ∃ b ∈ blocks, i ∈ b.instructions) := by
  induction h with
  | nil => cases huse
  | @literal i rest index text uses hi htext _ ih =>
    rcases List.mem_cons.mp huse with rfl | huse
    · exact ⟨htext, i, hi, Or.inl List.mem_cons_self⟩
    · obtain ⟨htext', i', hi', hmem⟩ := ih huse
      exact ⟨htext', i', hi', hmem.imp_left (List.mem_cons_of_mem i)⟩
  | @block k b rest inside uses hb _ _ ihb ih =>
    rcases List.mem_append.mp huse with huse | huse
    · obtain ⟨htext', i', hi', hmem⟩ := ihb huse
      refine ⟨htext', i', hi', Or.inr ?_⟩
      exact hmem.elim (fun hmem => ⟨b, List.mem_of_getElem? hb, hmem⟩) id
    · obtain ⟨htext', i', hi', hmem⟩ := ih huse
      exact ⟨htext', i', hi', hmem.imp_left (List.mem_cons_of_mem _)⟩
  | @plain i rest uses _ _ _ ih =>
    obtain ⟨htext', i', hi', hmem⟩ := ih huse
    exact ⟨htext', i', hi', hmem.imp_left (List.mem_cons_of_mem i)⟩

end Uses

/-! ## Code that reads as an output -/

section Reading

variable {literals : Array String} {i : Instruction} {sym : SymbolicInstruction}

/-- An instruction refers to the literal that it says. -/
theorem exists_literal_of_symbolic? {text : String} (h : i.symbolic? literals = some sym)
    (hstring : sym.string? = some text) :
    ∃ index, i.literal? = some index ∧ literals[index.toNat]? = some text := by
  cases i with
  | pushLiteral | pushGlobal | send | sendSuper | mark =>
    obtain ⟨name, hname, rfl⟩ := Option.map_eq_some_iff.mp h
    cases hstring
    exact ⟨_, rfl, hname⟩
  | pushNil | pushSelf | pushTrue | pushFalse | pushChar | pushInt | pushFloat | pushField | pushLocal
    | pushArray | storeField | storeLocal | pop | block | blockReturn | methodReturn =>
    cases h
    cases hstring

/-- An instruction that says no string refers to no literal. -/
theorem literal?_of_symbolic? (h : i.symbolic? literals = some sym) (hstring : sym.string? = none) :
    i.literal? = none := by
  cases i with
  | pushLiteral | pushGlobal | send | sendSuper | mark =>
    obtain ⟨name, hname, rfl⟩ := Option.map_eq_some_iff.mp h
    cases hstring
  | pushNil | pushSelf | pushTrue | pushFalse | pushChar | pushInt | pushFloat | pushField | pushLocal
    | pushArray | storeField | storeLocal | pop | block | blockReturn | methodReturn => rfl

theorem ne_block_of_symbolic? (h : i.symbolic? literals = some sym) (hblock : sym.block? = none)
    (k : UInt16) : i ≠ .block k := by
  rintro rfl
  cases h
  cases hblock

/-- A single instruction uses the string that it says. -/
theorem Reads.exists_uses_naming {is : List Instruction} {text : String} (h : Reads literals is [sym])
    (hstring : sym.string? = some text) (blocks : List CompiledBlock) :
    ∃ uses, Uses literals blocks is uses ∧ uses.map LiteralUse.text = [text] := by
  obtain ⟨i, rest, hi, hrest, rfl⟩ := List.forall₂_cons_right_iff.mp h
  obtain ⟨index, hindex, htext⟩ := exists_literal_of_symbolic? hi hstring
  rw [List.forall₂_nil_right_iff.mp hrest]
  exact ⟨[⟨index, text⟩], .literal hindex htext .nil, rfl⟩

end Reading

/-- Code that reads as an arranged output uses the strings of the output, in their order. -/
theorem Output.Arranged.exists_uses {file : Option String} {k : Nat} {o : Output}
    (h : o.Arranged file k) {m : CompiledBlock} {literals : Array String} {is : List Instruction}
    (hreads : Reads literals is o.code) (hblocks : HasBlocks m literals k o.blocks) :
    ∃ uses, Uses literals m.blocks is uses ∧ uses.map LiteralUse.text = o.strings := by
  induction h generalizing is with
  | nil k =>
    rw [List.forall₂_nil_right_iff.mp hreads]
    exact ⟨[], .nil, rfl⟩
  | plain k hstring hblock =>
    obtain ⟨i, rest, hi, hrest, rfl⟩ := List.forall₂_cons_right_iff.mp hreads
    rw [List.forall₂_nil_right_iff.mp hrest]
    exact ⟨[], .plain (literal?_of_symbolic? hi hstring) (ne_block_of_symbolic? hi hblock) .nil, rfl⟩
  | naming k hstring hmark => exact hreads.exists_uses_naming hstring m.blocks
  | mark k p =>
    cases file with
    | none =>
      rw [List.forall₂_nil_right_iff.mp hreads]
      exact ⟨[], .nil, rfl⟩
    | some name => exact hreads.exists_uses_naming rfl m.blocks
  | block k hcode hnone hinside ih =>
    obtain ⟨i, rest, hi, hrest, rfl⟩ := List.forall₂_cons_right_iff.mp hreads
    obtain ⟨index, rfl, rfl⟩ := symbolic?_eq_block_iff.mp hi
    obtain ⟨b, hb, hbody⟩ := hblocks.head
    obtain ⟨inside, huses, htexts⟩ := ih (hcode ▸ hbody.reads) hblocks.tail
    rw [List.forall₂_nil_right_iff.mp hrest]
    refine ⟨inside ++ [], .block hb huses .nil, ?_⟩
    rw [List.append_nil]
    exact htexts
  | append hleft hright ihleft ihright =>
    obtain ⟨front, back, rfl, hfront, hback⟩ := hreads.split
    obtain ⟨uses, huses, htexts⟩ := ihleft hfront hblocks.left
    obtain ⟨uses', huses', htexts'⟩ := ihright hback hblocks.right
    refine ⟨uses ++ uses', huses.append huses', ?_⟩
    rw [List.map_append, htexts, htexts']
    rfl

/-! ## Methods and classes -/

section Classes

variable {literals : Array String} {file : Option String}

theorem ReadsAs.exists_uses {m : CompiledBlock} {d : MethodDef} {layers : List (List String)}
    {owner : String} (h : ReadsAs literals m (d.translate file layers owner))
    (hproper : ∀ n ∈ Expr.nodesOfAll d.body.statements, n.IsProper) :
    ∃ uses, Uses literals m.blocks m.instructions uses ∧
      uses.map LiteralUse.text = (d.output file layers owner).strings := by
  have harranged := d.arranged_output file layers owner hproper
  cases hbody : d.body with
  | primitive name =>
    have hnil : m.instructions = [] := by
      rw [MethodDef.translate, hbody] at h
      exact List.forall₂_nil_right_iff.mp h.reads
    rw [hnil, MethodDef.output, hbody]
    exact ⟨[], .nil, rfl⟩
  | code body =>
    rw [d.translate_of_code hbody] at h
    exact harranged.exists_uses h.reads h.hasBlocks

/-- The methods of a class use the strings of its output, one after the other. -/
theorem exists_uses_of_methods {ms : List CompiledBlock} {ds : List MethodDef} {layers : List (List String)}
    {owner : String} (h : List.Forall₂ (ReadsAs literals) ms (ds.map (MethodDef.translate file layers owner)))
    (hproper : ∀ d ∈ ds, ∀ n ∈ Expr.nodesOfAll d.body.statements, n.IsProper) :
    ∃ uses, List.Forall₂ (fun m used => Uses literals m.blocks m.instructions used) ms uses ∧
      uses.flatten.map LiteralUse.text = (outputOfMethods file layers owner ds).strings := by
  induction ds generalizing ms with
  | nil =>
    rw [List.forall₂_nil_right_iff.mp h]
    exact ⟨[], .nil, rfl⟩
  | cons d ds ih =>
    obtain ⟨m, ms, hm, hms, rfl⟩ := List.forall₂_cons_right_iff.mp h
    obtain ⟨hfirst, hrest⟩ := List.forall_mem_cons.mp hproper
    obtain ⟨used, hused, htexts⟩ := hm.exists_uses hfirst
    obtain ⟨uses, huses, htexts'⟩ := ih hms hrest
    refine ⟨used :: uses, .cons hused huses, ?_⟩
    rw [List.flatten_cons, List.map_append, htexts, htexts']
    rfl

end Classes

section Success

variable {source : String} {options : CompileOptions} {classes : List CompiledClass}

/-- A class that comes out of a compilation is the compiled form of a class of the unit. -/
theorem exists_assembled_of_ok (h : (compileSource source options).result = .ok classes) :
    ∃ u, SourceUnit.ofSource source = .ok u ∧ ∀ c ∈ classes, ∃ d ∈ u.allClasses,
      c = d.assembled options.markedFile u.allClasses ∧
      c.symbolic? = some (d.translate options.markedFile u.allClasses) := by
  obtain ⟨u, hsource, hcomplaints, -, hsymbolic⟩ := exists_unit_of_ok h
  have hu := SourceUnit.isUnshared_of_built (built_of_ofSource hsource)
  have hcompile : (u.compile options).result = .ok classes := by
    rw [compileSource, hsource] at h
    exact h
  obtain ⟨-, -, rfl⟩ := (SourceUnit.compile_eq_ok_iff hu).mp hcompile
  rw [mapM_eq_some_iff, SourceUnit.translate, SourceUnit.assembled, List.forall₂_map_left_iff,
    List.forall₂_map_right_iff, List.forall₂_same] at hsymbolic
  refine ⟨u, hsource, fun c hc => ?_⟩
  obtain ⟨d, hd, rfl⟩ := List.mem_map.mp hc
  exact ⟨d, hd, rfl, hsymbolic d hd⟩

/-- A string that the methods of a class use is used by an instruction, of a method or of a block in it. -/
theorem exists_instruction_of_uses {literals : Array String} {ms : List CompiledBlock}
    {uses : List (List LiteralUse)}
    (huses : List.Forall₂ (fun m used => Uses literals m.blocks m.instructions used) ms uses)
    {use : LiteralUse} (huse : use ∈ uses.flatten) :
    literals[use.index.toNat]? = some use.text ∧
      ∃ m ∈ ms, ∃ b ∈ m :: m.blocks, ∃ i ∈ b.instructions, i.literal? = some use.index := by
  obtain ⟨used, hused, huse⟩ := List.mem_flatten.mp huse
  obtain ⟨m, hm, hmethod⟩ := exists_mem_of_forall₂ huses.flip hused
  obtain ⟨htext, i, hi, hmem⟩ := Uses.exists_instruction hmethod huse
  refine ⟨htext, m, hm, ?_⟩
  rcases hmem with hmem | ⟨b, hb, hmem⟩
  · exact ⟨m, List.mem_cons_self, i, hmem, hi⟩
  · exact ⟨b, List.mem_cons_of_mem m hb, i, hmem, hi⟩

/-- The literal table of a class holds what its methods use, one after the other. -/
structure HoldsFirstUses (c : CompiledClass) (uses : List (List LiteralUse)) : Prop where
  methods : List.Forall₂ (fun m used => Uses c.literals m.blocks m.instructions used) c.methods uses
  nodup : c.literals.toList.Nodup
  literals_eq : c.literals.toList = (uses.flatten.map LiteralUse.text).eraseDups
  /-- Every entry is used by an instruction of the class. -/
  used : ∀ index < c.literals.size, ∃ m ∈ c.methods, ∃ b ∈ m :: m.blocks, ∃ i ∈ b.instructions,
    ∃ literal, i.literal? = some literal ∧ literal.toNat = index
  /-- When a string is used, the table so far already has it at the place where the instruction refers to,
  and whatever is entered later leaves it there. -/
  stable : ∀ before use after, uses.flatten = before ++ use :: after →
    ((before ++ [use]).map LiteralUse.text).eraseDups <+: c.literals.toList ∧
    ((before ++ [use]).map LiteralUse.text).eraseDups[use.index.toNat]? = some use.text ∧
    c.literals[use.index.toNat]? = some use.text

/-- A table of the strings that are used, in the order of their first uses, is as it should be. -/
theorem holdsFirstUses_of_literals {c : CompiledClass} {uses : List (List LiteralUse)}
    (huses : List.Forall₂ (fun m used => Uses c.literals m.blocks m.instructions used) c.methods uses)
    (hnodup : c.literals.toList.Nodup)
    (hliterals : c.literals.toList = (uses.flatten.map LiteralUse.text).eraseDups) :
    HoldsFirstUses c uses := by
  refine ⟨huses, hnodup, hliterals, fun index hindex => ?_, fun before use after hsplit => ?_⟩
  · have hmem : c.literals[index] ∈ (uses.flatten.map LiteralUse.text).eraseDups := by
      rw [← hliterals]
      exact Array.mem_toList_iff.mpr (Array.getElem_mem hindex)
    obtain ⟨use, huse, htext⟩ := List.mem_map.mp (List.mem_eraseDups.mp hmem)
    obtain ⟨hat, m, hm, b, hb, i, hi, hliteral⟩ := exists_instruction_of_uses huses huse
    have hat' : c.literals.toList[use.index.toNat]? = c.literals.toList[index]? := by
      rw [Array.getElem?_toList, Array.getElem?_toList, hat, htext, Array.getElem?_eq_getElem hindex]
    exact ⟨m, hm, b, hb, i, hi, use.index, hliteral,
      ((List.getElem?_inj (Array.length_toList ▸ hindex) hnodup).mp hat'.symm).symm⟩
  · have hfront : ((before ++ [use]).map LiteralUse.text).eraseDups <+: c.literals.toList := by
      have htexts : uses.flatten.map LiteralUse.text =
          (before ++ [use]).map LiteralUse.text ++ after.map LiteralUse.text := by
        simp [hsplit]
      rw [hliterals, htexts]
      exact prefix_eraseDups_append _ _
    have huse : use ∈ uses.flatten := by
      rw [hsplit]
      exact List.mem_append_right before List.mem_cons_self
    obtain ⟨hat, -⟩ := exists_instruction_of_uses huses huse
    refine ⟨hfront, getElem?_of_prefix hfront hnodup ?_ ?_, hat⟩
    · exact List.mem_eraseDups.mpr (List.mem_map_of_mem (List.mem_append_right before List.mem_cons_self))
    · rw [Array.getElem?_toList]
      exact hat

/-- The literal table of every class that is compiled holds the strings that its methods use, without
duplicates and in the order of their first uses. -/
theorem holdsFirstUses_of_compileSource (h : (compileSource source options).result = .ok classes) :
    ∀ c ∈ classes, ∃ uses, HoldsFirstUses c uses := by
  obtain ⟨u, hsource, hclasses⟩ := exists_assembled_of_ok h
  intro c hc
  obtain ⟨d, hd, hassembled, hsymbolic⟩ := hclasses c hc
  obtain ⟨uses, huses, htexts⟩ := exists_uses_of_methods (classReadsAs_of_symbolic? hsymbolic).methods
    fun m hm => SourceUnit.isProper_of_mem (built_of_ofSource hsource) hd hm
  have htable : c.literals.toList =
      (LiteralTable.empty.internAll (d.output options.markedFile u.allClasses).strings).toList := by
    rw [hassembled]
    rfl
  refine ⟨uses, holdsFirstUses_of_literals huses ?_ ?_⟩
  · rw [htable]
    exact LiteralTable.nodup_toList _
  · rw [htable, LiteralTable.toList_internAll_empty, htexts]
    rfl

/-- Strings that come again, one that a block uses first, and names of selectors and of the file, with
positions marked. -/
theorem holdsFirstUses_of_compileSource_nested_blocks :
    ∃ classes, (compileSource ("Object subclass: #A [ | x | m [ ^[:i | x := 'b' , i. [i c: 'a']] c: 'b' ] "
        ++ "p <primitive: #p> ] A new m: 'a' c: 'd'") { debugInfo := true }).result = .ok classes ∧
      classes.map (·.literals.toList) =
        [["b", ",", "a", "c:", "<input>"], ["A", "new", "a", "d", "m:c:", "<input>"]] ∧
      ∀ c ∈ classes, ∃ uses, HoldsFirstUses c uses :=
  exists_ok_of_map (by decide +kernel) fun _ h => holdsFirstUses_of_compileSource h

end Success

end Smalltalk
