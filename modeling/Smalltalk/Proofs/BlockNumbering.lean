import Mathlib
import Smalltalk.Proofs.Arity
import Smalltalk.Proofs.BindingReports
import Smalltalk.Proofs.NestedBlocks
import Smalltalk.Proofs.SpanNesting

/-!
# Blocks are numbered in the order of the text

The blocks of a compiled method are those that its definition has, at any depth, in the order in which they
start. The place of a block in this list is its number. Its name and the instruction that makes it have the
number, and the symbol of the block says how many of the blocks after it are inside.
-/

namespace Smalltalk

open Bytecode ScopeTable

/-! ## Instructions that make blocks -/

/-- The number of the block that an instruction makes. -/
def Bytecode.Instruction.block? : Instruction → Option Nat
  | .block index => some index.toNat
  | _ => none

theorem Bytecode.Instruction.block?_of_symbolic? {literals : Array String} {i : Instruction}
    {sym : SymbolicInstruction} (h : i.symbolic? literals = some sym) : i.block? = sym.block? := by
  cases i with
  | pushLiteral | pushGlobal | send | sendSuper | mark =>
    obtain ⟨name, -, rfl⟩ := Option.map_eq_some_iff.mp h
    rfl
  | pushNil | pushSelf | pushTrue | pushFalse | pushChar | pushInt | pushFloat | pushField | pushLocal
    | pushArray | storeField | storeLocal | pop | block | blockReturn | methodReturn =>
    cases h
    rfl

theorem Reads.filterMap_block? {literals : Array String} {instructions : List Instruction}
    {code : List SymbolicInstruction} (h : Reads literals instructions code) :
    instructions.filterMap Instruction.block? = Expr.blockNumbers code := by
  rw [Expr.blockNumbers]
  induction h with
  | nil => rfl
  | cons hi _ ih => rw [List.filterMap_cons, List.filterMap_cons, Instruction.block?_of_symbolic? hi, ih]

namespace CompiledBlock

/-- The numbers of the blocks that a method or block makes, in order. -/
def blockNumbers (b : CompiledBlock) : List Nat := b.instructions.filterMap Instruction.block?

/-- The body at the end of a path of blocks, which is that of the method if the path is empty. -/
def bodyAt (m : CompiledBlock) (path : List Nat) : Option CompiledBlock :=
  path.getLast?.elim (some m) (m.blocks[·]?)

section Reading

variable {literals : Array String} {m : CompiledBlock} {sym : SymbolicBlock}

theorem blockNumbers_of_symbolic? (h : m.symbolic? literals = some sym) :
    m.blockNumbers = Expr.blockNumbers sym.code :=
  (readsAs_of_symbolic? h).reads.filterMap_block?

theorem frame_of_symbolic? (h : m.symbolic? literals = some sym) :
    m.qualifiedName = sym.qualifiedName ∧ m.localCount = sym.localCount := by
  obtain ⟨name, classSide, qualifiedName, primitive, argumentCount, localCount, bytes, blocks⟩ := m
  rw [symbolic?] at h
  obtain ⟨code, -, h⟩ := Option.bind_eq_some_iff.mp h
  obtain ⟨blocks', -, h⟩ := Option.bind_eq_some_iff.mp h
  cases h
  exact ⟨rfl, rfl⟩

theorem flatMap_blockNumbers_of_forall₂ {blocks : List CompiledBlock} {syms : List SymbolicBlock}
    (h : List.Forall₂ (fun b sym => b.symbolic? literals = some sym) blocks syms) :
    blocks.flatMap blockNumbers = syms.flatMap fun b => Expr.blockNumbers b.code := by
  induction h with
  | nil => rfl
  | cons hb _ ih => rw [List.flatMap_cons, List.flatMap_cons, blockNumbers_of_symbolic? hb, ih]

end Reading

end CompiledBlock

/-! ## The blocks of a method -/

namespace Expr

variable {s : Surroundings} {path : List Nat} {k : Nat}

/-- The blocks around a block have smaller numbers. -/
theorem MadeInPlace.lt_of_mem_path {numbers : List Nat} {ls : List BlockLiteral}
    (h : MadeInPlace [] k numbers ls) (j : Nat) :
    ∀ l, ls[j]? = some l → ∀ i ∈ l.path, i < k + j := by
  induction j using Nat.strong_induction_on with
  | _ j ih =>
    intro l hl i hi
    rcases h j l hl with ⟨hpath, -⟩ | ⟨a, ha, l', hl', hpath, -⟩
    · rw [hpath] at hi
      exact absurd hi List.not_mem_nil
    · rw [hpath, List.mem_append, List.mem_singleton] at hi
      rcases hi with hi | rfl
      · exact (ih a ha l' hl' i hi).trans (Nat.add_lt_add_left ha k)
      · exact Nat.add_lt_add_left ha k

/-- A block that has been laid out has a scope with its number and its variables. -/
theorem exists_isBlockScope_of_laidAll {t : ScopeTable} {blockScopes : Std.TreeMap Nat ScopeId}
    {method : String} {scope : ScopeId} {es : List Expr} (h : LaidAll t blockScopes method scope k es) :
    ∀ (j : Nat) l, (blockLiteralsOfAll s path k es)[j]? = some l →
      ∃ outer inner, blockScopes[l.info.id]? = some inner ∧
        t.IsBlockScope outer inner (method ++ "-block" ++ toString (k + j)) (k + j)
          (namesOf l.params) (namesOf l.locals) := by
  induction es using forest_induction generalizing s path k scope with
  | nil =>
    rw [blockLiteralsOfAll]
    exact fun j l hl => absurd hl (by simp)
  | block info params locals statements close es ihs ihes =>
    rw [LaidAll, Laid, blockCount] at h
    obtain ⟨⟨inner, hinner, hscope, hstatements⟩, hes⟩ := h
    rw [blockLiteralsOfAll_cons_block]
    refine forall_getElem?_cons.mpr ⟨⟨scope, inner, hinner, hscope⟩, forall_getElem?_append.mpr
      ⟨fun j l hl => ?_, fun j l hl => ?_⟩⟩
    · rw [← Nat.add_assoc, Nat.add_right_comm]
      exact ihs hstatements j l hl
    · have hk : k + ((blockCountOfAll statements + j) + 1) = k + 1 + blockCountOfAll statements + j := by omega
      rw [length_blockLiteralsOfAll, hk]
      rw [← Nat.add_assoc] at hes
      exact ihes hes j l hl
  | other e es he ihe ihes =>
    rw [LaidAll, laid_iff_children he, blockCount_eq_children he] at h
    rw [blockLiteralsOfAll_cons_other he]
    refine forall_getElem?_append.mpr ⟨ihe h.1, fun j l hl => ?_⟩
    rw [length_blockLiteralsOfAll, ← Nat.add_assoc]
    exact ihes h.2 j l hl

end Expr

namespace MethodDef

variable (file : Option String) (layers : List (List String)) (owner : String)

/-- The surroundings of the statements of a method. -/
def inner (d : MethodDef) : Surroundings := d.surroundings file layers owner d.body.locals

/-- The blocks in a method, by number. -/
def blockLiterals (d : MethodDef) : List BlockLiteral :=
  Expr.blockLiteralsOfAll (d.inner file layers owner) [] 0 d.body.statements

theorem blocks_translate (d : MethodDef) :
    (d.translate file layers owner).blocks =
      (d.blockLiterals file layers owner).mapIdx fun i l => l.translate i := by
  rw [translate, blockLiterals, inner]
  cases d.body with
  | primitive name => rfl
  | code body =>
    have h := @Expr.blocksOfAll_eq_mapIdx (d.surroundings file layers owner body.locals) [] 0 body.statements
    simp only [Nat.zero_add] at h
    exact h

theorem blockNumbers_translate (d : MethodDef) :
    Expr.blockNumbers (d.translate file layers owner).code =
      Expr.blockNumbers (Expr.translateAll (d.inner file layers owner) 0 d.body.statements) := by
  rw [translate, inner]
  cases d.body with
  | primitive name => rfl
  | code body =>
    rw [Expr.blockNumbers_append, Expr.blockNumbers_append, Expr.blockNumbers_markAt, List.append_nil,
      Expr.blockNumbers_translateStatements]
    exact List.append_nil _

/-- A method and its blocks make each block once. -/
theorem perm_blockNumbers_translate {d : MethodDef}
    (hproper : ∀ n ∈ Expr.nodesOfAll d.body.statements, n.IsProper) :
    (Expr.blockNumbers (d.translate file layers owner).code ++
      (d.translate file layers owner).blocks.flatMap fun b => Expr.blockNumbers b.code).Perm
        (List.range (d.translate file layers owner).blocks.length) := by
  rw [List.range_eq_range']
  cases hbody : d.body with
  | primitive name =>
    rw [translate, hbody]
    exact .nil
  | code body =>
    rw [translate_of_code hbody]
    exact (d.arranged_output file layers owner hproper).perm_blockNumbers

end MethodDef

/-! ## What is known about a block -/

/-- A compiled block is the given literal of its method, with the number `i`: it is named for the number,
its qualified name leads through all blocks around it, it has the code of the literal, and the body around it
makes it. -/
structure BlockLiteral.IsCompiled (l : BlockLiteral) (file : Option String) (owner : String)
    (literals : Array String) (m b : CompiledBlock) (i : Nat) : Prop where
  name_eq : b.name = m.name ++ "-block" ++ toString i
  qualifiedName_eq : b.qualifiedName = String.intercalate ">>"
    ([owner, m.name] ++ (l.path ++ [i]).map fun j => m.name ++ "-block" ++ toString j)
  argumentCount_eq : b.argumentCount = l.params.length
  localCount_eq : b.localCount = l.locals.length
  decoded : (decode b.code).failure? = none
  reads : Reads literals b.instructions (Expr.translateStatements (l.inner i) (i + 1) l.statements
    ++ markAt file l.close.start ++ [.blockReturn])
  made : ∃ body, m.bodyAt l.path = some body ∧ i ∈ body.blockNumbers

/-- A block has been declared under the given name, with the number `i`: there is a scope for it, and the
symbol of the scope says how many blocks are inside. -/
def BlockLiteral.IsDeclared (l : BlockLiteral) (declared : Declared) (name : String) (i : Nat) : Prop :=
  ∃ outer inner y, declared.scopes.blocks[l.info.id]? = some inner ∧
    declared.table.IsBlockScope outer inner name i (namesOf l.params) (namesOf l.locals) ∧
    declared.table.IsBlockSymbol inner y (Expr.blockNodes l.statements).length

/-- The blocks of a compiled method are the blocks of its definition, numbered as they start in the text. -/
structure MethodDef.NumbersBlocks (d : MethodDef) (file : Option String) (layers : List (List String))
    (owner : String) (declared : Declared) (literals : Array String) (m : CompiledBlock) : Prop where
  name_eq : m.name = d.selector.name
  decoded : (decode m.code).failure? = none
  /-- The literals are the blocks among the nodes of the method, ... -/
  map_node : (d.blockLiterals file layers owner).map BlockLiteral.node = Expr.blockNodes d.body.statements
  /-- ... from left to right. -/
  ascending : (Expr.blockNodes d.body.statements).Pairwise fun a b => a.span.start.offset < b.span.start.offset
  length_eq : m.blocks.length = (Expr.blockNodes d.body.statements).length
  /-- Every block is made exactly once. -/
  perm_blockNumbers : ((m :: m.blocks).flatMap CompiledBlock.blockNumbers).Perm (List.range m.blocks.length)
  isCompiled : ∀ (i : Nat) b, m.blocks[i]? = some b →
    ∃ l, (d.blockLiterals file layers owner)[i]? = some l ∧ l.IsCompiled file owner literals m b i
  isDeclared : ∀ (i : Nat) l, (d.blockLiterals file layers owner)[i]? = some l →
    l.IsDeclared declared (m.name ++ "-block" ++ toString i) i
  /-- The path of a block leads through the blocks that have it inside, ... -/
  path_eq : ∀ l ∈ d.blockLiterals file layers owner,
    l.path = Expr.blocksAround d.body.statements 0 l.info.id
  /-- ... which come before it. -/
  lt_of_mem_path : ∀ (i : Nat) l, (d.blockLiterals file layers owner)[i]? = some l → ∀ j ∈ l.path, j < i
  /-- The blocks inside a block come right after it. -/
  inside : ∀ (i : Nat) l, (d.blockLiterals file layers owner)[i]? = some l →
    Expr.blockNodes l.statements <+: (Expr.blockNodes d.body.statements).drop (i + 1)

namespace MethodDef

variable {d : MethodDef} {file : Option String} {layers : List (List String)} {owner : String}
  {literals : Array String} {m : CompiledBlock}

theorem name_of_symbolic? (h : m.symbolic? literals = some (d.translate file layers owner)) :
    m.name = d.selector.name := by
  rw [(header_of_symbolic? h).1, translate]
  cases d.body <;> rfl

/-- The compiled block with a given number is read from the literal with this number. -/
theorem exists_literal_of_getElem? (h : m.symbolic? literals = some (d.translate file layers owner)) {i : Nat}
    {b : CompiledBlock} (hb : m.blocks[i]? = some b) :
    ∃ l, (d.blockLiterals file layers owner)[i]? = some l ∧ b.symbolic? literals = some (l.translate i) := by
  obtain ⟨sym, hsym, hread⟩ := exists_getElem?_of_forall₂ (readsAs_of_symbolic? h).blocks hb
  rw [d.blocks_translate, List.getElem?_mapIdx] at hsym
  obtain ⟨l, hl, rfl⟩ := Option.map_eq_some_iff.mp hsym
  exact ⟨l, hl, hread⟩

theorem exists_block_of_getElem? (h : m.symbolic? literals = some (d.translate file layers owner)) {i : Nat}
    {l : BlockLiteral} (hl : (d.blockLiterals file layers owner)[i]? = some l) :
    ∃ b, m.blocks[i]? = some b ∧ b.symbolic? literals = some (l.translate i) := by
  refine exists_getElem?_of_forall₂ (readsAs_of_symbolic? h).blocks.flip ?_
  rw [d.blocks_translate, List.getElem?_mapIdx, hl]
  rfl

theorem madeInPlace_blockLiterals (hproper : ∀ n ∈ Expr.nodesOfAll d.body.statements, n.IsProper) :
    Expr.MadeInPlace [] 0 (Expr.blockNumbers (d.translate file layers owner).code)
      (d.blockLiterals file layers owner) := by
  rw [d.blockNumbers_translate]
  exact Expr.madeInPlace_blockLiteralsOfAll hproper

/-- The body around a block makes the block. -/
theorem exists_body_of_getElem? (h : m.symbolic? literals = some (d.translate file layers owner))
    (hproper : ∀ n ∈ Expr.nodesOfAll d.body.statements, n.IsProper) {i : Nat} {l : BlockLiteral}
    (hl : (d.blockLiterals file layers owner)[i]? = some l) :
    ∃ body, m.bodyAt l.path = some body ∧ i ∈ body.blockNumbers := by
  rcases madeInPlace_blockLiterals hproper i l hl with ⟨hpath, hmade⟩ | ⟨a, -, l', hl', hpath, hmade⟩
  · rw [Nat.zero_add, ← CompiledBlock.blockNumbers_of_symbolic? h] at hmade
    rw [hpath]
    exact ⟨m, rfl, hmade⟩
  · rw [Nat.zero_add] at hpath
    obtain ⟨b, hb, hread⟩ := exists_block_of_getElem? h hl'
    rw [Nat.zero_add, Nat.zero_add, ← CompiledBlock.blockNumbers_of_symbolic? hread] at hmade
    refine ⟨b, ?_, hmade⟩
    rw [hpath, CompiledBlock.bodyAt, List.getLast?_concat]
    exact hb

theorem isCompiled_of_symbolic? (h : m.symbolic? literals = some (d.translate file layers owner))
    (hproper : ∀ n ∈ Expr.nodesOfAll d.body.statements, n.IsProper) {i : Nat} {b : CompiledBlock}
    {l : BlockLiteral} (hl : (d.blockLiterals file layers owner)[i]? = some l)
    (hread : b.symbolic? literals = some (l.translate i)) : l.IsCompiled file owner literals m b i := by
  have hname := name_of_symbolic? h
  obtain ⟨inside, hpath, hfile, hmethod, houter⟩ :=
    Expr.outer_of_mem_blockLiteralsOfAll d.body.statements l (List.mem_of_getElem? hl)
  have hblockName : ∀ j, l.outer.blockName j = m.name ++ "-block" ++ toString j := by
    intro j
    rw [Surroundings.blockName, hmethod, hname]
    rfl
  obtain ⟨hbname, hcount⟩ := header_of_symbolic? hread
  obtain ⟨hqualified, hlocals⟩ := CompiledBlock.frame_of_symbolic? hread
  have hreads := readsAs_of_symbolic? hread
  refine ⟨?_, ?_, hcount, hlocals, hreads.decoded, ?_, exists_body_of_getElem? h hproper hl⟩
  · rw [hbname]
    exact hblockName i
  · have hinner : (l.inner i).path = l.outer.path ++ [l.outer.blockName i] := rfl
    have hnames : (d.inner file layers owner).blockName = fun j => m.name ++ "-block" ++ toString j := by
      rw [hname]
      rfl
    rw [List.nil_append] at hpath
    rw [hqualified, BlockLiteral.translate, hinner, houter, hpath, hnames, hblockName, List.map_append,
      List.append_assoc, hname]
    rfl
  · have hcode := hreads.reads
    rw [BlockLiteral.translate, hfile] at hcode
    exact hcode

/-- A literal of a method has been declared, if the method has been laid out and its blocks are noted. -/
theorem isDeclared_of_getElem? {declared : Declared} {scope : ScopeId}
    (hlaid : Expr.LaidAll declared.table declared.scopes.blocks d.selector.name scope 0 d.body.statements)
    (hnotes : declared.table.NotesBlocks declared.scopes.blocks 0 d.body.statements) {i : Nat}
    {l : BlockLiteral} (hl : (d.blockLiterals file layers owner)[i]? = some l) :
    l.IsDeclared declared (d.selector.name ++ "-block" ++ toString i) i := by
  obtain ⟨outer, inner, hinner, hscope⟩ := Expr.exists_isBlockScope_of_laidAll hlaid i l hl
  have hnode : l.node ∈ Expr.blockNodes d.body.statements := by
    rw [← Expr.map_node_blockLiteralsOfAll]
    exact List.mem_map_of_mem (List.mem_of_getElem? hl)
  obtain ⟨inner', y, hinner', -, hsymbol⟩ := hnotes l.node hnode
  have hsame : inner' = inner := Option.some_inj.mp (hinner'.symm.trans hinner)
  rw [hsame] at hsymbol
  rw [Nat.zero_add] at hscope
  refine ⟨outer, inner, y, hinner, hscope, ?_⟩
  rw [Expr.length_blockNodes]
  exact hsymbol

/-- The blocks inside a block come right after it. -/
theorem prefix_drop_blockNodes {i : Nat} {l : BlockLiteral}
    (hl : (d.blockLiterals file layers owner)[i]? = some l) :
    Expr.blockNodes l.statements <+: (Expr.blockNodes d.body.statements).drop (i + 1) := by
  have h := (Expr.prefix_drop_blockLiteralsOfAll d.body.statements i l hl).map BlockLiteral.node
  rw [Expr.map_node_blockLiteralsOfAll, List.map_drop, Expr.map_node_blockLiteralsOfAll] at h
  exact h

/-- A method that reads as its translation numbers its blocks, if what is known about its definition holds. -/
theorem numbersBlocks_of_symbolic? {declared : Declared} {scope : ScopeId}
    (h : m.symbolic? literals = some (d.translate file layers owner))
    (hproper : ∀ n ∈ Expr.nodesOfAll d.body.statements, n.IsProper)
    (hnodup : (Expr.ids d.body.statements).Nodup)
    (hascending : (Expr.blockNodes d.body.statements).Pairwise
      fun a b => a.span.start.offset < b.span.start.offset)
    (hlaid : Expr.LaidAll declared.table declared.scopes.blocks d.selector.name scope 0 d.body.statements)
    (hnotes : declared.table.NotesBlocks declared.scopes.blocks 0 d.body.statements) :
    d.NumbersBlocks file layers owner declared literals m := by
  have hname := name_of_symbolic? h
  have hreads := readsAs_of_symbolic? h
  have hblocks := hreads.blocks
  have hmap : (d.blockLiterals file layers owner).map BlockLiteral.node = Expr.blockNodes d.body.statements :=
    Expr.map_node_blockLiteralsOfAll d.body.statements
  refine ⟨hname, hreads.decoded, hmap, hascending, ?_, ?_, fun i b hb => ?_, fun i l hl => ?_, fun l hl => ?_,
    fun i l hl => ?_, fun i l hl => prefix_drop_blockNodes hl⟩
  · rw [hblocks.length_eq, blocks_translate, List.length_mapIdx, ← hmap, List.length_map]
  · rw [List.flatMap_cons, CompiledBlock.blockNumbers_of_symbolic? h,
      CompiledBlock.flatMap_blockNumbers_of_forall₂ hblocks, hblocks.length_eq]
    exact perm_blockNumbers_translate file layers owner hproper
  · obtain ⟨l, hl, hread⟩ := exists_literal_of_getElem? h hb
    exact ⟨l, hl, isCompiled_of_symbolic? h hproper hl hread⟩
  · rw [hname]
    exact isDeclared_of_getElem? hlaid hnotes hl
  · exact Expr.path_eq_blocksAround hnodup l hl
  · have hlt := (madeInPlace_blockLiterals hproper).lt_of_mem_path i l hl
    rwa [Nat.zero_add] at hlt

end MethodDef

/-! ## Compiled units -/

namespace SourceUnit

variable {u : SourceUnit} {c : ClassDef} {m : MethodDef}

/-- The statements of a method are a part of those of its unit. -/
theorem exists_append_of_mem (hc : c ∈ u.allClasses) (hm : m ∈ c.methods) :
    ∃ front back, u.statements = front ++ (m.body.statements ++ back) := by
  obtain ⟨classes, classes', hclasses⟩ := List.append_of_mem hc
  obtain ⟨methods, methods', hmethods⟩ := List.append_of_mem hm
  refine ⟨statementsOfClasses classes ++ statementsOfMethods methods,
    statementsOfMethods methods' ++ statementsOfClasses classes', ?_⟩
  rw [← statementsOfClasses_allClasses, hclasses, statementsOfClasses, List.flatMap_append, List.flatMap_cons,
    hmethods, statementsOfMethods, List.flatMap_append, List.flatMap_cons]
  simp only [statementsOfClasses, statementsOfMethods, List.append_assoc]

/-- The compiled classes of a unit have its methods, and each method numbers its blocks. -/
def NumbersBlocks (u : SourceUnit) (file : Option String) (classes : List CompiledClass) : Prop :=
  List.Forall₂ (fun c d => c.name = d.name.name ∧ List.Forall₂
      (fun m e => e.NumbersBlocks file (d.layers u.allClasses) d.name.name (declareUnit u) c.literals m)
      c.methods d.methods)
    classes u.allClasses

/-- A method of a unit that has been read and declared numbers its blocks. -/
theorem numbersBlocks_of_mem {source : String} {file : Option String} {layers : List (List String)}
    {owner : String} {literals : Array String} {compiled : CompiledBlock}
    (hsource : SourceUnit.ofSource source = .ok u) (hclean : (declareUnit u).errors = [])
    (hc : c ∈ u.allClasses) (hm : m ∈ c.methods)
    (h : compiled.symbolic? literals = some (m.translate file layers owner)) :
    m.NumbersBlocks file layers owner (declareUnit u) literals compiled := by
  have hu := isUnshared_of_built (built_of_ofSource hsource)
  have hnodup := hu.nodup_ids
  have hascending := (between_of_ofSource hsource).pairwise_blockNodes
  have hnotes := notesBlocks_declareUnit hu.nodup_ids hclean
  -- what holds of all statements of the unit holds of those of the method
  obtain ⟨front, back, hsplit⟩ := exists_append_of_mem hc hm
  rw [hsplit, Expr.ids_append, Expr.ids_append, List.nodup_append', List.nodup_append'] at hnodup
  rw [hsplit, Expr.blockNodes_append, Expr.blockNodes_append, List.pairwise_append, List.pairwise_append]
    at hascending
  rw [hsplit, NotesBlocks, Expr.blockNodes_append, Expr.blockNodes_append, List.forall_mem_append,
    List.forall_mem_append] at hnotes
  obtain ⟨entry, -, -, hscopes⟩ :=
    exists_mem_of_forall₂ (holdsUnit_declareUnit hu.nodup_ids hclean).forall₂_holdsClass.flip hc
  obtain ⟨scope, -, hscope⟩ := exists_mem_of_forall₂ hscopes.flip hm
  exact MethodDef.numbersBlocks_of_symbolic? h (hu.isProper_of_mem hc hm) hnodup.2.1.1 hascending.2.1.1
    (IsScopeOf.holdsStatements hscope).2.2 hnotes.2.1

end SourceUnit

/-- Numbers of 16 bits that wrap around are subtracted right where a machine has an answer. -/
theorem subtracts_words : DeclareM.Subtracts fun a b => (UInt16.ofNat a - UInt16.ofNat b).toNat := by
  intro a b hle hlimit
  rw [counterLimit] at hlimit
  have ha : (UInt16.ofNat a).toNat = a := UInt16.toNat_ofNat_of_lt' (by rw [UInt16.size]; omega)
  have hb : (UInt16.ofNat b).toNat = b := UInt16.toNat_ofNat_of_lt' (by rw [UInt16.size]; omega)
  have hwords : UInt16.ofNat b ≤ UInt16.ofNat a := by
    rw [UInt16.le_iff_toNat_le, ha, hb]
    exact hle
  show (UInt16.ofNat a - UInt16.ofNat b).toNat = a - b
  rw [UInt16.toNat_sub_of_le _ _ hwords, ha, hb]

section Success

variable {source : String} {options : CompileOptions} {classes : List CompiledClass}

/-- Blocks are numbered as they start in the text, and stand at their numbers. For every source text that is
compiled, the blocks of each method are the block literals in it, in this order; each has the name, the counts,
the code and the qualified name that its literal, its number and the blocks around it ask for; the method and
its blocks together make each block once, and the body around a block makes it. The symbol of a block counts
the blocks inside it, which come right after it; and no other result of a subtraction that underflows would
change any of this. -/
theorem numbersBlocks_of_compileSource (h : (compileSource source options).result = .ok classes) :
    ∃ u, SourceUnit.ofSource source = .ok u ∧ u.NumbersBlocks options.markedFile classes ∧
      ∀ sub, DeclareM.Subtracts sub → declareUnitBy sub u = declareUnit u := by
  obtain ⟨u, hsource, hcomplaints, -, hsymbolic⟩ := exists_unit_of_ok h
  have hclean := (List.append_eq_nil_iff.mp hcomplaints).1
  refine ⟨u, hsource, ?_, fun sub hsub => declareUnitBy_eq hsub u⟩
  rw [mapM_eq_some_iff, SourceUnit.translate, List.forall₂_map_right_iff] at hsymbolic
  refine List.forall₂_iff_zip.mpr ⟨hsymbolic.length_eq, fun {c d} hmem => ?_⟩
  have hd := (List.of_mem_zip hmem).2
  have hclass := (List.forall₂_iff_zip.mp hsymbolic).2 hmem
  have hmethods := methods_of_symbolic? hclass
  rw [ClassDef.translate, List.forall₂_map_right_iff] at hmethods
  refine ⟨congrArg ClassHeader.name (classReadsAs_of_symbolic? hclass).header_eq,
    List.forall₂_iff_zip.mpr ⟨hmethods.length_eq, fun {m e} hmem' => ?_⟩⟩
  exact SourceUnit.numbersBlocks_of_mem hsource hclean hd (List.of_mem_zip hmem').2
    ((List.forall₂_iff_zip.mp hmethods).2 hmem')

/-- Blocks inside each other and next to each other, in arguments, arrays and assigned values, in a method and
in a main program, with positions marked. -/
theorem numbersBlocks_of_compileSource_nested_blocks :
    ∃ classes, (compileSource ("Object subclass: #A [ | x | m: k [ x := [:i | | t | t := [i]. {[t]. [] } ]. "
        ++ "^[k] m: [:j :l | [j]] ] p <primitive: #p> ] [A new m: [[1]]] value. [2]")
        { debugInfo := true }).result = .ok classes ∧
      classes.map (·.methods.flatMap fun m => m.blocks.map fun b => (b.name, b.blockNumbers)) =
        [[("m:-block0", [1, 2, 3]), ("m:-block1", []), ("m:-block2", []), ("m:-block3", []), ("m:-block4", []),
            ("m:-block5", [6]), ("m:-block6", [])],
          [("main-block0", [1]), ("main-block1", [2]), ("main-block2", []), ("main-block3", [])]] ∧
      ∃ u, SourceUnit.ofSource ("Object subclass: #A [ | x | m: k [ x := [:i | | t | t := [i]. {[t]. [] } ]. "
          ++ "^[k] m: [:j :l | [j]] ] p <primitive: #p> ] [A new m: [[1]]] value. [2]") = .ok u ∧
        u.NumbersBlocks ({ debugInfo := true } : CompileOptions).markedFile classes ∧
        declareUnitBy (fun a b => (UInt16.ofNat a - UInt16.ofNat b).toNat) u = declareUnit u := by
  refine exists_ok_of_map (by decide +kernel) fun classes h => ?_
  obtain ⟨u, hsource, hnumbers, hsub⟩ := numbersBlocks_of_compileSource h
  exact ⟨u, hsource, hnumbers, hsub _ subtracts_words⟩

end Success

end Smalltalk
