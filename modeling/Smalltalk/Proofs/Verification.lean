import Mathlib
import Smalltalk.Proofs.Compilation
import Smalltalk.Proofs.Soundness

/-!
# Compiled code is verified

Every class that comes out of a compilation can be run. Its bodies are read back into the direct
translation one by one: from a method to the blocks that its code makes, and on to the blocks in them.
Each body has the surroundings that its translation had, so that what the translation says about
operands and the stack carries over to bytes.
-/

namespace Smalltalk

open Bytecode

theorem exists_getElem?_of_forall₂ {α β : Type} {R : α → β → Prop} {l : List α} {l' : List β}
    (h : List.Forall₂ R l l') {j : Nat} {a : α} (ha : l[j]? = some a) : ∃ b, l'[j]? = some b ∧ R a b := by
  induction h generalizing j with
  | nil => cases ha
  | cons hab _ ih =>
    cases j with
    | zero =>
      cases ha
      exact ⟨_, rfl, hab⟩
    | succ j => exact ih ha

theorem exists_mem_of_forall₂ {α β : Type} {R : α → β → Prop} {l : List α} {l' : List β}
    (h : List.Forall₂ R l l') {a : α} (ha : a ∈ l) : ∃ b ∈ l', R a b := by
  obtain ⟨j, hj⟩ := List.mem_iff_getElem?.mp ha
  obtain ⟨b, hb, hab⟩ := exists_getElem?_of_forall₂ h hj
  exact ⟨b, List.mem_of_getElem? hb, hab⟩

/-! ## Reading instructions -/

/-- Some instructions, with their literals looked up, are symbolic code. -/
def Reads (literals : Array String) : List Instruction → List SymbolicInstruction → Prop :=
  List.Forall₂ fun i sym => i.symbolic? literals = some sym

namespace Reads

variable {literals : Array String} {instructions : List Instruction}
  {code code' : List SymbolicInstruction}

theorem exists_symbolic (h : Reads literals instructions code) {i : Instruction}
    (hi : i ∈ instructions) : ∃ sym ∈ code, i.symbolic? literals = some sym :=
  exists_mem_of_forall₂ h hi

theorem exists_instruction (h : Reads literals instructions code) {sym : SymbolicInstruction}
    (hsym : sym ∈ code) : ∃ i ∈ instructions, i.symbolic? literals = some sym :=
  exists_mem_of_forall₂ h.flip hsym

theorem map_stackEffect (h : Reads literals instructions code) :
    instructions.map Instruction.stackEffect = code.map SymbolicInstruction.stackEffect := by
  induction h with
  | nil => rfl
  | cons hi _ ih => rw [List.map_cons, List.map_cons, Instruction.stackEffect_of_symbolic? hi, ih]

theorem split (h : Reads literals instructions (code ++ code')) :
    ∃ front back, instructions = front ++ back ∧ Reads literals front code ∧ Reads literals back code' :=
  ⟨_, _, (List.take_append_drop code.length instructions).symm, List.forall₂_take_append _ _ _ h,
    List.forall₂_drop_append _ _ _ h⟩

/-- Only a return reads as a return. -/
theorem eq_singleton {i : Instruction} {sym : SymbolicInstruction} (h : Reads literals instructions [sym])
    (hunique : ∀ i' : Instruction, i'.symbolic? literals = some sym → i' = i) : instructions = [i] := by
  obtain ⟨i', rest, hi', hrest, rfl⟩ := List.forall₂_cons_right_iff.mp h
  rw [List.forall₂_nil_right_iff.mp hrest, hunique i' hi']

end Reads

theorem Bytecode.Instruction.literal_lt {literals : Array String} {i : Instruction}
    {sym : SymbolicInstruction} (h : i.symbolic? literals = some sym) {literal : UInt16}
    (hliteral : i.literal? = some literal) : literal.toNat < literals.size := by
  cases i with
  | pushLiteral | pushGlobal | send | sendSuper | mark =>
    cases hliteral
    obtain ⟨name, hname, -⟩ := Option.map_eq_some_iff.mp h
    exact (Array.getElem?_eq_some_iff.mp hname).1
  | pushNil | pushSelf | pushTrue | pushFalse | pushChar | pushInt | pushFloat | pushField | pushLocal
    | pushArray | storeField | storeLocal | pop | block | blockReturn | methodReturn => cases hliteral

section Inversion

variable {literals : Array String} {i : Instruction}

theorem symbolic?_eq_block_iff {j : Nat} : i.symbolic? literals = some (.block j) ↔
    ∃ index : UInt16, i = .block index ∧ index.toNat = j := by
  cases i <;> simp [Instruction.symbolic?]

theorem symbolic?_eq_methodReturn_iff :
    i.symbolic? literals = some .methodReturn ↔ i = .methodReturn := by
  cases i <;> simp [Instruction.symbolic?]

theorem symbolic?_eq_blockReturn_iff :
    i.symbolic? literals = some .blockReturn ↔ i = .blockReturn := by
  cases i <;> simp [Instruction.symbolic?]

theorem opcode_of_symbolic?_mark {file : String} {line column : Nat}
    (h : i.symbolic? literals = some (.mark file line column)) : i.opcode = .mark := by
  cases i <;> simp_all [Instruction.symbolic?, Instruction.opcode]

end Inversion

/-- Only empty code has no instructions. -/
theorem Bytecode.eq_nil_of_decode {bytes : List UInt8} (h : (decode bytes).failure? = none)
    (hnil : (decode bytes).instructions = []) : bytes = [] := by
  cases bytes with
  | nil => rfl
  | cons b bytes =>
    rw [decode, decodeFrom] at h hnil
    split at hnil
    · next e hread =>
      split at h
      · cases h
      · next hread' => cases hread.symm.trans hread'
    · cases hnil

/-! ## Reading bodies -/

/-- What a compiled method or block says is what a symbolic one says. -/
structure ReadsAs (literals : Array String) (c : CompiledBlock) (b : SymbolicBlock) : Prop where
  primitive_eq : c.primitive = b.primitive
  frameSize_eq : c.frameSize = b.argumentCount + b.localCount
  decoded : (decode c.code).failure? = none
  reads : Reads literals c.instructions b.code
  blocks : List.Forall₂ (fun c b => c.symbolic? literals = some b) c.blocks b.blocks

theorem readsAs_of_symbolic? {literals : Array String} {c : CompiledBlock} {b : SymbolicBlock}
    (h : c.symbolic? literals = some b) : ReadsAs literals c b := by
  obtain ⟨name, classSide, qualifiedName, primitive, argumentCount, localCount, bytes, blocks⟩ := c
  rw [CompiledBlock.symbolic?] at h
  obtain ⟨code, hcode, h⟩ := Option.bind_eq_some_iff.mp h
  obtain ⟨blocks', hblocks, h⟩ := Option.bind_eq_some_iff.mp h
  cases h
  unfold symbolicCode? at hcode
  split at hcode
  · next instructions hdecode =>
    refine ⟨rfl, rfl, by rw [hdecode], ?_, CompiledBlock.symbolicAll?_eq_some_iff.mp hblocks⟩
    rw [CompiledBlock.instructions, hdecode]
    exact mapM_eq_some_iff.mp hcode
  · cases hcode

/-- The blocks of a method, from number `k` on, read as given symbolic ones. -/
def HasBlocks (m : CompiledBlock) (literals : Array String) (k : Nat) (bs : List SymbolicBlock) : Prop :=
  ∀ (j : Nat) b, bs[j]? = some b → ∃ c, m.blocks[k + j]? = some c ∧ ReadsAs literals c b

namespace HasBlocks

variable {m : CompiledBlock} {literals : Array String} {k : Nat} {b : SymbolicBlock}
  {bs bs' : List SymbolicBlock}

theorem left (h : HasBlocks m literals k (bs ++ bs')) : HasBlocks m literals k bs := by
  intro j b hb
  refine h j b ?_
  rw [List.getElem?_append_left (List.getElem?_eq_some_iff.mp hb).1]
  exact hb

theorem right (h : HasBlocks m literals k (bs ++ bs')) : HasBlocks m literals (k + bs.length) bs' := by
  intro j b hb
  rw [Nat.add_assoc]
  refine h (bs.length + j) b ?_
  rw [List.getElem?_append_right (Nat.le_add_right _ _), Nat.add_sub_cancel_left]
  exact hb

theorem head (h : HasBlocks m literals k (b :: bs)) :
    ∃ c, m.blocks[k]? = some c ∧ ReadsAs literals c b :=
  h 0 b rfl

theorem tail (h : HasBlocks m literals k (b :: bs)) : HasBlocks m literals (k + 1) bs :=
  @right m literals k [b] bs h

end HasBlocks

/-- Whether an instruction can end a body. -/
def SymbolicInstruction.isClosing : SymbolicInstruction → Bool
  | pushSelf | blockReturn | methodReturn | mark _ _ _ => true
  | _ => false

theorem isClosing_of_mem_markAt {file : Option String} {p : Position} :
    ∀ i ∈ markAt file p, i.isClosing := by
  cases file with
  | none => exact fun i hi => absurd hi List.not_mem_nil
  | some name => exact List.forall_mem_singleton.mpr rfl

/-- A body of the method `m` has the code of statements in given surroundings, and the blocks in them
are blocks of the method. -/
structure Carries (m : CompiledBlock) (literals : Array String) (c : CompiledBlock) (s : Surroundings)
    (k : Nat) (es : List Expr) (closing : List SymbolicInstruction) : Prop where
  decoded : (decode c.code).failure? = none
  reads : Reads literals c.instructions (Expr.translateStatements s k es ++ closing)
  isClosing : ∀ i ∈ closing, i.isClosing
  hasBlocks : HasBlocks m literals k (Expr.blocksOfAll s k es)

/-- A block of the method `m`, seen from the surroundings that it stands in. -/
structure IsInner (m : CompiledBlock) (literals : Array String) (s : Surroundings) (k : Nat)
    (c : CompiledBlock) : Prop where
  blocks_eq : c.blocks = []
  carries : ∃ names es p, c.frameSize = names.length ∧
    Carries m literals c (s.enter k names) (k + 1) es (markAt s.file p ++ [.blockReturn])

section Bodies

variable {m c : CompiledBlock} {literals : Array String} {s : Surroundings} {k : Nat} {es : List Expr}
  {closing : List SymbolicInstruction}

/-- The first block of a block expression is the block itself. -/
theorem HasBlocks.exists_carries {info : NodeInfo} {params locals : List Ident} {close : Span}
    (h : HasBlocks m literals k ((Expr.block info params locals es close).blocks s k)) :
    ∃ c, m.blocks[k]? = some c ∧ c.blocks = [] ∧
      c.frameSize = (namesOf params ++ namesOf locals).length ∧
      Carries m literals c (s.enter k (namesOf params ++ namesOf locals)) (k + 1) es
        (markAt s.file close.start ++ [.blockReturn]) := by
  rw [Expr.blocks] at h
  obtain ⟨c, hc, hreads⟩ := h.head
  refine ⟨c, hc, List.forall₂_nil_right_iff.mp hreads.blocks, ?_, hreads.decoded, ?_, ?_, h.tail⟩
  · rw [hreads.frameSize_eq, List.length_append, namesOf, namesOf, List.length_map, List.length_map]
  · rw [← List.append_assoc]
    exact hreads.reads
  · exact List.forall_mem_append.mpr ⟨isClosing_of_mem_markAt, List.forall_mem_singleton.mpr rfl⟩

end Bodies

/-! ### From a body to the blocks that it makes -/

namespace Expr

variable {m : CompiledBlock} {literals : Array String}

theorem exists_isInner_of_mem_translateAll {s : Surroundings} {es : List Expr} {j : Nat}
    (h : ∀ e ∈ es, ∀ k, .block j ∈ e.translate s k → HasBlocks m literals k (e.blocks s k) →
      ∃ c, m.blocks[j]? = some c ∧ IsInner m literals s j c) :
    ∀ k, .block j ∈ translateAll s k es → HasBlocks m literals k (blocksOfAll s k es) →
      ∃ c, m.blocks[j]? = some c ∧ IsInner m literals s j c := by
  induction es with
  | nil =>
    intro k hj
    rw [translateAll] at hj
    cases hj
  | cons e es ih =>
    intro k hj hblocks
    rw [translateAll, List.mem_append] at hj
    rw [blocksOfAll] at hblocks
    rcases hj with hj | hj
    · exact h e List.mem_cons_self k hj hblocks.left
    · refine ih (fun e' he' => h e' (List.mem_cons_of_mem e he')) _ hj ?_
      have hrest := hblocks.right
      rw [e.length_blocks] at hrest
      exact hrest

/-- A block that the code of an expression makes is one of the blocks of the method, and has the
surroundings of the expression. -/
theorem exists_isInner_of_mem_translate (e : Expr) :
    ∀ s k j, .block j ∈ e.translate s k → HasBlocks m literals k (e.blocks s k) →
      ∃ c, m.blocks[j]? = some c ∧ IsInner m literals s j c := by
  induction e using tree_induction with
  | atom info value =>
    intro s k j hj
    rw [translate, List.mem_singleton] at hj
    cases value <;> cases hj
  | name info x =>
    intro s k j hj
    rw [translate, List.mem_singleton] at hj
    cases hx : s.refer x <;> rw [hx] at hj <;> cases hj
  | array info items ih =>
    intro s k j hj hblocks
    rw [translate, List.mem_append, List.mem_singleton] at hj
    rw [blocks] at hblocks
    rcases hj with hj | hj
    · exact exists_isInner_of_mem_translateAll (fun e he k => ih e he s k j) k hj hblocks
    · cases hj
  | block info params locals statements close ih =>
    intro s k j hj hblocks
    rw [translate, List.mem_singleton] at hj
    cases hj
    obtain ⟨c, hc, hnested, hsize, hcarries⟩ := hblocks.exists_carries
    exact ⟨c, hc, hnested, _, statements, close.start, hsize, hcarries⟩
  | send info receiver selector arguments ihr iha =>
    intro s k j hj hblocks
    rw [translate, List.mem_append, List.mem_append, List.mem_singleton] at hj
    rw [blocks] at hblocks
    rcases hj with (hj | hj) | hj
    · exact ihr s k j hj hblocks.left
    · have harguments := hblocks.right
      rw [receiver.length_blocks] at harguments
      exact exists_isInner_of_mem_translateAll (fun e he k => iha e he s k j) _ hj harguments
    · cases hj
  | superSend info selector arguments ih =>
    intro s k j hj hblocks
    rw [translate, List.mem_append, List.mem_cons, List.mem_singleton] at hj
    rw [blocks] at hblocks
    rcases hj with (hj | hj) | hj
    · cases hj
    · exact exists_isInner_of_mem_translateAll (fun e he k => ih e he s k j) k hj hblocks
    · cases hj
  | assign info target value iht ihv =>
    intro s k j hj hblocks
    rw [translate, List.mem_append] at hj
    rw [blocks] at hblocks
    rcases hj with hj | hj
    · have hvalue := hblocks.right
      rw [target.length_blocks] at hvalue
      exact ihv s _ j hj hvalue
    · cases target with
      | name info' x =>
        rw [storeInto] at hj
        cases hx : s.refer x with
        | global =>
          rw [hx] at hj
          cases hj
        | slot | field =>
          rw [hx, Reference.store, List.mem_singleton] at hj
          cases hj
      | atom | array | block | send | superSend | assign | ret => cases hj
  | ret info value ih =>
    intro s k j hj hblocks
    rw [translate, List.mem_append, List.mem_append, List.mem_singleton] at hj
    rw [blocks] at hblocks
    rcases hj with (hj | hj) | hj
    · exact ih s k j hj hblocks
    · cases isClosing_of_mem_markAt _ hj
    · cases hj

end Expr

section Bodies

variable {m c : CompiledBlock} {literals : Array String} {s : Surroundings} {k : Nat} {es : List Expr}
  {closing : List SymbolicInstruction}

/-- What an instruction of a body says, unless it only ends the body, is said by the statements. -/
theorem Carries.exists_symbolic (h : Carries m literals c s k es closing) {i : Instruction}
    (hi : i ∈ c.instructions) : ∃ sym, i.symbolic? literals = some sym ∧
      (sym ∈ Expr.translateStatements s k es ∨ sym.isClosing) := by
  obtain ⟨sym, hmem, hsym⟩ := h.reads.exists_symbolic hi
  rcases List.mem_append.mp hmem with hmem | hmem
  · exact ⟨sym, hsym, Or.inl hmem⟩
  · exact ⟨sym, hsym, Or.inr (h.isClosing sym hmem)⟩

/-- A step from a body to a block that it makes. -/
theorem Carries.exists_isInner (h : Carries m literals c s k es closing) {i : UInt16}
    (hi : .block i ∈ c.instructions) :
    ∃ b, m.blocks[i.toNat]? = some b ∧ IsInner m literals s i.toNat b := by
  obtain ⟨sym, hsym, hmem⟩ := h.exists_symbolic hi
  cases hsym
  rcases hmem with hmem | hclosing
  · rw [Expr.mem_translateStatements SymbolicInstruction.noConfusion] at hmem
    exact Expr.exists_isInner_of_mem_translateAll
      (fun e _ k => e.exists_isInner_of_mem_translate s k i.toNat) k hmem h.hasBlocks
  · cases hclosing

/-- All bodies of a method carry statements in surroundings with the frames that they reach. -/
theorem Carries.of_reaches (h : Carries m literals m s k es closing)
    (hframes : s.frames.map List.length = [m.frameSize]) {frames : List Nat} (hreaches : m.Reaches c frames) :
    ∃ s' k' es' closing', Carries m literals c s' k' es' closing' ∧ s'.frames.map List.length = frames ∧
      s'.layers = s.layers := by
  induction hreaches with
  | method => exact ⟨s, k, es, closing, h, hframes, rfl⟩
  | block houter hi hb ih =>
    obtain ⟨s', k', es', closing', hcarries, hframes', hlayers⟩ := ih
    obtain ⟨b', hb', hinner⟩ := hcarries.exists_isInner hi
    obtain rfl := Option.some.inj (hb.symm.trans hb')
    obtain ⟨names, inner, p, hsize, hcarries'⟩ := hinner.carries
    refine ⟨_, _, inner, _, hcarries', ?_, hlayers⟩
    rw [Surroundings.enter, List.map_cons, hframes', hsize]

end Bodies

/-! ### From a block to the body that makes it -/

/-- The blocks with numbers from `k` up to, and without, `l` are made by bodies of the method. -/
def MadeBetween (m : CompiledBlock) (k l : Nat) : Prop :=
  ∀ j, k ≤ j → j < l → ∃ outer frames i, m.Reaches outer frames ∧ .block i ∈ outer.instructions ∧
    i.toNat = j

/-- A body makes all blocks that some code makes. -/
def Makes (c : CompiledBlock) (code : List SymbolicInstruction) : Prop :=
  ∀ j, .block j ∈ code → ∃ i : UInt16, .block i ∈ c.instructions ∧ i.toNat = j

section Making

variable {m c : CompiledBlock} {literals : Array String}

theorem MadeBetween.append {k l n : Nat} (h : MadeBetween m k l) (h' : MadeBetween m l n) :
    MadeBetween m k n := by
  intro j hk hn
  by_cases hl : j < l
  · exact h j hk hl
  · exact h' j (by omega) hn

theorem Makes.mono {code code' : List SymbolicInstruction} (h : Makes c code') (hsub : code ⊆ code') :
    Makes c code :=
  fun j hj => h j (hsub hj)

theorem Reads.makes {code : List SymbolicInstruction} (h : Reads literals c.instructions code) :
    Makes c code := by
  intro j hj
  obtain ⟨i, hi, hsym⟩ := h.exists_instruction hj
  obtain ⟨index, rfl, hindex⟩ := symbolic?_eq_block_iff.mp hsym
  exact ⟨index, hi, hindex⟩

theorem Carries.makes {s : Surroundings} {k : Nat} {es : List Expr} {closing : List SymbolicInstruction}
    (h : Carries m literals c s k es closing) : Makes c (Expr.translateAll s k es) := by
  intro j hj
  refine h.reads.makes j (List.mem_append_left _ ?_)
  exact (Expr.mem_translateStatements SymbolicInstruction.noConfusion).mpr hj

end Making

namespace Expr

variable {m : CompiledBlock} {literals : Array String}

theorem madeBetween_of_translateAll {es : List Expr} {s : Surroundings} {outer : CompiledBlock}
    (h : ∀ e ∈ es, ∀ k, Makes outer (e.translate s k) → HasBlocks m literals k (e.blocks s k) →
      MadeBetween m k (k + e.blockCount)) :
    ∀ k, Makes outer (translateAll s k es) → HasBlocks m literals k (blocksOfAll s k es) →
      MadeBetween m k (k + blockCountOfAll es) := by
  induction es with
  | nil =>
    intro k _ _ j hk hj
    rw [blockCountOfAll] at hj
    omega
  | cons e es ih =>
    intro k hmakes hblocks
    rw [translateAll] at hmakes
    rw [blocksOfAll] at hblocks
    have hfirst := h e List.mem_cons_self k (hmakes.mono (List.subset_append_left _ _)) hblocks.left
    have hrest := hblocks.right
    rw [e.length_blocks] at hrest
    rw [blockCountOfAll, ← Nat.add_assoc]
    exact hfirst.append (ih (fun e' he' => h e' (List.mem_cons_of_mem e he')) _
      (hmakes.mono (List.subset_append_right _ _)) hrest)

/-- If a body makes the blocks that the code of an expression makes, all blocks in the expression are
made by some body. -/
theorem madeBetween_of_translate (e : Expr) (hproper : ∀ n ∈ e.nodes, n.IsProper) :
    ∀ s outer frames k, m.Reaches outer frames → Makes outer (e.translate s k) →
      HasBlocks m literals k (e.blocks s k) → MadeBetween m k (k + e.blockCount) := by
  induction e using tree_induction with
  | atom info value =>
    intro s outer frames k _ _ _ j hk hj
    rw [blockCount] at hj
    omega
  | name info x =>
    intro s outer frames k _ _ _ j hk hj
    rw [blockCount] at hj
    omega
  | array info items ih =>
    intro s outer frames k hreaches hmakes hblocks
    obtain ⟨-, hitems⟩ := (forall_nodes_iff _).mp hproper
    rw [translate] at hmakes
    rw [blocks] at hblocks
    rw [blockCount]
    exact madeBetween_of_translateAll
      (fun e he k => ih e he (hitems e he) s outer frames k hreaches) k
      (hmakes.mono (List.subset_append_left _ _)) hblocks
  | block info params locals statements close ih =>
    intro s outer frames k hreaches hmakes hblocks
    obtain ⟨-, hstatements⟩ := (forall_nodes_iff _).mp hproper
    rw [translate] at hmakes
    obtain ⟨i, hi, rfl⟩ := hmakes k List.mem_cons_self
    obtain ⟨c, hc, -, -, hcarries⟩ := hblocks.exists_carries
    have hitself : MadeBetween m i.toNat (i.toNat + 1) := by
      intro j hk hj
      exact ⟨outer, frames, i, hreaches, hi, by omega⟩
    have hinside := madeBetween_of_translateAll
      (fun e he k => ih e he (hstatements e he) _ c _ k (hreaches.block hi hc)) _ hcarries.makes
      hcarries.hasBlocks
    rw [blockCount, ← Nat.add_assoc]
    exact hitself.append hinside
  | send info receiver selector arguments ihr iha =>
    intro s outer frames k hreaches hmakes hblocks
    obtain ⟨-, hparts⟩ := (forall_nodes_iff _).mp hproper
    rw [translate] at hmakes
    rw [blocks] at hblocks
    have hmakes' := hmakes.mono (List.subset_append_left _ _)
    have hreceiver := ihr (hparts receiver List.mem_cons_self) s outer frames k hreaches
      (hmakes'.mono (List.subset_append_left _ _)) hblocks.left
    have hrest := hblocks.right
    rw [receiver.length_blocks] at hrest
    rw [blockCount, ← Nat.add_assoc]
    exact hreceiver.append (madeBetween_of_translateAll
      (fun e he k => iha e he (hparts e (List.mem_cons_of_mem _ he)) s outer frames k hreaches) _
      (hmakes'.mono (List.subset_append_right _ _)) hrest)
  | superSend info selector arguments ih =>
    intro s outer frames k hreaches hmakes hblocks
    obtain ⟨-, harguments⟩ := (forall_nodes_iff _).mp hproper
    rw [translate] at hmakes
    rw [blocks] at hblocks
    rw [blockCount]
    refine madeBetween_of_translateAll
      (fun e he k => ih e he (harguments e he) s outer frames k hreaches) k (hmakes.mono ?_) hblocks
    exact List.Subset.trans (List.subset_cons_self _ _) (List.subset_append_left _ _)
  | assign info target value iht ihv =>
    intro s outer frames k hreaches hmakes hblocks
    obtain ⟨htarget, hparts⟩ := (forall_nodes_iff _).mp hproper
    have hname : target.isName := htarget
    cases target with
    | name info' x =>
      rw [translate] at hmakes
      rw [blocks] at hblocks
      have hcount : (Expr.name info' x).blockCount = 0 := by rw [blockCount]
      have hvalue := hblocks.right
      rw [length_blocks, hcount] at hvalue
      rw [hcount] at hmakes
      rw [blockCount, hcount, Nat.zero_add]
      exact ihv (hparts value (List.mem_cons_of_mem _ List.mem_cons_self)) s outer frames k hreaches
        (hmakes.mono (List.subset_append_left _ _)) hvalue
    | atom | array | block | send | superSend | assign | ret => cases hname
  | ret info value ih =>
    intro s outer frames k hreaches hmakes hblocks
    obtain ⟨-, hvalue⟩ := (forall_nodes_iff _).mp hproper
    rw [translate, List.append_assoc] at hmakes
    rw [blocks] at hblocks
    rw [blockCount]
    exact ih (hvalue value List.mem_cons_self) s outer frames k hreaches
      (hmakes.mono (List.subset_append_left _ _)) hblocks

end Expr

/-! ## Verified bodies -/

section Bodies

variable {m c : CompiledBlock} {literals : Array String} {s : Surroundings} {k : Nat} {es : List Expr}
  {closing : List SymbolicInstruction}

/-- The operands of a body are in range. -/
theorem Carries.operandsVerified (h : Carries m literals c s k es closing) :
    OperandsVerified ⟨literals.size, fieldTotal s.layers, m.blocks.length⟩ (s.frames.map List.length)
      c.instructions := by
  -- instructions that end a body have no operand that could be out of range
  have hsound : ∀ i ∈ c.instructions, ∀ sym, i.symbolic? literals = some sym → sym.isClosing = false →
      sym.Sound s := by
    intro i hi sym hsym hopen
    obtain ⟨sym', hsym', hmem⟩ := h.exists_symbolic hi
    obtain rfl := Option.some.inj (hsym.symm.trans hsym')
    rcases hmem with hmem | hclosing
    · exact Expr.sound_translateStatements s k es sym hmem
    · rw [hopen] at hclosing
      cases hclosing
  have hslot : ∀ (depth slot : Nat), (∃ frame, s.frames[depth]? = some frame ∧ slot < frame.length) →
      ∃ size, (s.frames.map List.length)[depth]? = some size ∧ slot < size := by
    rintro depth slot ⟨frame, hframe, hlt⟩
    exact ⟨frame.length, by rw [List.getElem?_map, hframe, Option.map_some], hlt⟩
  refine ⟨fun i hi literal hliteral => ?_, fun index hi => ?_, fun depth slot hi => ?_, fun index hi => ?_⟩
  · obtain ⟨sym, hsym, -⟩ := h.exists_symbolic hi
    exact Instruction.literal_lt hsym hliteral
  · obtain ⟨b, hb, -⟩ := h.exists_isInner hi
    exact (List.getElem?_eq_some_iff.mp hb).1
  · rcases hi with hi | hi
    · exact hslot _ _ (hsound _ hi _ rfl rfl)
    · exact hslot _ _ (hsound _ hi _ rfl rfl)
  · rcases hi with hi | hi
    · exact hsound _ hi _ rfl rfl
    · exact hsound _ hi _ rfl rfl

/-- The code of a method never takes more from the stack than is there, and ends by returning. -/
theorem Carries.methodStackVerified {p : Position}
    (h : Carries m literals c s k es (markAt s.file p ++ [.pushSelf, .methodReturn])) :
    MethodStackVerified c.instructions := by
  have hreads := h.reads
  refine ⟨fun hmem => ?_, ?_, ?_⟩
  · obtain ⟨sym, hmem, hsym⟩ := hreads.exists_symbolic hmem
    cases hsym
    rw [List.mem_append, List.mem_append] at hmem
    rcases hmem with hmem | hmem | hmem
    · exact Expr.sound_translateStatements s k es _ hmem
    · exact Expr.sound_markAt s s.file p _ hmem
    · simp at hmem
  · have hcode : Expr.translateStatements s k es ++ (markAt s.file p ++ [.pushSelf, .methodReturn])
        = (Expr.translateStatements s k es ++ markAt s.file p ++ [.pushSelf]) ++ [.methodReturn] := by
      simp
    rw [hcode] at hreads
    obtain ⟨front, back, heq, -, hback⟩ := hreads.split
    rw [heq, hback.eq_singleton fun _ => symbolic?_eq_methodReturn_iff.mp, List.getLast?_concat]
  · have hstatements := Expr.moves_translateStatements s k es 0
    generalize (if es = [] then 0 else 0 + 1) = depth at hstatements
    have hclosing : Moves [.pushSelf, .methodReturn] depth (depth + 1) :=
      @Moves.append [.pushSelf] _ _ _ _ (.single (Nat.zero_le depth) rfl)
        (.single (Nat.le_add_left 1 depth) rfl)
    have hmoves := hstatements.append ((Moves.mark s.file p depth).append hclosing)
    rw [hreads.map_stackEffect, hmoves]
    rfl

theorem depthAfter_of_marks {instructions : List Instruction}
    (h : ∀ i ∈ instructions, i.opcode = .mark) (depth : Nat) :
    depthAfter (instructions.map Instruction.stackEffect) depth = some depth := by
  induction instructions with
  | nil => rfl
  | cons i instructions ih =>
    obtain ⟨hi, hrest⟩ := List.forall_mem_cons.mp h
    have heffect : i.stackEffect = (0, 0) := by
      cases i <;> first | rfl | cases hi
    rw [List.map_cons, heffect, depthAfter, if_pos (Nat.zero_le depth)]
    exact ih hrest

/-- The code of a block never takes more from the stack than is there, and returns one value if there
are statements. -/
theorem Carries.blockStackVerified {p : Position} {file : Option String}
    (h : Carries m literals c s k es (markAt file p ++ [.blockReturn])) :
    BlockStackVerified c.instructions := by
  have hreads := h.reads
  rw [← List.append_assoc] at hreads
  obtain ⟨front, back, heq, hfront, hback⟩ := hreads.split
  rw [hback.eq_singleton fun _ => symbolic?_eq_blockReturn_iff.mp] at heq
  have hdepth := ((Expr.moves_translateStatements s k es 0).append (.mark file p _))
  rw [Moves, ← hfront.map_stackEffect] at hdepth
  refine ⟨front, heq, fun hmem => ?_, hdepth.trans ?_⟩
  · obtain ⟨sym, hmem, hsym⟩ := hfront.exists_symbolic hmem
    cases hsym
    rcases List.mem_append.mp hmem with hmem | hmem
    · exact Expr.sound_translateStatements s k es _ hmem
    · exact Expr.sound_markAt s file p _ hmem
  · by_cases hes : es = []
    · have hmarks : ∀ i ∈ front, i.opcode = .mark := by
        intro i hi
        obtain ⟨sym, hmem, hsym⟩ := hfront.exists_symbolic hi
        rw [hes] at hmem
        cases file with
        | none => cases hmem
        | some name =>
          cases List.mem_singleton.mp hmem
          exact opcode_of_symbolic?_mark hsym
      rw [if_pos hes, if_pos hmarks]
    · -- if all instructions were marks, there would be no value on the stack
      have hmarks : ¬ ∀ i ∈ front, i.opcode = .mark := by
        intro hmarks
        rw [depthAfter_of_marks hmarks, if_neg hes] at hdepth
        cases hdepth
      rw [if_neg hes, if_neg hmarks]

end Bodies

/-! ## Verified methods and classes -/

theorem ReadsAs.hasBlocks {literals : Array String} {m : CompiledBlock} {b : SymbolicBlock}
    (h : ReadsAs literals m b) : HasBlocks m literals 0 b.blocks := by
  intro j b hb
  obtain ⟨c, hc, hsymbolic⟩ := exists_getElem?_of_forall₂ h.blocks.flip hb
  rw [Nat.zero_add]
  exact ⟨c, hc, readsAs_of_symbolic? hsymbolic⟩

section Methods

variable {m : CompiledBlock} {literals : Array String} {d : MethodDef} {body : Body}
  {file : Option String} {layers : List (List String)} {owner : String}

/-- A compiled method carries its statements. -/
theorem ReadsAs.carries (h : ReadsAs literals m (d.translate file layers owner))
    (hbody : d.body = .code body) :
    Carries m literals m (d.surroundings file layers owner body.locals) 0 body.statements
      (markAt file d.close.start ++ [.pushSelf, .methodReturn]) := by
  rw [MethodDef.translate, hbody] at h
  refine ⟨h.decoded, ?_, ?_, h.hasBlocks⟩
  · rw [← List.append_assoc]
    exact h.reads
  · exact List.forall_mem_append.mpr ⟨isClosing_of_mem_markAt, by simp [SymbolicInstruction.isClosing]⟩

theorem ReadsAs.map_length_frames (h : ReadsAs literals m (d.translate file layers owner))
    (hbody : d.body = .code body) :
    (d.surroundings file layers owner body.locals).frames.map List.length = [m.frameSize] := by
  rw [h.frameSize_eq, MethodDef.translate, hbody, MethodDef.surroundings]
  simp [namesOf]

theorem ReadsAs.length_blocks (h : ReadsAs literals m (d.translate file layers owner))
    (hbody : d.body = .code body) : m.blocks.length = Expr.blockCountOfAll body.statements := by
  rw [h.blocks.length_eq, MethodDef.translate, hbody]
  exact Expr.length_blocksOfAll (fun e _ => e.length_blocks) _ _

/-- Every block of a compiled method is made by one of its bodies. -/
theorem ReadsAs.exists_reaches (h : ReadsAs literals m (d.translate file layers owner))
    (hbody : d.body = .code body) (hproper : ∀ n ∈ Expr.nodesOfAll body.statements, n.IsProper)
    {b : CompiledBlock} (hb : b ∈ m.blocks) :
    ∃ frames, m.Reaches b frames ∧ ∃ s k, IsInner m literals s k b := by
  have hcarries := h.carries hbody
  have hmade := Expr.madeBetween_of_translateAll
    (fun e he k => e.madeBetween_of_translate
      (fun n hn => hproper n (Expr.mem_nodesOfAll.mpr ⟨e, he, hn⟩)) _ m _ k .method) 0
    hcarries.makes hcarries.hasBlocks
  obtain ⟨j, hj⟩ := List.mem_iff_getElem?.mp hb
  have hlt : j < 0 + Expr.blockCountOfAll body.statements := by
    rw [Nat.zero_add, ← h.length_blocks hbody]
    exact (List.getElem?_eq_some_iff.mp hj).1
  obtain ⟨outer, frames, i, hreaches, hi, rfl⟩ := hmade j (Nat.zero_le j) hlt
  refine ⟨_, hreaches.block hi hj, ?_⟩
  obtain ⟨s, k, es, closing, houter, -, -⟩ := hcarries.of_reaches (h.map_length_frames hbody) hreaches
  obtain ⟨b', hb', hinner⟩ := houter.exists_isInner hi
  obtain rfl := Option.some.inj (hj.symm.trans hb')
  exact ⟨s, i.toNat, hinner⟩

theorem ReadsAs.methodVerified (h : ReadsAs literals m (d.translate file layers owner))
    (hbody : d.body = .code body) (hproper : ∀ n ∈ Expr.nodesOfAll body.statements, n.IsProper) :
    MethodVerified literals.size (fieldTotal layers) m := by
  have hcarries := h.carries hbody
  have hframes := h.map_length_frames hbody
  refine ⟨fun b hb => ?_, fun b frames hb => ?_, fun b frames hb => ?_, hcarries.methodStackVerified,
    fun b hb => ?_⟩
  · obtain ⟨frames, hreaches, s, k, hinner⟩ := h.exists_reaches hbody hproper hb
    exact ⟨hinner.blocks_eq, frames, hreaches⟩
  · obtain ⟨s, k, es, closing, hbodyOf, -, -⟩ := hcarries.of_reaches hframes hb
    exact hbodyOf.decoded
  · obtain ⟨s, k, es, closing, hbodyOf, rfl, hlayers⟩ := hcarries.of_reaches hframes hb
    have hoperands := hbodyOf.operandsVerified
    rw [hlayers] at hoperands
    exact hoperands
  · obtain ⟨frames, -, s, k, hinner⟩ := h.exists_reaches hbody hproper hb
    obtain ⟨names, es, p, -, hblock⟩ := hinner.carries
    exact hblock.blockStackVerified

end Methods

/-- A compiled class reads as a class that is translated. -/
structure ClassReadsAs (c : CompiledClass) (sym : SymbolicClass) : Prop where
  header_eq : c.header = ⟨sym.name, sym.superclass, sym.fields⟩
  methods : List.Forall₂ (ReadsAs c.literals) c.methods sym.methods

theorem classReadsAs_of_symbolic? {c : CompiledClass} {sym : SymbolicClass} (h : c.symbolic? = some sym) :
    ClassReadsAs c sym := by
  obtain ⟨methods, hmethods, h⟩ := Option.bind_eq_some_iff.mp h
  cases h
  exact ⟨rfl, (CompiledBlock.symbolicAll?_eq_some_iff.mp hmethods).imp fun _ _ => readsAs_of_symbolic?⟩

section Classes

variable {c : CompiledClass} {classes : List CompiledClass} {d : ClassDef} {all : List ClassDef}
  {file : Option String}

/-- A class that reads as its direct translation can be run, next to classes with the same headers. -/
theorem ClassReadsAs.classVerified (h : ClassReadsAs c (d.translate file all))
    (hheaders : classes.map CompiledClass.header = all.map ClassDef.header)
    (hproper : ∀ m ∈ d.methods, ∀ n ∈ Expr.nodesOfAll m.body.statements, n.IsProper) :
    ClassVerified classes c := by
  have hfields : c.fieldTotal classes = fieldTotal (d.layers all) := by
    rw [CompiledClass.fieldTotal, h.header_eq, hheaders]
    rfl
  have hmethod : ∀ m ∈ c.methods, ∃ md ∈ d.methods,
      ReadsAs c.literals m (md.translate file (d.layers all) d.name.name) := by
    intro m hm
    obtain ⟨b, hb, hreads⟩ := exists_mem_of_forall₂ h.methods hm
    obtain ⟨md, hmd, rfl⟩ := List.mem_map.mp hb
    exact ⟨md, hmd, hreads⟩
  refine ⟨fun m hm hprimitive => ?_, fun m hm hprimitive => ?_⟩
  · obtain ⟨md, -, hreads⟩ := hmethod m hm
    rw [CompiledBlock.isPrimitive, hreads.primitive_eq] at hprimitive
    cases hbody : md.body with
    | primitive name =>
      rw [MethodDef.translate, hbody] at hreads
      have hnil := List.forall₂_nil_right_iff.mp hreads.reads
      exact ⟨eq_nil_of_decode hreads.decoded hnil, List.forall₂_nil_right_iff.mp hreads.blocks⟩
    | code body =>
      rw [MethodDef.translate, hbody] at hprimitive
      cases hprimitive
  · obtain ⟨md, hmd, hreads⟩ := hmethod m hm
    rw [CompiledBlock.isPrimitive, hreads.primitive_eq] at hprimitive
    cases hbody : md.body with
    | primitive name =>
      rw [MethodDef.translate, hbody] at hprimitive
      cases hprimitive
    | code body =>
      have hproper' := hproper md hmd
      rw [hbody] at hproper'
      rw [hfields]
      exact hreads.methodVerified hbody hproper'

end Classes

section Success

variable {source : String} {options : CompileOptions} {classes : List CompiledClass}

/-- Every class that comes out of a compilation can be run. -/
theorem classVerified_of_compileSource (h : (compileSource source options).result = .ok classes) :
    ∀ c ∈ classes, ClassVerified classes c := by
  obtain ⟨u, hsource, -, -, hsymbolic⟩ := exists_unit_of_ok h
  have hreads : List.Forall₂
      (fun c d => ClassReadsAs c (ClassDef.translate options.markedFile u.allClasses d))
      classes u.allClasses := by
    rw [mapM_eq_some_iff, SourceUnit.translate, List.forall₂_map_right_iff] at hsymbolic
    exact hsymbolic.imp fun _ _ => classReadsAs_of_symbolic?
  have hheaders : classes.map CompiledClass.header = u.allClasses.map ClassDef.header := by
    rw [← List.forall₂_eq_eq_eq, List.forall₂_map_left_iff, List.forall₂_map_right_iff]
    exact hreads.imp fun _ _ hclass => hclass.header_eq
  intro c hc
  obtain ⟨d, hd, hclass⟩ := exists_mem_of_forall₂ hreads hc
  exact hclass.classVerified hheaders fun m hm =>
    SourceUnit.isProper_of_mem (built_of_ofSource hsource) hd hm

/-- Inherited fields, nested and empty blocks, a part of the machine and a main program, with positions
marked. -/
theorem classVerified_of_compileSource_nested_blocks :
    ∃ classes, (compileSource ("A subclass: #B [ | z | at: z [ ^super at: z ] p <primitive: #p> ] "
        ++ "Object subclass: #A [ | x y | at: k [ ^[:i | y := x + i. [k. [] ]] ] ] B new at: 1")
        { debugInfo := true }).result = .ok classes ∧
      classes.map (fun c => (c.fields, c.methods.flatMap fun m => m.blocks.map (·.instructions))) =
        [(["z"], []),
          (["x", "y"], [[.pushField 0, .pushLocal 0 0, .send 1 0, .storeField 1, .pop, .block 1, .mark 1 1 131,
              .blockReturn],
            [.pushLocal 2 0, .pop, .block 2, .mark 1 1 130, .blockReturn], [.mark 1 1 128, .blockReturn]]),
          ([], [])] ∧
      ∀ c ∈ classes, ClassVerified classes c :=
  exists_ok_of_map (by decide +kernel) fun _ h => classVerified_of_compileSource h

end Success

end Smalltalk
