import Mathlib
import Smalltalk.Proofs.LiteralUse
import Smalltalk.Proofs.StringLiterals

/-!
# Strings from a text to compiled code

Every string in a program becomes one instruction that pushes it. The strings that compiled code pushes can be
listed from its instructions and its literal table alone, if the code of a block is gone through where the block
is made. For a program that compiles these are the strings of the source, in the order of the text.
-/

namespace Smalltalk

open Bytecode

/-! ## Pushes -/

/-- The strings that instructions push, in order. The code of a block is gone through where the block is made,
before the instructions that follow. An instruction decides which rule applies to it, so that there is at most
one such list. -/
inductive Pushes (literals : Array String) (blocks : List CompiledBlock) :
    List Instruction → List String → Prop where
  | nil : Pushes literals blocks [] []
  | literal {index : UInt16} {text : String} {rest : List Instruction} {texts : List String} :
    literals[index.toNat]? = some text → Pushes literals blocks rest texts →
    Pushes literals blocks (.pushLiteral index :: rest) (text :: texts)
  | block {k : UInt16} {b : CompiledBlock} {rest : List Instruction} {inside texts : List String} :
    blocks[k.toNat]? = some b → Pushes literals blocks b.instructions inside →
    Pushes literals blocks rest texts → Pushes literals blocks (.block k :: rest) (inside ++ texts)
  | plain {i : Instruction} {rest : List Instruction} {texts : List String} :
    (∀ index, i ≠ .pushLiteral index) → (∀ k, i ≠ .block k) → Pushes literals blocks rest texts →
    Pushes literals blocks (i :: rest) texts

/-- Whether an instruction neither pushes a string nor makes a block. -/
def SymbolicInstruction.isPlain : SymbolicInstruction → Bool
  | pushString _ | block _ => false
  | _ => true

section Pushes

variable {literals : Array String} {blocks : List CompiledBlock} {is is' : List Instruction}
  {texts texts' : List String} {code : List SymbolicInstruction}

theorem Pushes.append (h : Pushes literals blocks is texts) (h' : Pushes literals blocks is' texts') :
    Pushes literals blocks (is ++ is') (texts ++ texts') := by
  induction h with
  | nil => exact h'
  | literal htext _ ih => exact .literal htext ih
  | block hb hinside _ _ ih =>
    rw [List.append_assoc]
    exact .block hb hinside ih
  | plain hpush hblock _ ih => exact .plain hpush hblock ih

theorem Pushes.append_nil (h : Pushes literals blocks is texts) (h' : Pushes literals blocks is' []) :
    Pushes literals blocks (is ++ is') texts := by
  have hall := h.append h'
  rwa [List.append_nil] at hall

/-- Plain code pushes no strings. -/
theorem Reads.pushes_nil (h : Reads literals is code) (hplain : ∀ sym ∈ code, sym.isPlain) :
    Pushes literals blocks is [] := by
  induction h with
  | nil => exact .nil
  | @cons i sym is code hi _ ih =>
    obtain ⟨hsym, hcode⟩ := List.forall_mem_cons.mp hplain
    refine .plain ?_ ?_ (ih hcode)
    · rintro index rfl
      obtain ⟨name, -, rfl⟩ := Option.map_eq_some_iff.mp hi
      cases hsym
    · rintro k rfl
      cases hi
      cases hsym

theorem Reads.pushes_string {text : String} (h : Reads literals is [.pushString text]) :
    Pushes literals blocks is [text] := by
  obtain ⟨i, rest, hi, hrest, rfl⟩ := List.forall₂_cons_right_iff.mp h
  rw [List.forall₂_nil_right_iff.mp hrest]
  cases i with
  | pushLiteral index =>
    obtain ⟨name, hname, heq⟩ := Option.map_eq_some_iff.mp hi
    cases heq
    exact .literal hname .nil
  | pushGlobal | send | sendSuper | mark =>
    obtain ⟨name, -, heq⟩ := Option.map_eq_some_iff.mp hi
    cases heq
  | _ => cases hi

end Pushes

theorem isPlain_markAt (file : Option String) (p : Position) : ∀ sym ∈ markAt file p, sym.isPlain := by
  cases file with
  | none => exact fun sym hsym => absurd hsym List.not_mem_nil
  | some name => exact List.forall_mem_singleton.mpr rfl

/-! ## The code of a tree -/

namespace Expr

variable {m : CompiledBlock} {literals : Array String}

/-- The code of an expression pushes the strings in it, wherever the expression stands. -/
def PushesAtoms (m : CompiledBlock) (literals : Array String) (e : Expr) : Prop :=
  ∀ s k is, Reads literals is (e.translate s k) → HasBlocks m literals k (e.blocks s k) →
    Pushes literals m.blocks is (stringAtoms [e])

theorem isPlain_storeInto (s : Surroundings) (e : Expr) : ∀ sym ∈ e.storeInto s, sym.isPlain := by
  cases e with
  | name info x =>
    rw [storeInto]
    cases s.refer x with
    | slot | field => exact List.forall_mem_singleton.mpr rfl
    | global => exact fun sym hsym => absurd hsym List.not_mem_nil
  | _ => exact fun sym hsym => absurd hsym List.not_mem_nil

theorem pushes_translateAll {es : List Expr} (h : ∀ e ∈ es, e.PushesAtoms m literals) (s : Surroundings) (k : Nat)
    {is : List Instruction} (hreads : Reads literals is (translateAll s k es))
    (hblocks : HasBlocks m literals k (blocksOfAll s k es)) : Pushes literals m.blocks is (stringAtoms es) := by
  induction es generalizing k is with
  | nil =>
    rw [translateAll] at hreads
    rw [List.forall₂_nil_right_iff.mp hreads, stringAtoms_nil]
    exact .nil
  | cons e es ih =>
    obtain ⟨he, hes⟩ := List.forall_mem_cons.mp h
    rw [translateAll] at hreads
    rw [blocksOfAll] at hblocks
    obtain ⟨front, back, rfl, hfront, hback⟩ := hreads.split
    have hrest := hblocks.right
    rw [length_blocks] at hrest
    rw [stringAtoms_cons]
    exact (he s k _ hfront hblocks.left).append (ih hes _ hback hrest)

theorem pushes_translateStatements {es : List Expr} (h : ∀ e ∈ es, e.PushesAtoms m literals) (s : Surroundings)
    (k : Nat) {is : List Instruction} (hreads : Reads literals is (translateStatements s k es))
    (hblocks : HasBlocks m literals k (blocksOfAll s k es)) : Pushes literals m.blocks is (stringAtoms es) := by
  induction es generalizing k is with
  | nil =>
    rw [translateStatements] at hreads
    rw [List.forall₂_nil_right_iff.mp hreads, stringAtoms_nil]
    exact .nil
  | cons e es ih =>
    obtain ⟨he, hes⟩ := List.forall_mem_cons.mp h
    rw [blocksOfAll] at hblocks
    have hrest := hblocks.right
    rw [length_blocks] at hrest
    cases es with
    | nil =>
      rw [translateStatements] at hreads
      exact he s k _ hreads hblocks.left
    | cons f es =>
      rw [translateStatements_cons_cons] at hreads
      obtain ⟨front, back, rfl, hfront, hback⟩ := hreads.split
      obtain ⟨front, pop, rfl, hfront, hpop⟩ := Reads.split hfront
      have hfirst := (he s k _ hfront hblocks.left).append_nil
        (hpop.pushes_nil (List.forall_mem_singleton.mpr rfl))
      rw [stringAtoms_cons]
      exact hfirst.append (ih hes _ hback hrest)

theorem isPlain_of_isClosing {sym : SymbolicInstruction} (h : sym.isClosing) : sym.isPlain := by
  cases sym with
  | pushString | block => cases h
  | _ => rfl

/-- A body pushes the strings in its statements. -/
theorem pushes_of_carries {c : CompiledBlock} {s : Surroundings} {k : Nat} {es : List Expr}
    {closing : List SymbolicInstruction} (h : Carries m literals c s k es closing)
    (hes : ∀ e ∈ es, e.PushesAtoms m literals) : Pushes literals m.blocks c.instructions (stringAtoms es) := by
  obtain ⟨front, back, hsplit, hfront, hback⟩ := h.reads.split
  rw [hsplit]
  exact (pushes_translateStatements hes s k hfront h.hasBlocks).append_nil
    (hback.pushes_nil fun sym hsym => isPlain_of_isClosing (h.isClosing sym hsym))

theorem pushesAtoms (e : Expr) (h : ∀ n ∈ e.nodes, n.IsProper) : e.PushesAtoms m literals := by
  induction e using tree_induction with
  | atom info value =>
    intro s k is hreads _
    rw [translate] at hreads
    rw [stringAtoms_singleton]
    cases value with
    | string text => exact hreads.pushes_string
    | _ => exact hreads.pushes_nil (List.forall_mem_singleton.mpr rfl)
  | name info x =>
    intro s k is hreads _
    rw [translate] at hreads
    rw [stringAtoms_of_string?_eq_none rfl]
    refine hreads.pushes_nil (List.forall_mem_singleton.mpr ?_)
    cases s.refer x <;> rfl
  | array info items ih =>
    intro s k is hreads hblocks
    obtain ⟨-, hitems⟩ := (forall_nodes_iff _).mp h
    rw [translate] at hreads
    rw [blocks] at hblocks
    rw [stringAtoms_of_string?_eq_none rfl]
    obtain ⟨front, back, rfl, hfront, hback⟩ := hreads.split
    exact (pushes_translateAll (fun e he => ih e he (hitems e he)) s k hfront hblocks).append_nil
      (hback.pushes_nil (List.forall_mem_singleton.mpr rfl))
  | block info params locals statements close ih =>
    intro s k is hreads hblocks
    obtain ⟨-, hstatements⟩ := (forall_nodes_iff _).mp h
    rw [translate] at hreads
    rw [stringAtoms_of_string?_eq_none rfl]
    obtain ⟨i, rest, hi, hrest, rfl⟩ := List.forall₂_cons_right_iff.mp hreads
    obtain ⟨index, rfl, rfl⟩ := symbolic?_eq_block_iff.mp hi
    obtain ⟨c, hc, -, -, hcarries⟩ := hblocks.exists_carries
    have hinside := pushes_of_carries hcarries fun e he => ih e he (hstatements e he)
    rw [List.forall₂_nil_right_iff.mp hrest, ← List.append_nil (stringAtoms _)]
    exact .block hc hinside .nil
  | send info receiver selector arguments ihr iha =>
    intro s k is hreads hblocks
    obtain ⟨-, hparts⟩ := (forall_nodes_iff _).mp h
    obtain ⟨hreceiver, harguments⟩ := List.forall_mem_cons.mp hparts
    rw [translate] at hreads
    rw [blocks] at hblocks
    rw [stringAtoms_of_string?_eq_none rfl, children, stringAtoms_cons]
    obtain ⟨front, back, rfl, hfront, hback⟩ := hreads.split
    obtain ⟨first, middle, rfl, hfirst, hmiddle⟩ := Reads.split hfront
    have hrest := hblocks.right
    rw [length_blocks] at hrest
    have hpushed := (ihr hreceiver s k _ hfirst hblocks.left).append
      (pushes_translateAll (fun e he => iha e he (harguments e he)) s _ hmiddle hrest)
    exact hpushed.append_nil (hback.pushes_nil (List.forall_mem_singleton.mpr rfl))
  | superSend info selector arguments ih =>
    intro s k is hreads hblocks
    obtain ⟨-, harguments⟩ := (forall_nodes_iff _).mp h
    rw [translate, ← List.singleton_append, List.append_assoc] at hreads
    rw [blocks] at hblocks
    rw [stringAtoms_of_string?_eq_none rfl]
    obtain ⟨front, back, rfl, hfront, hback⟩ := hreads.split
    obtain ⟨middle, last, rfl, hmiddle, hlast⟩ := Reads.split hback
    have hpushed := pushes_translateAll (fun e he => ih e he (harguments e he)) s k hmiddle hblocks
    exact (hfront.pushes_nil (List.forall_mem_singleton.mpr rfl)).append
      (hpushed.append_nil (hlast.pushes_nil (List.forall_mem_singleton.mpr rfl)))
  | assign info target value iht ihv =>
    intro s k is hreads hblocks
    obtain ⟨hproper, hparts⟩ := (forall_nodes_iff _).mp h
    rw [translate] at hreads
    rw [blocks] at hblocks
    -- the target is a variable, so no code is lost
    have htarget : stringAtoms [target] = [] := by
      have hname : target.isName := hproper
      cases target with
      | name info' x => exact (stringAtoms_of_string?_eq_none rfl).trans stringAtoms_nil
      | _ => cases hname
    rw [stringAtoms_of_string?_eq_none rfl, children, stringAtoms_cons, htarget, List.nil_append]
    obtain ⟨front, back, rfl, hfront, hback⟩ := hreads.split
    have hrest := hblocks.right
    rw [length_blocks] at hrest
    exact (ihv (hparts value (by simp [children])) s _ _ hfront hrest).append_nil
      (hback.pushes_nil (isPlain_storeInto s target))
  | ret info value ih =>
    intro s k is hreads hblocks
    obtain ⟨-, hparts⟩ := (forall_nodes_iff _).mp h
    rw [translate, List.append_assoc] at hreads
    rw [blocks] at hblocks
    rw [stringAtoms_of_string?_eq_none rfl]
    obtain ⟨front, back, rfl, hfront, hback⟩ := hreads.split
    refine (ih (hparts value List.mem_cons_self) s k _ hfront hblocks).append_nil (hback.pushes_nil ?_)
    exact List.forall_mem_append.mpr ⟨isPlain_markAt _ _, List.forall_mem_singleton.mpr rfl⟩

end Expr

/-! ## Methods and classes -/

/-- A compiled method pushes the strings in its statements. -/
theorem ReadsAs.pushes {literals : Array String} {m : CompiledBlock} {d : MethodDef} {file : Option String}
    {layers : List (List String)} {owner : String} (h : ReadsAs literals m (d.translate file layers owner))
    (hproper : ∀ n ∈ Expr.nodesOfAll d.body.statements, n.IsProper) :
    Pushes literals m.blocks m.instructions (Expr.stringAtoms d.body.statements) := by
  cases hbody : d.body with
  | primitive name =>
    rw [MethodDef.translate, hbody] at h
    rw [List.forall₂_nil_right_iff.mp h.reads, MethodBody.statements, Expr.stringAtoms_nil]
    exact .nil
  | code body =>
    rw [hbody] at hproper
    refine Expr.pushes_of_carries (h.carries hbody) fun e he => e.pushesAtoms fun n hn => ?_
    exact hproper n (Expr.mem_nodesOfAll.mpr ⟨e, he, hn⟩)

/-- The strings that the methods of a compiled class push, method by method. -/
def CompiledClass.Pushes (c : CompiledClass) (pushed : List (List String)) : Prop :=
  List.Forall₂ (fun m texts => Smalltalk.Pushes c.literals m.blocks m.instructions texts) c.methods pushed

/-- What compiled classes push, one after the other, are the strings of the source. -/
theorem exists_pushes_of_compileSource {source : String} {options : CompileOptions} {classes : List CompiledClass}
    (h : (compileSource source options).result = .ok classes) :
    ∃ pushed, List.Forall₂ CompiledClass.Pushes classes pushed ∧
      pushed.flatten.flatten = stringsIn (tokens source) := by
  obtain ⟨u, hsource, -, -, hsymbolic⟩ := exists_unit_of_ok h
  rw [mapM_eq_some_iff, SourceUnit.translate, List.forall₂_map_right_iff] at hsymbolic
  have hproper : ∀ d ∈ u.allClasses, ∀ m ∈ d.methods, ∀ n ∈ Expr.nodesOfAll m.body.statements, n.IsProper :=
    fun d hd m hm => SourceUnit.isProper_of_mem (built_of_ofSource hsource) hd hm
  refine ⟨u.allClasses.map fun d => d.methods.map fun m => Expr.stringAtoms m.body.statements, ?_, ?_⟩
  · have hclasses := (List.forall₂_and_left _ _).mpr ⟨hproper, hsymbolic.flip⟩
    refine List.forall₂_map_right_iff.mpr (hclasses.flip.imp fun c d hclass => ?_)
    have hmethods := (classReadsAs_of_symbolic? hclass.2).methods
    rw [ClassDef.translate, List.forall₂_map_right_iff] at hmethods
    have hmethods := (List.forall₂_and_left _ _).mpr ⟨hclass.1, hmethods.flip⟩
    exact List.forall₂_map_right_iff.mpr (hmethods.flip.imp fun m d hmethod => hmethod.2.pushes hmethod.1)
  · rw [SourceUnit.stringsIn_tokens hsource, ← statementsOfClasses_allClasses, stringAtoms_statementsOfClasses]
    simp only [List.flatMap_def, List.flatten_flatten, List.map_map]
    rfl

/-- Strings come through from the text to compiled code. A string in quotes is a token with the string as its
value, and what follows is read as if it stood alone. A text that opens a string and does not close it is a single
token in error. If a source compiles, then the strings of its tokens, each of which was written in quotes, are what
the compiled code takes from its literal tables and pushes, one for one and in the order of the text. -/
theorem strings_roundTrip :
    (∀ s rest : String, rest.toList.head? ≠ some '\'' →
      tokens (inQuotes s ++ rest)
        = ⟨.string s, ⟨{}, Position.advance {} (inQuotes s).toList⟩, inQuotes s⟩ :: tokensAfter (inQuotes s) rest ∧
      (tokensAfter (inQuotes s) rest).map Token.unplaced = (tokens rest).map Token.unplaced) ∧
    (∀ source : String, source.toList.head? = some '\'' →
      (¬ ∃ s rest, source = inQuotes s ++ rest ∧ rest.toList.head? ≠ some '\'') →
      tokens source = [⟨.error "unterminated string", ⟨{}, Position.advance {} source.toList⟩, source⟩,
        .finish (Position.advance {} source.toList)]) ∧
    ∀ source options classes, (compileSource source options).result = .ok classes →
      (∀ t ∈ tokens source, ∀ s, t.kind = .string s → t.lexeme = inQuotes s) ∧
      ∃ pushed, List.Forall₂ CompiledClass.Pushes classes pushed ∧
        pushed.flatten.flatten = stringsIn (tokens source) := by
  refine ⟨fun s rest hrest => ?_, fun source => tokens_unterminated, fun source options classes h => ?_⟩
  · exact ⟨tokens_inQuotes_append hrest, map_unplaced_tokensAfter _ _⟩
  · exact ⟨fun t ht s => lexeme_of_mem_tokens ht, exists_pushes_of_compileSource h⟩

/-- A quote inside of a string, one that is the last character of a text, and strings in blocks, in an array and in
the main program, an empty one and one that comes again. -/
theorem strings_roundTrip_nested :
    tokens "'it''s'x" = [⟨.string "it's", ⟨{}, ⟨7, 1, 8⟩⟩, "'it''s'"⟩,
      ⟨.identifier "x", ⟨⟨7, 1, 8⟩, ⟨8, 1, 9⟩⟩, "x"⟩, .finish ⟨8, 1, 9⟩] ∧
    tokens "'it''" = [⟨.error "unterminated string", ⟨{}, ⟨5, 1, 6⟩⟩, "'it''"⟩, .finish ⟨5, 1, 6⟩] ∧
    ∃ classes, (compileSource
        "Object subclass: #A [ m [ ^[:i | 'it''s' , ''. [i]] ] ] A new m: 'b' with: \x7b'it''s'\x7d" {}).result
        = .ok classes ∧
      ∃ pushed, List.Forall₂ CompiledClass.Pushes classes pushed ∧
        pushed.flatten.flatten = ["it's", "", "b", "it's"] := by
  refine ⟨?_, ?_, ?_⟩
  · have htext : inQuotes "it's" ++ "x" = "'it''s'x" := by decide +kernel
    have htokens := (strings_roundTrip.1 "it's" "x" (by decide)).1
    rw [htext] at htokens
    rw [htokens]
    decide +kernel
  · have hnone : ¬ ∃ s rest, "'it''" = inQuotes s ++ rest ∧ rest.toList.head? ≠ some '\'' := by
      rintro ⟨s, rest, htext, hrest⟩
      have htokens := (strings_roundTrip.1 s rest hrest).1
      rw [← htext] at htokens
      have herror : (tokens "'it''").head?.map (·.kind.string?) = some none := by decide +kernel
      rw [htokens] at herror
      cases herror
    exact strings_roundTrip.2.1 "'it''" (by decide) hnone
  · obtain ⟨classes, h⟩ := exists_of_isOk (r := (compileSource
      "Object subclass: #A [ m [ ^[:i | 'it''s' , ''. [i]] ] ] A new m: 'b' with: \x7b'it''s'\x7d" {}).result)
      (by decide +kernel)
    obtain ⟨-, pushed, hpushed, hstrings⟩ := strings_roundTrip.2.2 _ _ _ h
    exact ⟨classes, h, pushed, hpushed, hstrings.trans (by decide +kernel)⟩

end Smalltalk
