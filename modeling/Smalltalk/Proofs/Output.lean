import Mathlib
import Smalltalk.Proofs.Literals
import Smalltalk.Proofs.Translation
import Smalltalk.Proofs.Trees

/-!
# What a part of a body contributes to its class

An expression contributes code to the body that it stands in, the blocks inside it to its method, and
strings to the literal table of its class. A block is gone through where it stands, so its strings come
between those of the expressions around it.
-/

namespace Smalltalk

/-- The string that a position mark needs, if positions are marked. -/
def markStrings (file : Option String) : List String := file.toList

/-- The string that the push of a variable needs. -/
def Reference.strings (x : String) : Reference → List String
  | .global => [x]
  | _ => []

namespace Expr

mutual

/-- The strings that an expression needs, in the order in which they are entered. -/
@[simp] def strings (s : Surroundings) (k : Nat) : Expr → List String
  | atom _ (.string value) => [value]
  | atom _ _ => []
  | name _ x => (s.refer x).strings x
  | array _ items => stringsOfAll s k items
  | block _ params locals statements _ =>
    stringsOfAll (s.enter k (namesOf params ++ namesOf locals)) (k + 1) statements ++ markStrings s.file
  | send _ receiver selector arguments =>
    receiver.strings s k ++ stringsOfAll s (k + receiver.blockCount) arguments ++ [selector.text]
  | superSend _ selector arguments => stringsOfAll s k arguments ++ [selector.name]
  | assign _ target value => value.strings s (k + target.blockCount)
  | ret _ value => value.strings s k ++ markStrings s.file

/-- The strings that several expressions need. -/
@[simp] def stringsOfAll (s : Surroundings) (k : Nat) : List Expr → List String
  | [] => []
  | e :: es => e.strings s k ++ stringsOfAll s (k + e.blockCount) es

end

end Expr

/-! ## Outputs -/

/-- Code, the strings that it needs, and blocks. -/
structure Output where
  /-- The code for the body. -/
  code : List SymbolicInstruction
  /-- The strings, in the order in which they are entered. -/
  strings : List String
  /-- The blocks for the method. -/
  blocks : List SymbolicBlock

namespace Output

instance : Append Output :=
  ⟨fun o o' => ⟨o.code ++ o'.code, o.strings ++ o'.strings, o.blocks ++ o'.blocks⟩⟩

/-- Nothing. -/
def nil : Output := ⟨[], [], []⟩

/-- A single instruction that needs no string. -/
def plain (i : SymbolicInstruction) : Output := ⟨[i], [], []⟩

/-- A single instruction that needs a string. -/
def naming (i : SymbolicInstruction) (s : String) : Output := ⟨[i], [s], []⟩

theorem append_eq (o o' : Output) :
    o ++ o' = ⟨o.code ++ o'.code, o.strings ++ o'.strings, o.blocks ++ o'.blocks⟩ := rfl

theorem append_nil (o : Output) : o ++ nil = o := by
  simp [append_eq, nil]

/-- Everything in an output has 16 bits, and its strings find room in a table. -/
structure Fits (t : LiteralTable) (o : Output) : Prop where
  code : ∀ i ∈ o.code, i.Fits
  blocks : ∀ b ∈ o.blocks, ∀ i ∈ b.code, i.Fits
  strings : (t.internAll o.strings).size ≤ stringLimit

/-- Two outputs fit one after the other if the second fits into the table that the first leaves. -/
theorem fits_append_iff (t : LiteralTable) (o o' : Output) :
    (o ++ o').Fits t ↔ o.Fits t ∧ o'.Fits (t.internAll o.strings) := by
  constructor
  · rintro ⟨hcode, hblocks, hstrings⟩
    rw [append_eq, LiteralTable.internAll_append] at hstrings
    rw [append_eq, List.forall_mem_append] at hcode hblocks
    exact ⟨⟨hcode.1, hblocks.1, (LiteralTable.size_le_size_internAll _ _).trans hstrings⟩,
      hcode.2, hblocks.2, hstrings⟩
  · rintro ⟨h, h'⟩
    refine ⟨List.forall_mem_append.mpr ⟨h.code, h'.code⟩,
      List.forall_mem_append.mpr ⟨h.blocks, h'.blocks⟩, ?_⟩
    rw [append_eq, LiteralTable.internAll_append]
    exact h'.strings

theorem fits_nil {t : LiteralTable} (ht : t.size ≤ stringLimit) : nil.Fits t :=
  ⟨fun _ h => absurd h List.not_mem_nil, fun _ h => absurd h List.not_mem_nil, ht⟩

theorem fits_plain_iff {t : LiteralTable} (ht : t.size ≤ stringLimit)
    (i : SymbolicInstruction) : (plain i).Fits t ↔ i.Fits := by
  refine ⟨fun h => h.code i (List.mem_singleton_self i), fun h => ⟨?_, fun _ hb => ?_, ht⟩⟩
  · intro j hj
    rw [List.mem_singleton.mp hj]
    exact h
  · exact absurd hb List.not_mem_nil

theorem fits_naming_iff (t : LiteralTable) (i : SymbolicInstruction) (s : String) :
    (naming i s).Fits t ↔ i.Fits ∧ (t.intern s).2.size ≤ stringLimit := by
  refine ⟨fun h => ⟨h.code i (List.mem_singleton_self i), h.strings⟩,
    fun h => ⟨?_, fun _ hb => ?_, h.2⟩⟩
  · intro j hj
    rw [List.mem_singleton.mp hj]
    exact h.1
  · exact absurd hb List.not_mem_nil

end Output

/-! ## Outputs of expressions -/

/-- A position mark, if positions are marked. -/
def markOutput (file : Option String) (p : Position) : Output := ⟨markAt file p, markStrings file, []⟩

namespace Expr

/-- What an expression contributes. -/
def output (s : Surroundings) (k : Nat) (e : Expr) : Output := ⟨e.translate s k, e.strings s k, e.blocks s k⟩

/-- What several expressions contribute, whose values all stay. -/
def outputOfAll (s : Surroundings) (k : Nat) (es : List Expr) : Output :=
  ⟨translateAll s k es, stringsOfAll s k es, blocksOfAll s k es⟩

/-- What statements contribute, where only the last value stays. -/
def outputOfStatements (s : Surroundings) (k : Nat) (es : List Expr) : Output :=
  ⟨translateStatements s k es, stringsOfAll s k es, blocksOfAll s k es⟩

/-- What the body of a block contributes by itself. -/
def bodyOutput (s : Surroundings) (k : Nat) (statements : List Expr) (close : Position) : Output :=
  outputOfStatements s k statements ++ markOutput s.file close ++ .plain .blockReturn

variable (s : Surroundings) (k : Nat)

theorem outputOfAll_nil : outputOfAll s k [] = .nil := by
  simp [outputOfAll, translateAll, stringsOfAll, blocksOfAll, Output.nil]

theorem outputOfAll_cons (e : Expr) (es : List Expr) :
    outputOfAll s k (e :: es) = e.output s k ++ outputOfAll s (k + e.blockCount) es := by
  simp [outputOfAll, output, translateAll, stringsOfAll, blocksOfAll, Output.append_eq]

theorem outputOfStatements_nil : outputOfStatements s k [] = .nil := by
  simp [outputOfStatements, translateStatements, stringsOfAll, blocksOfAll, Output.nil]

theorem outputOfStatements_singleton (e : Expr) : outputOfStatements s k [e] = e.output s k := by
  simp [outputOfStatements, output, translateStatements, stringsOfAll, blocksOfAll]

/-- The value of every statement but the last is dropped. -/
theorem outputOfStatements_cons_cons (e f : Expr) (es : List Expr) :
    outputOfStatements s k (e :: f :: es)
      = e.output s k ++ .plain .pop ++ outputOfStatements s (k + e.blockCount) (f :: es) := by
  simp [outputOfStatements, output, translateStatements, stringsOfAll, blocksOfAll, Output.append_eq,
    Output.plain]

theorem output_array (info : NodeInfo) (items : List Expr) :
    (array info items).output s k = outputOfAll s k items ++ .plain (.pushArray items.length) := by
  simp [output, outputOfAll, translate, strings, blocks, Output.append_eq, Output.plain]

/-- The receiver comes first, then the arguments, then the message. -/
theorem output_send (info : NodeInfo) (receiver : Expr) (selector : Selector) (arguments : List Expr) :
    (send info receiver selector arguments).output s k = receiver.output s k
      ++ outputOfAll s (k + receiver.blockCount) arguments
      ++ .naming (.send arguments.length selector.text) selector.text := by
  simp [output, outputOfAll, translate, strings, blocks, Output.append_eq, Output.naming]

theorem output_superSend (info : NodeInfo) (selector : Ident) (arguments : List Expr) :
    (superSend info selector arguments).output s k = .plain .pushSelf
      ++ outputOfAll s k arguments
      ++ .naming (.sendSuper arguments.length selector.name) selector.name := by
  simp [output, outputOfAll, translate, strings, blocks, Output.append_eq, Output.naming, Output.plain]

theorem output_ret (info : NodeInfo) (value : Expr) :
    (ret info value).output s k = value.output s k ++ markOutput s.file info.span.start
      ++ .plain .methodReturn := by
  simp [output, translate, strings, blocks, Output.append_eq, Output.plain, markOutput]

/-- A block is made in one instruction; its code stands elsewhere. -/
theorem output_block (info : NodeInfo) (params locals : List Ident) (statements : List Expr)
    (close : Span) :
    (block info params locals statements close).output s k = ⟨[.block k],
      (bodyOutput (s.enter k (namesOf params ++ namesOf locals)) (k + 1) statements close.start).strings,
      { name := s.blockName k
        qualifiedName := String.intercalate ">>" (s.enter k (namesOf params ++ namesOf locals)).path
        argumentCount := (namesOf params).length
        localCount := (namesOf locals).length
        code := (bodyOutput (s.enter k (namesOf params ++ namesOf locals)) (k + 1) statements
          close.start).code }
        :: (bodyOutput (s.enter k (namesOf params ++ namesOf locals)) (k + 1) statements
          close.start).blocks⟩ := by
  simp [output, translate, strings, blocks, bodyOutput, Output.append_eq, outputOfStatements, markOutput,
    Output.plain, namesOf, Surroundings.enter]

theorem output_assign_name (info info' : NodeInfo) (x : String) (value : Expr) :
    (assign info (.name info' x) value).output s k
      = value.output s (k + (name info' x).blockCount) ++ ⟨(s.refer x).store, [], []⟩ := by
  simp [output, translate, strings, blocks, Output.append_eq, storeInto]

theorem length_blocksOfAll {es : List Expr}
    (h : ∀ e ∈ es, ∀ s k, (e.blocks s k).length = e.blockCount) (s : Surroundings) (k : Nat) :
    (blocksOfAll s k es).length = blockCountOfAll es := by
  induction es generalizing k with
  | nil => simp [blocksOfAll, blockCountOfAll]
  | cons e es ih =>
    rw [blocksOfAll, List.length_append, blockCountOfAll, h e List.mem_cons_self,
      ih fun e' he' => h e' (List.mem_cons_of_mem e he')]

/-- Blocks are numbered by counting them, so there are as many as have been counted. -/
theorem length_blocks (e : Expr) : ∀ s k, (e.blocks s k).length = e.blockCount := by
  induction e using tree_induction with
  | atom info value | name info x =>
    intro s k
    rw [blocks, blockCount, List.length_nil]
  | array info items ih =>
    intro s k
    rw [blocks, blockCount, length_blocksOfAll ih]
  | block info params locals statements close ih =>
    intro s k
    rw [blocks, blockCount, List.length_cons, length_blocksOfAll ih, Nat.add_comm]
  | send info receiver selector arguments ihr iha =>
    intro s k
    rw [blocks, blockCount, List.length_append, ihr, length_blocksOfAll iha]
  | superSend info selector arguments ih =>
    intro s k
    rw [blocks, blockCount, length_blocksOfAll ih]
  | assign info target value iht ihv =>
    intro s k
    rw [blocks, blockCount, List.length_append, iht, ihv]
  | ret info value ih =>
    intro s k
    rw [blocks, blockCount, ih]

end Expr

/-! ## Outputs of methods and classes -/

/-- What a method contributes to its class. -/
def MethodDef.output (file : Option String) (layers : List (List String)) (owner : String)
    (m : MethodDef) : Output :=
  match m.body with
  | .primitive _ => .nil
  | .code body => Expr.outputOfStatements (m.surroundings file layers owner body.locals) 0 body.statements
    ++ markOutput file m.close.start ++ .plain .pushSelf ++ .plain .methodReturn

/-- A method with code consists of what it contributes. -/
theorem MethodDef.translate_of_code {m : MethodDef} {body : Body} (hbody : m.body = .code body)
    (file : Option String) (layers : List (List String)) (owner : String) :
    m.translate file layers owner = {
      name := m.selector.name
      classSide := m.classSide
      qualifiedName := String.intercalate ">>" [owner, m.selector.name]
      argumentCount := m.params.length
      localCount := body.locals.length
      code := (m.output file layers owner).code
      blocks := (m.output file layers owner).blocks } := by
  rw [MethodDef.translate, MethodDef.output, hbody]
  simp [Output.append_eq, Output.plain, markOutput, Expr.outputOfStatements]

/-- What several methods contribute to their class. -/
def outputOfMethods (file : Option String) (layers : List (List String)) (owner : String) :
    List MethodDef → Output
  | [] => .nil
  | m :: ms => m.output file layers owner ++ outputOfMethods file layers owner ms

/-- What all methods of a class contribute. -/
def ClassDef.output (file : Option String) (classes : List ClassDef) (c : ClassDef) : Output :=
  outputOfMethods file (c.layers classes) c.name.name c.methods

end Smalltalk
