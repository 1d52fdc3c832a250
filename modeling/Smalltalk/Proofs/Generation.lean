import Mathlib
import Smalltalk.Proofs.Emission
import Smalltalk.Proofs.Resolution
import Smalltalk.Proofs.UnitLayout

/-!
# Code generation is the direct translation

Once a unit has been laid out in its scope table and its names have been bound, generating the code of
an expression contributes exactly what its direct translation says, unless a limit is exceeded.
-/

namespace Smalltalk

open ScopeTable Bytecode

/-- The context in which the names of a unit have been bound. -/
def GenerateContext.resolveContext (ctx : GenerateContext) : ResolveContext :=
  ⟨ctx.table, ctx.blocks, ctx.options.strictGlobals⟩

namespace GenerateM

/-! ## Where expressions stand -/

/-- What is known about the class at `owner`. -/
structure Site (ctx : GenerateContext) (owner : ScopeId) (s : Surroundings) : Prop where
  valid : ctx.table.Valid
  unit_kind : (ctx.table.scope unitScope).kind = .unit
  owner_kind : (ctx.table.scope owner).kind = .classDef
  owner_parent : (ctx.table.scope owner).parent = some unitScope
  layers_eq : ∃ rest, Chain ctx.table owner rest ∧
    List.Forall₂ ctx.table.HasFields (owner :: rest) s.layers
  file_eq : s.file = ctx.options.markedFile

/-- Expressions stand in the given surroundings, and everything that the stages before should have
found out about them has been found out. -/
structure Placed (ctx : GenerateContext) (owner scope : ScopeId) (s : Surroundings) (k : Nat)
    (es : List Expr) : Prop where
  site : Site ctx owner s
  stands : Stands ctx.table owner scope s
  frames_le : s.frames.length ≤ k + 1
  count_le : k + Expr.blockCountOfAll es ≤ counterLimit
  laid : Expr.LaidAll ctx.table ctx.blocks s.method scope k es
  bound : ∀ entry ∈ Expr.bindingsOfAll ctx.resolveContext scope es,
    ctx.bindings[entry.1]? = some entry.2
  quiet : Expr.complaintsAboutAll ctx.resolveContext scope es = []
  proper : ∀ n ∈ Expr.nodesOfAll es, n.IsProper

namespace Placed

open Smalltalk.Expr

variable {ctx : GenerateContext} {owner scope : ScopeId} {s : Surroundings} {k : Nat}

theorem head {e : Expr} {es : List Expr} (h : Placed ctx owner scope s k (e :: es)) :
    Placed ctx owner scope s k [e] := by
  obtain ⟨hsite, hstands, hframes, hcount, hlaid, hbound, hquiet, hproper⟩ := h
  rw [blockCountOfAll] at hcount
  rw [LaidAll] at hlaid
  rw [bindingsOfAll, List.forall_mem_append] at hbound
  rw [complaintsAboutAll, List.append_eq_nil_iff] at hquiet
  rw [nodesOfAll_cons, List.forall_mem_append] at hproper
  refine ⟨hsite, hstands, hframes, ?_, ?_, ?_, ?_, ?_⟩
  · rw [blockCountOfAll, blockCountOfAll]
    omega
  · rw [LaidAll, LaidAll]
    exact ⟨hlaid.1, trivial⟩
  · rw [bindingsOfAll, bindingsOfAll, List.append_nil]
    exact hbound.1
  · rw [complaintsAboutAll, complaintsAboutAll, List.append_nil]
    exact hquiet.1
  · rw [nodesOfAll_cons, nodesOfAll_nil, List.append_nil]
    exact hproper.1

theorem tail {e : Expr} {es : List Expr} (h : Placed ctx owner scope s k (e :: es)) :
    Placed ctx owner scope s (k + e.blockCount) es := by
  obtain ⟨hsite, hstands, hframes, hcount, hlaid, hbound, hquiet, hproper⟩ := h
  rw [blockCountOfAll] at hcount
  rw [LaidAll] at hlaid
  rw [bindingsOfAll, List.forall_mem_append] at hbound
  rw [complaintsAboutAll, List.append_eq_nil_iff] at hquiet
  rw [nodesOfAll_cons, List.forall_mem_append] at hproper
  exact ⟨hsite, hstands, by omega, by omega, hlaid.2, hbound.2, hquiet.2, hproper.2⟩

/-- A node that is neither a block nor a name nor an assignment says nothing but what its parts say. -/
theorem parts {e : Expr} (h : Placed ctx owner scope s k [e]) (hblock : e.isBlock = false)
    (hbindings : e.bindings ctx.resolveContext scope
      = bindingsOfAll ctx.resolveContext scope e.children)
    (hcomplaints : e.complaints ctx.resolveContext scope
      = complaintsAboutAll ctx.resolveContext scope e.children) :
    Placed ctx owner scope s k e.children := by
  obtain ⟨hsite, hstands, hframes, hcount, hlaid, hbound, hquiet, hproper⟩ := h
  rw [blockCountOfAll, blockCountOfAll, Nat.add_zero, blockCount_eq_children hblock] at hcount
  rw [LaidAll, laid_iff_children hblock] at hlaid
  rw [bindingsOfAll, bindingsOfAll, List.append_nil, hbindings] at hbound
  rw [complaintsAboutAll, complaintsAboutAll, List.append_nil, hcomplaints] at hquiet
  rw [nodesOfAll_cons, nodesOfAll_nil, List.append_nil, nodes_eq, List.forall_mem_cons] at hproper
  exact ⟨hsite, hstands, hframes, hcount, hlaid.1, hbound, hquiet, hproper.2⟩

theorem array {info : NodeInfo} {items : List Expr}
    (h : Placed ctx owner scope s k [.array info items]) : Placed ctx owner scope s k items :=
  h.parts rfl (by rw [bindings, children]) (by rw [complaints, children])

theorem send {info : NodeInfo} {receiver : Expr} {selector : Selector} {arguments : List Expr}
    (h : Placed ctx owner scope s k [.send info receiver selector arguments]) :
    Placed ctx owner scope s k (receiver :: arguments) :=
  h.parts rfl (by rw [bindings, children, bindingsOfAll])
    (by rw [complaints, children, complaintsAboutAll])

theorem superSend {info : NodeInfo} {selector : Ident} {arguments : List Expr}
    (h : Placed ctx owner scope s k [.superSend info selector arguments]) :
    Placed ctx owner scope s k arguments :=
  h.parts rfl (by rw [bindings, children]) (by rw [complaints, children])

theorem ret {info : NodeInfo} {value : Expr} (h : Placed ctx owner scope s k [.ret info value]) :
    Placed ctx owner scope s k [value] :=
  h.parts rfl (by rw [bindings, children, bindingsOfAll, bindingsOfAll, List.append_nil])
    (by rw [complaints, children, complaintsAboutAll, complaintsAboutAll, List.append_nil])

/-- A name is bound to what it refers to. -/
theorem name {info : NodeInfo} {x : String} (h : Placed ctx owner scope s k [.name info x]) :
    ctx.bindings[info.id]? = some (ctx.table.bindingOf scope x) := by
  have hbound := h.bound
  rw [bindingsOfAll, bindingsOfAll, bindings, List.append_nil] at hbound
  exact hbound _ (List.mem_singleton_self _)

/-- The target of an assignment is a variable, and is bound to what it refers to. -/
theorem assign {info : NodeInfo} {target value : Expr}
    (h : Placed ctx owner scope s k [.assign info target value]) :
    Placed ctx owner scope s (k + target.blockCount) [value] ∧
      ∃ info' x, target = .name info' x ∧
        ctx.bindings[info'.id]? = some (ctx.table.bindingOf scope x) ∧
        ctx.table.bindingOf scope x ≠ .global := by
  obtain ⟨hsite, hstands, hframes, hcount, hlaid, hbound, hquiet, hproper⟩ := h
  rw [nodesOfAll_cons, nodesOfAll_nil, List.append_nil, nodes_eq, List.forall_mem_cons] at hproper
  have hname : target.isName := hproper.1
  cases target with
  | name info' x =>
    rw [bindingsOfAll, bindingsOfAll, bindings, List.append_nil, List.forall_mem_append] at hbound
    rw [complaintsAboutAll, complaintsAboutAll, complaints, List.append_nil, List.append_eq_nil_iff]
      at hquiet
    rw [LaidAll, Laid] at hlaid
    rw [blockCountOfAll, blockCountOfAll, blockCount] at hcount
    rw [children, nodesOfAll_cons, List.forall_mem_append] at hproper
    refine ⟨⟨hsite, hstands, by omega, ?_, ?_, ?_, ?_, hproper.2.2⟩, info', x, rfl,
      hbound.2 _ (List.mem_singleton_self _), fun hglobal => ?_⟩
    · rw [blockCountOfAll, blockCountOfAll]
      omega
    · rw [LaidAll, LaidAll]
      exact ⟨hlaid.1.2, trivial⟩
    · rw [bindingsOfAll, bindingsOfAll, List.append_nil]
      exact hbound.1
    · rw [complaintsAboutAll, complaintsAboutAll, List.append_nil]
      exact hquiet.1
    · have htarget := hquiet.2
      rw [targetComplaints, List.append_eq_nil_iff] at htarget
      have hnone : (if ctx.table.bindingOf scope x = .global then [Diagnostic.notAssignable x info'.span]
        else []) = [] := htarget.2
      rw [if_pos hglobal] at hnone
      cases hnone
  | atom | array | block | send | superSend | assign | ret => cases hname

/-- A block has a scope, with the number that it should have, and its statements stand there. -/
theorem block {info : NodeInfo} {params locals : List Ident} {statements : List Expr} {close : Span}
    (h : Placed ctx owner scope s k [.block info params locals statements close]) :
    ∃ inner, ctx.blocks[info.id]? = some inner ∧
      ctx.table.IsBlockScope scope inner (s.blockName k) k (namesOf params) (namesOf locals) ∧
      Placed ctx owner inner (s.enter k (namesOf params ++ namesOf locals)) (k + 1) statements := by
  obtain ⟨hsite, hstands, hframes, hcount, hlaid, hbound, hquiet, hproper⟩ := h
  rw [LaidAll, Laid] at hlaid
  obtain ⟨⟨inner, hinner, hscope, hlaid⟩, -⟩ := hlaid
  have hblock : ctx.resolveContext.blocks[info.id]? = some inner := hinner
  rw [bindingsOfAll, bindingsOfAll, bindings, List.append_nil, hblock] at hbound
  rw [complaintsAboutAll, complaintsAboutAll, complaints, List.append_nil, hblock] at hquiet
  rw [blockCountOfAll, blockCountOfAll, blockCount] at hcount
  rw [nodesOfAll_cons, nodesOfAll_nil, List.append_nil, nodes_eq, List.forall_mem_cons] at hproper
  refine ⟨inner, hinner, hscope, ⟨hsite.valid, hsite.unit_kind, hsite.owner_kind, hsite.owner_parent,
    hsite.layers_eq, hsite.file_eq⟩, ?_, ?_, by omega, hlaid, hbound, hquiet, hproper.2⟩
  · exact .block hscope.kind_eq hscope.parent_eq hscope.hasSlots hscope.name_eq hstands
  · exact Nat.succ_le_succ hframes

end Placed

/-! ## Values and variables -/

section Variables

variable {ctx : GenerateContext} {owner scope : ScopeId} {s : Surroundings} {k : Nat} {g : Generated}

theorem fits_of_numbers_eq_nil {i : SymbolicInstruction} (h : i.numbers = []) : i.Fits := by
  intro n hn
  rw [h] at hn
  cases hn

theorem fits_iff_of_numbers_eq {i : SymbolicInstruction} {n : Nat} (h : i.numbers = [n]) :
    i.Fits ↔ n ≤ counterLimit := by
  rw [SymbolicInstruction.Fits, h]
  simp

theorem produces_atom (hready : Ready ctx g) {info : NodeInfo} {value : Atom}
    (hproper : (Expr.atom info value).IsProper) :
    Produces ctx k ((Expr.atom info value).output s k) (atom info.span value) g := by
  have hplain : ∀ (i : Instruction) (sym : SymbolicInstruction), sym.numbers = [] →
      (∀ literals, i.symbolic? literals = some sym) → Produces ctx k (.plain sym) (emit i) g :=
    fun i sym hsym hi => produces_emit hready hi (fits_of_numbers_eq_nil hsym)
  cases value with
  | integer value => exact hplain (.pushInt value) _ rfl fun _ => rfl
  | float bits => exact hplain (.pushFloat bits) _ rfl fun _ => rfl
  | character c =>
    have hc : c.toNat ≤ 0xFFFF := hproper
    rw [atom, if_pos hc]
    refine hplain (.pushChar (UInt16.ofNat c.toNat)) _ rfl fun _ => ?_
    rw [Instruction.symbolic?, UInt16.toNat_ofNat_of_lt' (Nat.lt_succ_of_le hc)]
    rfl
  | string value =>
    refine produces_literal hready (fun v literals hv => ?_) (fits_of_numbers_eq_nil rfl)
    rw [Instruction.symbolic?, hv]
    rfl
  | nilObject => exact hplain .pushNil _ rfl fun _ => rfl
  | trueObject => exact hplain .pushTrue _ rfl fun _ => rfl
  | falseObject => exact hplain .pushFalse _ rfl fun _ => rfl
  | receiver => exact hplain .pushSelf _ rfl fun _ => rfl

theorem binding_ok {info : NodeInfo} {b : Binding} (h : ctx.bindings[info.id]? = some b) :
    binding ctx info g = .ok b g := by
  rw [binding, h]
  rfl

/-- What a name is bound to is what it refers to. -/
theorem Placed.denotes {es : List Expr} (h : Placed ctx owner scope s k es) (x : String) :
    ctx.table.Denotes (ctx.table.bindingOf scope x) (s.refer x) := by
  obtain ⟨rest, hchain, hlayers⟩ := h.site.layers_eq
  have hframes : s.frames.length ≤ counterLimit + 1 := by
    have := h.frames_le
    have := h.count_le
    omega
  exact h.stands.denotes_bindingOf h.site.valid h.site.owner_kind h.site.owner_parent hchain hlayers
    hframes x

theorem toNat_slotOperand {y : SymbolId} {i : Nat} (hindex : (ctx.table.symbol y).index = i)
    (hi : i < counterLimit) : (slotOperand ctx y).toNat = i := by
  rw [slotOperand, hindex]
  exact UInt16.toNat_ofNat_of_lt' (hi.trans (Nat.lt_succ_self _))

/-- Loading a variable pushes what the name refers to. -/
theorem produces_load (hready : Ready ctx g) {info : NodeInfo} {x : String}
    (h : Placed ctx owner scope s k [.name info x]) :
    Produces ctx k ((Expr.name info x).output s k) (load ctx info x) g := by
  have hdenotes := h.denotes x
  have houtput : (Expr.name info x).output s k
      = ⟨[(s.refer x).push x], (s.refer x).strings x, []⟩ := rfl
  rw [houtput]
  refine Yields.bind_of_ok (binding_ok h.name) ?_
  revert hdenotes
  generalize ctx.table.bindingOf scope x = b
  generalize s.refer x = r
  intro hdenotes
  cases b with
  | field y =>
    cases r with
    | field i =>
      obtain rfl : ctx.table.fieldIndex y = i := hdenotes
      refine produces_operand hready (fun v literals hv => ?_) (fits_iff_of_numbers_eq rfl)
      rw [Instruction.symbolic?, hv]
      rfl
    | slot | global => cases hdenotes
  | slot y depth =>
    cases r with
    | slot n i =>
      obtain ⟨rfl, hindex, hi⟩ := hdenotes
      refine produces_emit hready (fun literals => ?_) (fits_of_numbers_eq_nil rfl)
      rw [Instruction.symbolic?, toNat_slotOperand hindex hi]
      rfl
    | field | global => cases hdenotes
  | global =>
    cases r with
    | global =>
      refine produces_literal hready (fun v literals hv => ?_) (fits_of_numbers_eq_nil rfl)
      rw [Instruction.symbolic?, hv]
      rfl
    | slot | field => cases hdenotes

/-- Storing into a variable stores into what the name refers to. -/
theorem produces_store (hready : Ready ctx g) {info : NodeInfo} {span : Span} {x : String}
    (hbound : ctx.bindings[info.id]? = some (ctx.table.bindingOf scope x))
    (hglobal : ctx.table.bindingOf scope x ≠ .global)
    (hdenotes : ctx.table.Denotes (ctx.table.bindingOf scope x) (s.refer x)) :
    Produces ctx k ⟨(s.refer x).store, [], []⟩ (store ctx info span) g := by
  refine Yields.bind_of_ok (binding_ok hbound) ?_
  revert hdenotes hglobal
  generalize ctx.table.bindingOf scope x = b
  generalize s.refer x = r
  intro hglobal hdenotes
  cases b with
  | field y =>
    cases r with
    | field i =>
      obtain rfl : ctx.table.fieldIndex y = i := hdenotes
      refine produces_operand hready (fun v literals hv => ?_) (fits_iff_of_numbers_eq rfl)
      rw [Instruction.symbolic?, hv]
    | slot | global => cases hdenotes
  | slot y depth =>
    cases r with
    | slot n i =>
      obtain ⟨rfl, hindex, hi⟩ := hdenotes
      refine produces_emit hready (fun literals => ?_) (fits_of_numbers_eq_nil rfl)
      rw [Instruction.symbolic?, toNat_slotOperand hindex hi]
    | field | global => cases hdenotes
  | global => exact absurd rfl hglobal

end Variables

/-! ## Sequences -/

section Sequences

variable {ctx : GenerateContext} {owner scope : ScopeId} {s : Surroundings} {k : Nat} {g : Generated}

theorem exprs_false_cons (e : Expr) (es : List Expr) :
    exprs ctx false (e :: es) = expr ctx e >>= fun _ => exprs ctx false es := by
  rw [exprs]
  rfl

theorem exprs_true_singleton (e : Expr) :
    exprs ctx true [e] = expr ctx e >>= fun _ => exprs ctx true [] := by
  rw [exprs]
  rfl

theorem exprs_true_cons_cons (e f : Expr) (es : List Expr) :
    exprs ctx true (e :: f :: es)
      = expr ctx e >>= fun _ => emit .pop >>= fun _ => exprs ctx true (f :: es) := by
  rw [exprs]
  rfl

theorem produces_nil (hready : Ready ctx g) (dropping : Bool) :
    Produces ctx k .nil (exprs ctx dropping []) g := by
  have hok : exprs ctx dropping [] g = .ok () g := by
    rw [exprs]
    rfl
  exact .of_ok hok (Output.fits_nil hready.size_le) (.refl hready k)

/-- Generating an expression contributes what its direct translation says. -/
def Generates (ctx : GenerateContext) (owner : ScopeId) (e : Expr) : Prop :=
  ∀ scope s k g, Placed ctx owner scope s k [e] → Ready ctx g → k + e.blockCount ≤ g.blocks.size →
    Produces ctx k (e.output s k) (expr ctx e) g

theorem length_output_blocks (s : Surroundings) (k : Nat) (e : Expr) :
    (e.output s k).blocks.length = e.blockCount := e.length_blocks s k

theorem produces_values {es : List Expr} (h : ∀ e ∈ es, Generates ctx owner e)
    (hplaced : Placed ctx owner scope s k es) (hready : Ready ctx g)
    (hsize : k + Expr.blockCountOfAll es ≤ g.blocks.size) :
    Produces ctx k (Expr.outputOfAll s k es) (exprs ctx false es) g := by
  induction es generalizing k g with
  | nil =>
    rw [Expr.outputOfAll_nil]
    exact produces_nil hready false
  | cons e es ih =>
    rw [Expr.blockCountOfAll] at hsize
    rw [Expr.outputOfAll_cons, exprs_false_cons]
    refine (h e List.mem_cons_self scope s k g hplaced.head hready (by omega)).append fun g' hg' => ?_
    rw [length_output_blocks]
    refine ih (fun e' he' => h e' (List.mem_cons_of_mem e he')) hplaced.tail hg'.ready ?_
    rw [hg'.size_blocks]
    omega

theorem produces_statements {es : List Expr} (h : ∀ e ∈ es, Generates ctx owner e)
    (hplaced : Placed ctx owner scope s k es) (hready : Ready ctx g)
    (hsize : k + Expr.blockCountOfAll es ≤ g.blocks.size) :
    Produces ctx k (Expr.outputOfStatements s k es) (exprs ctx true es) g := by
  induction es generalizing k g with
  | nil =>
    rw [Expr.outputOfStatements_nil]
    exact produces_nil hready true
  | cons e es ih =>
    rw [Expr.blockCountOfAll] at hsize
    have hfirst := h e List.mem_cons_self scope s k g hplaced.head hready (by omega)
    cases es with
    | nil =>
      rw [Expr.outputOfStatements_singleton, exprs_true_singleton, ← Output.append_nil (e.output s k)]
      exact hfirst.append fun g' hg' => produces_nil hg'.ready true
    | cons f es =>
      rw [Expr.outputOfStatements_cons_cons, exprs_true_cons_cons, ← bind_assoc]
      have hpop : Produces ctx k (e.output s k ++ .plain .pop) (expr ctx e >>= fun _ => emit .pop) g :=
        hfirst.append fun g' hg' => produces_emit hg'.ready (fun _ => rfl) (fits_of_numbers_eq_nil rfl)
      refine hpop.append fun g' hg' => ?_
      have hlength : (e.output s k ++ Output.plain .pop).blocks.length = e.blockCount := by
        rw [Output.append_eq, List.length_append, length_output_blocks]
        rfl
      rw [hlength]
      refine ih (fun e' he' => h e' (List.mem_cons_of_mem e he')) hplaced.tail hg'.ready ?_
      rw [hg'.size_blocks]
      omega

end Sequences

/-! ## Blocks -/

section Blocks

variable {ctx : GenerateContext} {owner scope : ScopeId} {s : Surroundings} {k : Nat} {g g' : Generated}

theorem symbolicCode?_encode (literals : Array String) (code : List Instruction) :
    symbolicCode? literals (encode code) = code.mapM (Instruction.symbolic? literals) := by
  rw [symbolicCode?, decode_encode]

/-- The block that is kept for a body whose code is ready. -/
def blockOf (ctx : GenerateContext) (scope : ScopeId) (code : List UInt8) : CompiledBlock :=
  { name := (ctx.table.scope scope).name
    qualifiedName := ctx.table.qualifiedName scope
    argumentCount := (ctx.table.frameSize scope).1
    localCount := (ctx.table.frameSize scope).2
    code := code }

theorem symbolic?_blockOf {inner : ScopeId} {params locals : List String} {name : String}
    {outer : ScopeId} (hvalid : ctx.table.Valid) (hsite : Site ctx owner s)
    (hscope : ctx.table.IsBlockScope outer inner name k params locals)
    (hstands : Stands ctx.table owner inner s) {literals : Array String} {code : List Instruction}
    {sym : List SymbolicInstruction} (hcode : code.mapM (Instruction.symbolic? literals) = some sym) :
    (blockOf ctx inner (encode code)).symbolic? literals = some {
      name := name
      qualifiedName := String.intercalate ">>" s.path
      argumentCount := params.length
      localCount := locals.length
      code := sym } := by
  have hname := hstands.qualifiedName_eq hvalid hsite.owner_kind hsite.owner_parent hsite.unit_kind
  rw [blockOf, CompiledBlock.symbolic?, symbolicCode?_encode, hcode, CompiledBlock.symbolicAll?,
    hscope.name_eq, hname, hscope.hasSlots.frameSize_eq]
  rfl

theorem fits_block_iff {t : LiteralTable} {o : Output} {b : SymbolicBlock} (hb : b.code = o.code) :
    Output.Fits t ⟨[.block k], o.strings, b :: o.blocks⟩ ↔ o.Fits t := by
  constructor
  · rintro ⟨-, hblocks, hstrings⟩
    have hblocks' := List.forall_mem_cons.mp hblocks
    exact ⟨hb ▸ hblocks'.1, hblocks'.2, hstrings⟩
  · rintro ⟨hcode, hblocks, hstrings⟩
    refine ⟨?_, List.forall_mem_cons.mpr ⟨hb ▸ hcode, hblocks⟩, hstrings⟩
    intro i hi
    rw [List.mem_singleton.mp hi]
    exact fits_of_numbers_eq_nil rfl

/-- A block is kept with its method, and the code around goes on. -/
theorem emits_block {o : Output} {b : SymbolicBlock} {c : CompiledBlock}
    (h : Emits ctx (k + 1) o { g with code := #[] } g') (hk : k < g.blocks.size) (hlimit : k ≤ counterLimit)
    (hc : ∀ later, g'.literals.Extends later → c.symbolic? later.strings = some b)
    {log : Array LogEvent} :
    Emits ctx k ⟨[.block k], o.strings, b :: o.blocks⟩ g
      { g' with
        code := g.code.push (.block (UInt16.ofNat k))
        blocks := g'.blocks.setIfInBounds k (some c)
        log := log } := by
  have hsize : g'.blocks.size = g.blocks.size := h.size_blocks
  refine ⟨⟨h.ready.size_le, h.ready.file_eq⟩, h.literals_eq,
    ⟨[.block (UInt16.ofNat k)], Array.toList_push, fun later _ => ?_⟩, ?_, fun i hi => ?_,
    fun later hlater j b' hb' => ?_⟩
  · rw [List.mapM_cons, Instruction.symbolic?, UInt16.toNat_ofNat_of_lt' (Nat.lt_succ_of_le hlimit)]
    rfl
  · rw [Array.size_setIfInBounds, hsize]
  · rw [List.length_cons] at hi
    rw [Array.getElem?_setIfInBounds, if_neg (by omega)]
    exact h.blocks_other i (by omega)
  · rw [Array.getElem?_setIfInBounds]
    cases j with
    | zero =>
      have heq : b' = b := (Option.some.inj hb').symm
      rw [Nat.add_zero, if_pos rfl, if_pos (hsize ▸ hk)]
      exact ⟨c, rfl, heq ▸ hc later hlater⟩
    | succ j =>
      rw [List.getElem?_cons_succ] at hb'
      rw [if_neg (by omega)]
      obtain ⟨c', hc', hsymbolic⟩ := h.blocks_eq later hlater j b' hb'
      refine ⟨c', ?_, hsymbolic⟩
      rw [← hc']
      congr 1
      omega

theorem blockScope_ok {info : NodeInfo} {inner : ScopeId} (hinner : ctx.blocks[info.id]? = some inner)
    (hindex : (ctx.table.scope inner).blockIndex = some k) :
    blockScope ctx info g = .ok (inner, k) g := by
  rw [blockScope, hinner]
  simp only [hindex]
  rfl

theorem finishBlock_ok {inner : ScopeId} {code : List UInt8} (hk : k < g.blocks.size) :
    finishBlock ctx inner k code g = .ok () { g with
      blocks := g.blocks.setIfInBounds k (some (blockOf ctx inner code))
      log := g.log.push (.blockCode (blockOf ctx inner code).qualifiedName code.length) } := by
  unfold finishBlock
  change (if k < g.blocks.size then _ else _ : GenerateM Unit) _ = _
  rw [if_pos hk]
  rfl

/-- Generating a body contributes what its statements say, and returns. -/
theorem produces_body {statements : List Expr} (h : ∀ e ∈ statements, Generates ctx owner e)
    (hplaced : Placed ctx owner scope s k statements) (hready : Ready ctx g)
    (hsize : k + Expr.blockCountOfAll statements ≤ g.blocks.size) (close : Position) :
    Produces ctx k (Expr.bodyOutput s k statements close)
      ((exprs ctx true statements >>= fun _ => mark ctx close) >>= fun _ => emit .blockReturn) g := by
  rw [Expr.bodyOutput, hplaced.site.file_eq]
  refine ((produces_statements h hplaced hready hsize).append fun g' hg' =>
    produces_mark hg'.ready close).append fun g' hg' => ?_
  exact produces_emit hg'.ready (fun _ => rfl) (fits_of_numbers_eq_nil rfl)

theorem generates_block {info : NodeInfo} {params locals : List Ident} {statements : List Expr}
    {close : Span} (h : ∀ e ∈ statements, Generates ctx owner e) :
    Generates ctx owner (.block info params locals statements close) := by
  intro scope s k g hplaced hready hsize
  have hlimit := hplaced.count_le
  rw [Expr.blockCountOfAll, Expr.blockCountOfAll, Expr.blockCount] at hlimit
  rw [Expr.blockCount] at hsize
  obtain ⟨inner, hinner, hscope, hbody⟩ := hplaced.block
  have hbegin : beginBody g = .ok g.code { g with code := #[] } := rfl
  have hproduces := produces_body h hbody (g := { g with code := #[] })
    ⟨hready.size_le, hready.file_eq⟩ (by show k + 1 + _ ≤ g.blocks.size; omega) close.start
  rw [expr, Expr.output_block]
  refine Yields.bind_of_ok (blockScope_ok hinner hscope.blockIndex_eq) (Yields.bind_of_ok hbegin ?_)
  rw [← bind_assoc, ← bind_assoc]
  refine (Yields.bind hproduces fun _ g' _ hg' => ?_).imp
    ((and_iff_left trivial).trans (fits_block_iff rfl).symm) fun _ _ h => h
  -- the code of the body is complete, and everything goes on around it
  have hsize' : k < g'.blocks.size := by
    rw [hg'.size_blocks]
    show k < g.blocks.size
    omega
  have hend : endBody g.code g' = .ok (encode g'.code.toList) { g' with code := g.code } := rfl
  refine Yields.bind_of_ok hend (Yields.bind_of_ok (finishBlock_ok hsize') (.of_ok rfl trivial ?_))
  refine emits_block hg' (by omega) (by omega) fun later hlater => ?_
  obtain ⟨new, hnew, hcode⟩ := hg'.code_eq
  have hcode' := hcode later hlater
  rw [← List.nil_append new, ← hnew] at hcode'
  exact symbolic?_blockOf hbody.site.valid hbody.site hscope hbody.stands hcode'

end Blocks

/-! ## Expressions -/

section Expressions

variable {ctx : GenerateContext} {owner : ScopeId}

/-- Generating an expression contributes exactly what its direct translation says. -/
theorem generates_expr (e : Expr) : Generates ctx owner e := by
  induction e using Expr.tree_induction with
  | atom info value =>
    intro scope s k g hplaced hready _
    rw [expr]
    exact produces_atom hready (hplaced.proper _ (by rw [Expr.nodesOfAll_cons, Expr.nodes]; simp))
  | name info x =>
    intro scope s k g hplaced hready _
    rw [expr]
    exact produces_load hready hplaced
  | array info items ih =>
    intro scope s k g hplaced hready hsize
    rw [expr, Expr.output_array]
    rw [Expr.blockCount] at hsize
    refine (produces_values ih hplaced.array hready hsize).append fun g' hg' => ?_
    refine produces_operand hg'.ready (fun v literals hv => ?_) (fits_iff_of_numbers_eq rfl)
    rw [Instruction.symbolic?, hv]
  | block info params locals statements close ih => exact generates_block ih
  | send info receiver selector arguments ihr iha =>
    intro scope s k g hplaced hready hsize
    rw [expr, Expr.output_send, ← bind_assoc]
    rw [Expr.blockCount] at hsize
    have hparts := hplaced.send
    refine ((ihr scope s k g hparts.head hready (by omega)).append fun g' hg' => ?_).append
      fun g' hg' => ?_
    · rw [length_output_blocks]
      exact produces_values iha hparts.tail hg'.ready (by rw [hg'.size_blocks]; omega)
    · refine produces_message hg'.ready (fun v w literals hv hw => ?_) (fits_iff_of_numbers_eq rfl)
      rw [Instruction.symbolic?, hv, hw]
      rfl
  | superSend info selector arguments ih =>
    intro scope s k g hplaced hready hsize
    rw [expr, Expr.output_superSend, ← bind_assoc]
    rw [Expr.blockCount] at hsize
    refine ((produces_emit hready (fun _ => rfl) (fits_of_numbers_eq_nil rfl)).append
      fun g' hg' => ?_).append fun g' hg' => ?_
    · exact produces_values ih hplaced.superSend hg'.ready (by rw [hg'.size_blocks]; exact hsize)
    · refine produces_message hg'.ready (fun v w literals hv hw => ?_) (fits_iff_of_numbers_eq rfl)
      rw [Instruction.symbolic?, hv, hw]
      rfl
  | assign info target value iht ihv =>
    intro scope s k g hplaced hready hsize
    obtain ⟨hvalue, info', x, rfl, hbound, hglobal⟩ := hplaced.assign
    rw [expr, Expr.output_assign_name]
    rw [Expr.blockCount] at hsize
    have hzero : (Expr.name info' x).blockCount = 0 := by rw [Expr.blockCount]
    rw [hzero, Nat.add_zero] at hvalue ⊢
    refine (ihv scope s k g hvalue hready (by omega)).append fun g' hg' => ?_
    exact produces_store hg'.ready hbound hglobal (hplaced.denotes x)
  | ret info value ih =>
    intro scope s k g hplaced hready hsize
    rw [expr, Expr.output_ret, ← bind_assoc, hplaced.site.file_eq]
    rw [Expr.blockCount] at hsize
    refine ((ih scope s k g hplaced.ret hready hsize).append fun g' hg' =>
      produces_mark hg'.ready _).append fun g' hg' => ?_
    exact produces_emit hg'.ready (fun _ => rfl) (fits_of_numbers_eq_nil rfl)

end Expressions

end GenerateM

end Smalltalk
