import Mathlib
import Smalltalk.Proofs.Declaration

/-!
# The layout of a unit in its scope table

Every block of a body has a scope inside the scope of what is around it, and carries the number that
it has in its method. Every method has a scope inside that of its class. A unit that has been declared
without errors is laid out like this.
-/

namespace Smalltalk

open ScopeTable

/-- The scope of a block: its number, and its variables. -/
structure ScopeTable.IsBlockScope (t : ScopeTable) (outer inner : ScopeId) (name : String) (k : Nat)
    (params locals : List String) : Prop where
  kind_eq : (t.scope inner).kind = .block
  name_eq : (t.scope inner).name = name
  parent_eq : (t.scope inner).parent = some outer
  blockIndex_eq : (t.scope inner).blockIndex = some k
  hasSlots : t.HasSlots inner params locals

namespace Expr

section Laid

variable (t : ScopeTable) (blockScopes : Std.TreeMap Nat ScopeId) (method : String)

mutual

/-- The blocks in an expression have scopes, and are numbered from `k` on. -/
def Laid (scope : ScopeId) (k : Nat) : Expr → Prop
  | atom _ _ | name _ _ => True
  | array _ items => LaidAll scope k items
  | block info params locals statements _ =>
    ∃ inner, blockScopes[info.id]? = some inner ∧
      t.IsBlockScope scope inner (method ++ "-block" ++ toString k) k (namesOf params) (namesOf locals) ∧
      LaidAll inner (k + 1) statements
  | send _ receiver _ arguments =>
    receiver.Laid scope k ∧ LaidAll scope (k + receiver.blockCount) arguments
  | superSend _ _ arguments => LaidAll scope k arguments
  | assign _ target value => target.Laid scope k ∧ value.Laid scope (k + target.blockCount)
  | ret _ value => value.Laid scope k

/-- The blocks in several expressions have scopes, and are numbered from `k` on. -/
def LaidAll (scope : ScopeId) (k : Nat) : List Expr → Prop
  | [] => True
  | e :: es => e.Laid scope k ∧ LaidAll scope (k + e.blockCount) es

end

end Laid

variable {t : ScopeTable} {blockScopes : Std.TreeMap Nat ScopeId} {method : String} {scope : ScopeId}
  {k : Nat}

theorem blockCountOfAll_append (es fs : List Expr) :
    blockCountOfAll (es ++ fs) = blockCountOfAll es + blockCountOfAll fs := by
  induction es with
  | nil => simp [blockCountOfAll]
  | cons e es ih => simp [blockCountOfAll, ih, Nat.add_assoc]

theorem blockCount_eq_children {e : Expr} (he : e.isBlock = false) :
    e.blockCount = blockCountOfAll e.children := by
  cases e with
  | block info params locals statements close => cases he
  | atom | name | array | send | superSend | assign | ret => simp [blockCount, blockCountOfAll, children]

theorem laidAll_append (es fs : List Expr) :
    LaidAll t blockScopes method scope k (es ++ fs) ↔
      LaidAll t blockScopes method scope k es ∧
      LaidAll t blockScopes method scope (k + blockCountOfAll es) fs := by
  induction es generalizing k with
  | nil => simp [LaidAll, blockCountOfAll]
  | cons e es ih => simp [LaidAll, blockCountOfAll, ih, and_assoc, Nat.add_assoc]

theorem laid_iff_children {e : Expr} (he : e.isBlock = false) :
    e.Laid t blockScopes method scope k ↔ LaidAll t blockScopes method scope k e.children := by
  cases e with
  | block info params locals statements close => cases he
  | atom | name | array | send | superSend | assign | ret => simp [Laid, LaidAll, children]

end Expr

/-! ## Bodies -/

namespace DeclareM

open Declarations Smalltalk.Expr

/-- What going through a body, or a part of it, leaves behind. -/
structure Walked (method scope : ScopeId) (es : List Expr) (d d' : Declarations) : Prop where
  valid : d'.table.Valid
  grows : Grows d.table.scopeCount d d'
  classesOf_eq : d'.table.classesOf = d.table.classesOf
  blocks_eq : ∀ i ∉ ids es, d'.blocks[i]? = d.blocks[i]?
  blockCount_method : (d'.table.scope method).blockCount
    = (d.table.scope method).blockCount + blockCountOfAll es
  blockCount_le : (d.table.scope method).blockCount ≤ counterLimit →
    (d'.table.scope method).blockCount ≤ counterLimit
  blockCount_other : ∀ s < d.table.scopeCount, s ≠ method →
    (d'.table.scope s).blockCount = (d.table.scope s).blockCount
  laid : ∀ later, Grows d'.table.scopeCount d' later → LaidAll later.table later.blocks
    (d.table.scope method).name scope (d.table.scope method).blockCount es

namespace Walked

variable {method scope : ScopeId} {es fs : List Expr} {d d' d'' : Declarations}

theorem refl (hvalid : d.table.Valid) : Walked method scope [] d d :=
  ⟨hvalid, .refl _ _, rfl, fun _ _ => rfl, by simp [blockCountOfAll], fun h => h, fun _ _ _ => rfl,
    fun _ _ => by simp [LaidAll]⟩

theorem append (hmethod : method < d.table.scopeCount) (h : Walked method scope es d d')
    (h' : Walked method scope fs d' d'') : Walked method scope (es ++ fs) d d'' where
  valid := h'.valid
  grows := h.grows.trans (h'.grows.mono h.grows.scopeCount_le)
  classesOf_eq := h'.classesOf_eq.trans h.classesOf_eq
  blocks_eq i hi := by
    rw [ids_append, List.mem_append, not_or] at hi
    rw [h'.blocks_eq i hi.2, h.blocks_eq i hi.1]
  blockCount_method := by
    rw [h'.blockCount_method, h.blockCount_method, blockCountOfAll_append, Nat.add_assoc]
  blockCount_le hle := h'.blockCount_le (h.blockCount_le hle)
  blockCount_other s hs hne :=
    (h'.blockCount_other s (hs.trans_le h.grows.scopeCount_le) hne).trans (h.blockCount_other s hs hne)
  laid later hlater := by
    have hname : (d'.table.scope method).name = (d.table.scope method).name :=
      h.grows.head_field Scope.name (fun _ => rfl) hmethod
    have hfirst := h.laid later (h'.grows.trans (hlater.mono h'.grows.scopeCount_le))
    have hsecond := h'.laid later hlater
    rw [hname, h.blockCount_method] at hsecond
    exact (laidAll_append es fs).mpr ⟨hfirst, hsecond⟩

/-- Going through a node that is no block is going through its parts. -/
theorem of_children {e : Expr} (he : e.isBlock = false) (h : Walked method scope e.children d d') :
    Walked method scope [e] d d' where
  valid := h.valid
  grows := h.grows
  classesOf_eq := h.classesOf_eq
  blocks_eq i hi := by
    rw [ids_singleton, List.mem_cons, not_or] at hi
    exact h.blocks_eq i hi.2
  blockCount_method := by
    rw [h.blockCount_method, blockCountOfAll, blockCountOfAll, blockCount_eq_children he, Nat.add_zero]
  blockCount_le := h.blockCount_le
  blockCount_other := h.blockCount_other
  laid later hlater := by
    rw [LaidAll, laid_iff_children he, LaidAll]
    exact ⟨h.laid later hlater, trivial⟩

end Walked

/-- A block number that is not reported as missing is the next one. -/
theorem nextBlockIndex_apply (method : ScopeId) (d : Declarations) :
    nextBlockIndex method d = if counterLimit ≤ (d.table.scope method).blockCount then (none, d)
      else (some (d.table.scope method).blockCount,
        { d with table := d.table.modifyScope method fun s =>
            { s with blockCount := (d.table.scope method).blockCount + 1 } }) := by
  show ((d.table.nextBlockIndex method).1,
    { d with table := (d.table.nextBlockIndex method).2 }) = _
  unfold ScopeTable.nextBlockIndex
  simp only
  split <;> rfl

theorem closeBlock_similar (method : ScopeId) (index : Nat) (symbol : Option SymbolId)
    (d : Declarations) :
    Similar d.table (closeBlock method index symbol d).2.table ∧
      (closeBlock method index symbol d).2.table.scopes = d.table.scopes ∧
      (closeBlock method index symbol d).2.blocks = d.blocks := by
  cases symbol with
  | none => exact ⟨⟨rfl, rfl, fun _ => rfl, fun _ => rfl⟩, rfl, rfl⟩
  | some y => exact ⟨similar_setNestedBlocks _ _ _, rfl, rfl⟩

theorem walked_exprs {method : ScopeId} {es : List Expr}
    (h : ∀ e ∈ es, ∀ scope d, d.table.Valid → method < d.table.scopeCount →
      scope < d.table.scopeCount → (ids [e]).Nodup → (∀ i ∈ ids [e], d.blocks[i]? = none) →
      (expr method scope e d).2.errors = #[] →
      Walked method scope [e] d (expr method scope e d).2)
    {scope : ScopeId} {d : Declarations} (hvalid : d.table.Valid) (hmethod : method < d.table.scopeCount)
    (hscope : scope < d.table.scopeCount) (hnodup : (ids es).Nodup)
    (hfresh : ∀ i ∈ ids es, d.blocks[i]? = none)
    (hclean : (exprs method scope es d).2.errors = #[]) :
    Walked method scope es d (exprs method scope es d).2 := by
  induction es generalizing d with
  | nil =>
    rw [exprs]
    exact .refl hvalid
  | cons e es ih =>
    rw [exprs, bind_apply] at hclean ⊢
    have hids : ids (e :: es) = ids [e] ++ ids es := ids_append [e] es
    rw [hids, List.nodup_append'] at hnodup
    rw [hids] at hfresh
    have hfirst := h e List.mem_cons_self scope d hvalid hmethod hscope hnodup.1
      (fun i hi => hfresh i (List.mem_append_left _ hi))
      ((keepsErrors_exprs (fun e' _ => keepsErrors_expr method e') scope).clean hclean)
    have hle := hfirst.grows.scopeCount_le
    refine hfirst.append hmethod (ih (fun e' he' => h e' (List.mem_cons_of_mem e he')) hfirst.valid
      (hmethod.trans_le hle) (hscope.trans_le hle) hnodup.2.1 (fun i hi => ?_) hclean)
    rw [hfirst.blocks_eq i fun hi' => hnodup.2.2 hi' hi]
    exact hfresh i (List.mem_append_right _ hi)

/-- The scope of a block as it is made. -/
def newBlockScope (method : String) (scope : ScopeId) (info : NodeInfo) (k : Nat) : Scope :=
  { kind := .block, name := method ++ "-block" ++ toString k, parent := some scope, span := info.span,
    blockIndex := some k }

theorem opens_openBlock {method scope : ScopeId} {info : NodeInfo} {k : Nat} {d : Declarations}
    (hvalid : d.table.Valid) (hscope : scope < d.table.scopeCount)
    (hfresh : d.blocks[info.id]? = none)
    (hclean : (openBlock method scope info k d).2.errors = #[]) :
    Opens (newBlockScope (d.table.scope method).name scope info k) []
      (d.blocks.insert info.id d.table.scopeCount) [] d (openBlock method scope info k d).2 := by
  have hblocks : ∀ (i : Nat) (s : ScopeId), d.blocks[i]? = some s →
      (d.blocks.insert info.id d.table.scopeCount)[i]? = some s := by
    intro i s hs
    rw [Std.TreeMap.getElem?_insert, if_neg, hs]
    intro hi
    rw [← Std.LawfulEqCmp.eq_of_compare hi, hfresh] at hs
    cases hs
  have hclasses : newClasses scope .block ⟨(d.table.scope method).name ++ "-block" ++ toString k,
      info.span⟩ (some d.table.scopeCount) = [] := if_neg fun h => by cases h.2
  rw [← hclasses]
  exact opens_declare hvalid ⟨rfl, rfl, rfl⟩ hscope rfl rfl hblocks hclean

/-- What numbering a block changes. -/
structure Numbered (method : ScopeId) (d d' : Declarations) : Prop where
  similar : Similar d.table d'.table
  grows : ∀ n, Grows n d d'
  blocks_eq : d'.blocks = d.blocks
  blockCount_method : (d'.table.scope method).blockCount = (d.table.scope method).blockCount + 1
  blockCount_other : ∀ s ≠ method, (d'.table.scope s).blockCount = (d.table.scope s).blockCount

theorem numbered_modifyScope {method : ScopeId} {d : Declarations} (hmethod : method < d.table.scopeCount) :
    Numbered method d { d with table := d.table.modifyScope method fun s =>
      { s with blockCount := (d.table.scope method).blockCount + 1 } } := by
  have hscope := d.table.scope_modifyScope method fun s =>
    { s with blockCount := (d.table.scope method).blockCount + 1 }
  have hsimilar := d.table.similar_modifyScope method (f := fun s =>
    { s with blockCount := (d.table.scope method).blockCount + 1 }) fun _ => rfl
  refine ⟨hsimilar, fun n => .of_similar hsimilar (fun s _ => ?_) rfl, rfl, ?_, fun s hs => ?_⟩
  · show ((d.table.modifyScope method _).scope s).primitive = _
    rw [hscope]
    split <;> rfl
  · show ((d.table.modifyScope method _).scope method).blockCount = _
    rw [hscope, if_pos ⟨rfl, hmethod⟩]
  · show ((d.table.modifyScope method _).scope s).blockCount = _
    rw [hscope, if_neg fun h => hs h.1]

/-- The variables of a block or a method, as they are declared. -/
def slotList (params locals : List Ident) : List (SymbolKind × String) :=
  (namesOf params).map (fun x => (.argument, x)) ++ (namesOf locals).map fun x => (.localVar, x)

/-- A block is numbered, its scope is made and filled, its statements are gone through, and it is
closed. -/
theorem Walked.block {method scope : ScopeId} {info : NodeInfo} {params locals : List Ident}
    {statements : List Expr} {close : Span} {d d₁ d₂ d₃ d' : Declarations}
    (hmethod : method < d.table.scopeCount) (hlimit : (d.table.scope method).blockCount < counterLimit)
    (hnumbered : Numbered method d d₁)
    (hopens : Opens
      (newBlockScope (d.table.scope method).name scope info (d.table.scope method).blockCount)
      (slotList params locals) (d₁.blocks.insert info.id d₁.table.scopeCount) [] d₁ d₂)
    (hbody : Walked method d₁.table.scopeCount statements d₂ d₃)
    (hsimilar : Similar d₃.table d'.table) (hscopes : d'.table.scopes = d₃.table.scopes)
    (hblocks : d'.blocks = d₃.blocks) :
    Walked method scope [.block info params locals statements close] d d' := by
  have hcount : d₁.table.scopeCount = d.table.scopeCount := hnumbered.similar.scopeCount_eq
  have hcount₂ : d₂.table.scopeCount = d.table.scopeCount + 1 := hopens.scopeCount_eq.trans (by rw [hcount])
  have hscope : ∀ s, d'.table.scope s = d₃.table.scope s := fun s => by
    rw [ScopeTable.scope_eq, hscopes, ScopeTable.scope_eq]
  have hclose : ∀ n, Grows n d₃ d' := fun n =>
    .of_similar hsimilar (fun s _ => congrArg Scope.primitive (hscope s)) hblocks
  have hopened : Grows d.table.scopeCount d₁ d₂ := hcount ▸ hopens.grows
  have hcount_method : (d₂.table.scope method).blockCount = (d.table.scope method).blockCount + 1 := by
    rw [hopens.blockCount_eq method (hcount ▸ hmethod), hnumbered.blockCount_method]
  have hids : ids [Expr.block info params locals statements close] = info.id :: ids statements :=
    ids_singleton _
  refine ⟨hsimilar.valid hbody.valid, ?_, ?_, fun i hi => ?_, ?_, fun _ => ?_, fun s hs hne => ?_,
    fun later hlater => ?_⟩
  · exact (((hnumbered.grows _).trans hopened).trans
      (hbody.grows.mono (by rw [hcount₂]; exact Nat.le_succ _))).trans (hclose _)
  · rw [hsimilar.classesOf_eq, hbody.classesOf_eq, hopens.classesOf_eq, List.append_nil,
      hnumbered.similar.classesOf_eq]
  · rw [hids, List.mem_cons, not_or] at hi
    rw [hblocks, hbody.blocks_eq i hi.2, hopens.blocks_eq, Std.TreeMap.getElem?_insert, if_neg,
      hnumbered.blocks_eq]
    exact fun h => hi.1 (Std.LawfulEqCmp.eq_of_compare h).symm
  · rw [hscope, hbody.blockCount_method, hcount_method, blockCountOfAll, blockCount, blockCountOfAll]
    omega
  · rw [hscope]
    exact hbody.blockCount_le (hcount_method ▸ hlimit)
  · rw [hscope, hbody.blockCount_other s (by rw [hcount₂]; exact Nat.lt_succ_of_lt hs) hne,
      hopens.blockCount_eq s (hcount ▸ hs), hnumbered.blockCount_other s hne]
  · -- from the time its variables have been declared, the scope of the block stays as it is
    have hafter₃ : Grows d₃.table.scopeCount d₃ later :=
      (hclose _).trans (hlater.mono (le_of_eq hsimilar.scopeCount_eq.symm))
    have hafter₂ : Grows d₂.table.scopeCount d₂ later :=
      hbody.grows.trans (hafter₃.mono hbody.grows.scopeCount_le)
    have hhead := (hafter₂.head_eq _ hopens.scope_lt).trans hopens.head_new
    have hname : (d₂.table.scope method).name = (d.table.scope method).name :=
      ((hnumbered.grows _).trans hopened).head_field Scope.name (fun _ => rfl) hmethod
    have hlaid := hbody.laid later hafter₃
    rw [hname, hcount_method] at hlaid
    rw [LaidAll, Laid, LaidAll]
    refine ⟨⟨d₁.table.scopeCount, hafter₂.blocks_le _ _ ?_, ?_, hlaid⟩, trivial⟩
    · rw [hopens.blocks_eq, Std.TreeMap.getElem?_insert_self]
    · exact {
        kind_eq := Scope.field_eq_of_head_eq hhead Scope.kind fun _ => rfl
        name_eq := Scope.field_eq_of_head_eq hhead Scope.name fun _ => rfl
        parent_eq := Scope.field_eq_of_head_eq hhead Scope.parent fun _ => rfl
        blockIndex_eq := Scope.field_eq_of_head_eq hhead Scope.blockIndex fun _ => rfl
        hasSlots := (hafter₂.variablesOf_eq _ hopens.scope_lt).trans hopens.variablesOf_new }

/-- The state in which the statements of a block are gone through: its scope has been made and filled. -/
def beginBlock (method scope : ScopeId) (info : NodeInfo) (params locals : List Ident) (index : Nat)
    (d : Declarations) : Declarations :=
  (declareAll d.table.scopeCount .localVar locals
    (declareAll d.table.scopeCount .argument params (openBlock method scope info index d).2).2).2

section Block

variable {method scope : ScopeId} {info : NodeInfo} {params locals : List Ident} {statements : List Expr}
  {close : Span} {index : Nat} {d d₁ : Declarations}

theorem expr_block_of_none (h : nextBlockIndex method d = (none, d₁)) :
    expr method scope (.block info params locals statements close) d =
      report (.limitExceeded (.counted .blocks) info.span) d₁ := by
  rw [expr, bind_apply, h]

theorem expr_block_of_some (h : nextBlockIndex method d = (some index, d₁)) :
    expr method scope (.block info params locals statements close) d =
      closeBlock method index (openBlock method scope info index d₁).1.2
        (exprs method d₁.table.scopeCount statements
          (beginBlock method scope info params locals index d₁)).2 := by
  rw [expr, bind_apply, h]
  rfl

/-- A number that a method gives out is below the limit, and counts from then on. -/
theorem numbered_of_nextBlockIndex (hmethod : method < d.table.scopeCount)
    (h : nextBlockIndex method d = (some index, d₁)) :
    index = (d.table.scope method).blockCount ∧ index < counterLimit ∧ d₁.errors = d.errors ∧
      Numbered method d d₁ := by
  rw [nextBlockIndex_apply] at h
  split at h
  · cases h
  · next hlimit =>
    cases h
    exact ⟨rfl, Nat.lt_of_not_le hlimit, rfl, numbered_modifyScope hmethod⟩

theorem nextBlockIndex_eq_none (h : nextBlockIndex method d = (none, d₁)) :
    counterLimit ≤ (d.table.scope method).blockCount ∧ d₁ = d := by
  rw [nextBlockIndex_apply] at h
  split at h
  · next hlimit =>
    cases h
    exact ⟨hlimit, rfl⟩
  · cases h

theorem opens_beginBlock (hvalid : d.table.Valid) (hscope : scope < d.table.scopeCount)
    (hfresh : d.blocks[info.id]? = none)
    (hclean : (beginBlock method scope info params locals index d).errors = #[]) :
    Opens (newBlockScope (d.table.scope method).name scope info index) (slotList params locals)
      (d.blocks.insert info.id d.table.scopeCount) [] d
      (beginBlock method scope info params locals index d) := by
  have hclean₁ := (keepsErrors_declareAll _ _ _).clean hclean
  have hopens := opens_openBlock hvalid hscope hfresh ((keepsErrors_declareAll _ _ _).clean hclean₁)
  exact (hopens.declareAll rfl (by decide) hclean₁).declareAll rfl (by decide) hclean

/-- The scope of a block does not stand where those of the blocks inside it will stand. -/
theorem getElem?_insert_eq_none {blocks : Std.TreeMap Nat ScopeId} {inner : ScopeId} {id : Nat}
    {later : List Nat} (hnot : id ∉ later) (hfresh : ∀ i ∈ later, blocks[i]? = none) :
    ∀ i ∈ later, (blocks.insert id inner)[i]? = none := by
  intro i hi
  rw [Std.TreeMap.getElem?_insert, if_neg]
  · exact hfresh i hi
  · exact fun h => hnot (Std.LawfulEqCmp.eq_of_compare h ▸ hi)

end Block

/-- Going through an expression without errors lays out its blocks. -/
theorem walked_expr (method : ScopeId) (e : Expr) : ∀ scope d, d.table.Valid →
    method < d.table.scopeCount → scope < d.table.scopeCount → (ids [e]).Nodup →
    (∀ i ∈ ids [e], d.blocks[i]? = none) → (expr method scope e d).2.errors = #[] →
    Walked method scope [e] d (expr method scope e d).2 := by
  induction e using Expr.children_induction with
  | block info params locals statements close ih =>
    intro scope d hvalid hmethod hscope hnodup hfresh hclean
    have hids : ids [Expr.block info params locals statements close] = info.id :: ids statements :=
      ids_singleton _
    rw [hids, List.nodup_cons] at hnodup
    rw [hids, List.forall_mem_cons] at hfresh
    rcases hnext : nextBlockIndex method d with ⟨_ | index, d₁⟩
    · rw [expr_block_of_none hnext] at hclean
      exact absurd hclean Array.push_ne_empty
    · obtain ⟨rfl, hlimit, -, hnumbered⟩ := numbered_of_nextBlockIndex hmethod hnext
      rw [expr_block_of_some hnext] at hclean ⊢
      have hcount : d₁.table.scopeCount = d.table.scopeCount := hnumbered.similar.scopeCount_eq
      have hname : (d₁.table.scope method).name = (d.table.scope method).name :=
        (hnumbered.grows _).head_field Scope.name (fun _ => rfl) hmethod
      -- the steps of a block, each of which starts where the one before has ended
      have hclean₂ := (keepsErrors_closeBlock _ _ _).clean hclean
      have hclean₁ := (keepsErrors_exprs (fun e _ => keepsErrors_expr method e) _).clean hclean₂
      rw [← hnumbered.blocks_eq] at hfresh
      have hopens := opens_beginBlock (hnumbered.similar.valid hvalid) (hcount ▸ hscope) hfresh.1 hclean₁
      have hmethod₁ := (hcount ▸ hmethod : method < d₁.table.scopeCount).trans hopens.scope_lt
      have hbody := walked_exprs ih hopens.valid hmethod₁ hopens.scope_lt hnodup.2
        (by rw [hopens.blocks_eq]; exact getElem?_insert_eq_none hnodup.1 hfresh.2) hclean₂
      rw [hname] at hopens
      obtain ⟨hsimilar, hscopes, hblocks⟩ := closeBlock_similar method (d.table.scope method).blockCount
        (openBlock method scope info (d.table.scope method).blockCount d₁).1.2 _
      exact .block hmethod hlimit hnumbered hopens hbody hsimilar hscopes hblocks
  | other e he ih =>
    intro scope d hvalid hmethod hscope hnodup hfresh hclean
    rw [ids_singleton, List.nodup_cons] at hnodup
    rw [ids_singleton, List.forall_mem_cons] at hfresh
    rw [expr_eq_exprs he] at hclean ⊢
    exact .of_children he (walked_exprs ih hvalid hmethod hscope hnodup.2 hfresh.2 hclean)

end DeclareM

end Smalltalk
