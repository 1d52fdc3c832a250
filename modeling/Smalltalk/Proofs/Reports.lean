import Mathlib
import Smalltalk.Proofs.Registration

/-!
# What declaring a unit reports

The reports about the names of a unit can be read off its source: a name is reported if another one that
it clashes with has been registered in the same place before, or if too many have been registered on its
counter. The walk through a unit gives exactly these reports, whatever has been refused on the way.

A block that comes after its method has numbered all it can is reported itself, and nothing inside it is
looked at. No other block is ever refused, since its number makes its name a new one.
-/

namespace Smalltalk

open ScopeTable Registration

/-! ## Bodies -/

/-- The variables of a method or a block as they are registered. -/
def slotRegistrations (params locals : List Ident) : List (Registration × Span) :=
  DeclareM.variableRegistrations .argument params ++ DeclareM.variableRegistrations .localVar locals

/-- The name of a block of a method. -/
def nameOfBlock (method : String) (k : Nat) : String := method ++ "-block" ++ toString k

theorem nameOfBlock_injective {method : String} {j k : Nat}
    (h : nameOfBlock method j = nameOfBlock method k) : j = k :=
  Nat.repr_inj.mp ((String.append_right_inj _).mp h)

namespace Expr

section Errors

variable (method : String)

mutual

/-- What is wrong with the declarations in an expression of a method. The names around it are `path`, and
`k` is the number of the first block that is still to come. -/
def declarationErrors (path : List String) (k : Nat) : Expr → List Diagnostic
  | atom _ _ | name _ _ => []
  | array _ items => declarationErrorsOfAll path k items
  | block info params locals statements _ =>
    if counterLimit ≤ k then [.limitExceeded (.counted .blocks) info.span]
    else
      complaintsOfAll (String.intercalate ">>" (path ++ [nameOfBlock method k])) []
          (slotRegistrations params locals)
        ++ declarationErrorsOfAll (path ++ [nameOfBlock method k]) (k + 1) statements
  | send _ receiver _ arguments =>
    receiver.declarationErrors path k ++ declarationErrorsOfAll path (k + receiver.blockCount) arguments
  | superSend _ _ arguments => declarationErrorsOfAll path k arguments
  | assign _ target value =>
    target.declarationErrors path k ++ value.declarationErrors path (k + target.blockCount)
  | ret _ value => value.declarationErrors path k

/-- What is wrong with the declarations in several expressions. -/
def declarationErrorsOfAll (path : List String) (k : Nat) : List Expr → List Diagnostic
  | [] => []
  | e :: es => e.declarationErrors path k ++ declarationErrorsOfAll path (k + e.blockCount) es

end

end Errors

variable {method : String} {path : List String} {k : Nat}

theorem declarationErrors_eq_children {e : Expr} (he : e.isBlock = false) :
    e.declarationErrors method path k = declarationErrorsOfAll method path k e.children := by
  cases e with
  | block info params locals statements close => cases he
  | atom | name | array | send | superSend | assign | ret =>
    simp [declarationErrors, declarationErrorsOfAll, children]

theorem declarationErrorsOfAll_append (es fs : List Expr) :
    declarationErrorsOfAll method path k (es ++ fs)
      = declarationErrorsOfAll method path k es
        ++ declarationErrorsOfAll method path (k + blockCountOfAll es) fs := by
  induction es generalizing k with
  | nil => simp [declarationErrorsOfAll]
  | cons e es ih => simp [declarationErrorsOfAll, ih, Nat.add_assoc]

end Expr

/-- The blocks that a scope has registered are blocks of a method with numbers below `k`. -/
structure ScopeTable.BlocksBelow (t : ScopeTable) (s : ScopeId) (method : String) (k : Nat) : Prop where
  name_eq : ∀ r ∈ t.registrationsOf s, r.space = .blocks → ∃ j < k, r.name = nameOfBlock method j
  count_le : (t.registrationsOf s).countP (·.kind.counter = .blocks) ≤ k

namespace ScopeTable.BlocksBelow

variable {t t' : ScopeTable} {s : ScopeId} {method : String} {k k' : Nat}

theorem mono (h : t.BlocksBelow s method k) (hle : k ≤ k') : t.BlocksBelow s method k' := by
  refine ⟨fun r hr hspace => ?_, h.count_le.trans hle⟩
  obtain ⟨j, hj, hname⟩ := h.name_eq r hr hspace
  exact ⟨j, hj.trans_le hle, hname⟩

theorem of_eq (h : t.BlocksBelow s method k) (heq : t'.registrationsOf s = t.registrationsOf s) :
    t'.BlocksBelow s method k := by
  refine ⟨?_, ?_⟩
  · rw [heq]
    exact h.name_eq
  · rw [heq]
    exact h.count_le

/-- The next block clashes with none before, and there is room for it. -/
theorem accepts (h : t.BlocksBelow s method k) (hk : k < counterLimit) :
    ¬ (t.registrationsOf s).any (Registration.mk .block .blocks (nameOfBlock method k)).clashes = true ∧
      ¬ counterLimit ≤ (Registration.mk .block .blocks (nameOfBlock method k)).onCounter
        (t.registrationsOf s) := by
  refine ⟨fun hany => ?_, fun hlimit => ?_⟩
  · obtain ⟨r, hr, hclash⟩ := List.any_eq_true.mp hany
    rw [clashes, Bool.and_eq_true, decide_eq_true_iff, decide_eq_true_iff] at hclash
    obtain ⟨j, hj, hname⟩ := h.name_eq r hr hclash.1.symm
    exact Nat.ne_of_gt hj (nameOfBlock_injective (hclash.2.trans hname))
  · exact absurd (hlimit.trans h.count_le) (Nat.not_le_of_lt hk)

/-- After the next block has been registered, all blocks have numbers below the one after it. -/
theorem of_register (h : t.BlocksBelow s method k) (hk : k < counterLimit)
    (heq : t'.registrationsOf s
      = register (t.registrationsOf s) ⟨.block, .blocks, nameOfBlock method k⟩) :
    t'.BlocksBelow s method (k + 1) := by
  obtain ⟨hclash, hlimit⟩ := h.accepts hk
  rw [register, if_neg hclash, if_neg hlimit] at heq
  refine ⟨fun r hr hspace => ?_, ?_⟩
  · rw [heq, List.mem_append, List.mem_singleton] at hr
    rcases hr with hr | rfl
    · obtain ⟨j, hj, hname⟩ := h.name_eq r hr hspace
      exact ⟨j, Nat.lt_succ_of_lt hj, hname⟩
    · exact ⟨k, Nat.lt_succ_self k, rfl⟩
  · rw [heq, List.countP_append]
    exact Nat.add_le_add h.count_le (List.countP_le_length)

/-- A scope with nothing but variables has registered no blocks. -/
theorem of_slots {params locals : List Ident}
    (heq : t.registrationsOf s = registerAll [] (slotRegistrations params locals)) :
    t.BlocksBelow s method k := by
  have hvalues : ∀ r ∈ t.registrationsOf s, r.space = .values ∧ r.kind.counter = .slots := by
    intro r hr
    rw [heq] at hr
    rcases mem_registerAll hr with hr | hr
    · cases hr
    · rw [slotRegistrations, List.map_append, List.mem_append] at hr
      rcases hr with hr | hr <;> obtain ⟨new, hnew, rfl⟩ := List.mem_map.mp hr <;>
        obtain ⟨x, -, rfl⟩ := List.mem_map.mp hnew <;> exact ⟨rfl, rfl⟩
  refine ⟨fun r hr hspace => ?_, ?_⟩
  · rw [(hvalues r hr).1] at hspace
    cases hspace
  · rw [List.countP_eq_zero.mpr]
    · exact Nat.zero_le k
    · intro r hr
      rw [(hvalues r hr).2]
      decide

end ScopeTable.BlocksBelow

theorem ScopeTable.kind_ne_of_le {t : ScopeTable} {s : ScopeId} (h : t.scopeCount ≤ s) :
    (t.scope s).kind ≠ .classDef := by
  rw [scope_of_le h]
  decide

/-- If no step makes a class scope, both together make none. -/
theorem ScopeTable.kind_ne_trans {t t' t'' : ScopeTable}
    (hfirst : ∀ s, t.scopeCount ≤ s → (t'.scope s).kind ≠ .classDef)
    (hhead : ∀ s < t'.scopeCount, (t''.scope s).head = (t'.scope s).head)
    (hsecond : ∀ s, t'.scopeCount ≤ s → (t''.scope s).kind ≠ .classDef) (s : ScopeId)
    (hs : t.scopeCount ≤ s) : (t''.scope s).kind ≠ .classDef := by
  by_cases hlt : s < t'.scopeCount
  · rw [Scope.field_eq_of_head_eq (hhead s hlt) Scope.kind fun _ => rfl]
    exact hfirst s hs
  · exact hsecond s (Nat.le_of_not_lt hlt)

theorem Declarations.Enters.kind_ne {new : Scope} {outer : ScopeId} {entry : Registration × Span}
    {news : List (Registration × Span)} {d d' : Declarations}
    (h : Declarations.Enters new outer entry news d d') (hnew : new.kind ≠ .classDef) (s : ScopeId)
    (hs : d.table.scopeCount ≤ s) :
    (d'.table.scope s).kind ≠ .classDef := by
  rcases h.kind_cases hs with hle | ⟨-, hkind⟩
  · exact ScopeTable.kind_ne_of_le hle
  · rw [hkind]
    exact hnew

namespace DeclareM

open Declarations Smalltalk.Expr

/-- The walk is in a scope of a method, before the block number `k`. -/
structure InBody (method scope : ScopeId) (name : String) (path : List String) (k : Nat)
    (d : Declarations) : Prop where
  valid : d.table.Valid
  method_lt : method < d.table.scopeCount
  scope_lt : scope < d.table.scopeCount
  name_eq : (d.table.scope method).name = name
  pathOf_eq : d.table.pathOf scope = path
  blockCount_eq : (d.table.scope method).blockCount = min counterLimit k
  blocksBelow : d.table.BlocksBelow scope name (min counterLimit k)

/-- What going through expressions leaves behind and reports. -/
structure Surveyed (method scope : ScopeId) (name : String) (path : List String) (k : Nat)
    (es : List Expr) (d d' : Declarations) : Prop where
  inBody : InBody method scope name path (k + blockCountOfAll es) d'
  scopeCount_le : d.table.scopeCount ≤ d'.table.scopeCount
  kind_new : ∀ s, d.table.scopeCount ≤ s → (d'.table.scope s).kind ≠ .classDef
  head_eq : ∀ s < d.table.scopeCount, (d'.table.scope s).head = (d.table.scope s).head
  registrationsOf_eq : ∀ s < d.table.scopeCount, s ≠ scope →
    d'.table.registrationsOf s = d.table.registrationsOf s
  classesOf_eq : d'.table.classesOf = d.table.classesOf
  errors_eq : d'.errors.toList = d.errors.toList ++ declarationErrorsOfAll name path k es

namespace Surveyed

variable {method scope : ScopeId} {name : String} {path : List String} {k : Nat} {es fs : List Expr}
  {d d' d'' : Declarations}

theorem refl (h : InBody method scope name path k d) : Surveyed method scope name path k [] d d := by
  refine ⟨by simpa [blockCountOfAll] using h, le_rfl, fun _ => kind_ne_of_le, fun _ _ => rfl,
    fun _ _ _ => rfl, rfl, ?_⟩
  rw [declarationErrorsOfAll, List.append_nil]

theorem append (h : Surveyed method scope name path k es d d')
    (h' : Surveyed method scope name path (k + blockCountOfAll es) fs d' d'') :
    Surveyed method scope name path k (es ++ fs) d d'' where
  inBody := by
    rw [blockCountOfAll_append, ← Nat.add_assoc]
    exact h'.inBody
  scopeCount_le := h.scopeCount_le.trans h'.scopeCount_le
  kind_new := kind_ne_trans h.kind_new h'.head_eq h'.kind_new
  head_eq s hs := (h'.head_eq s (hs.trans_le h.scopeCount_le)).trans (h.head_eq s hs)
  registrationsOf_eq s hs hne :=
    (h'.registrationsOf_eq s (hs.trans_le h.scopeCount_le) hne).trans (h.registrationsOf_eq s hs hne)
  classesOf_eq := h'.classesOf_eq.trans h.classesOf_eq
  errors_eq := by
    rw [h'.errors_eq, h.errors_eq, declarationErrorsOfAll_append, List.append_assoc]

/-- What is noted about symbols afterwards does not matter. -/
theorem of_similar (h : Surveyed method scope name path k es d d') (hsimilar : Similar d'.table d''.table)
    (hscopes : d''.table.scopes = d'.table.scopes) (herrors : d''.errors = d'.errors) :
    Surveyed method scope name path k es d d'' := by
  have hscope : ∀ s, d''.table.scope s = d'.table.scope s := fun s => by
    rw [ScopeTable.scope_eq, hscopes, ScopeTable.scope_eq]
  have hregistrations := hsimilar.registrationsOf_eq h.inBody.valid
  have hcount := hsimilar.scopeCount_eq
  have hvalid := hsimilar.valid h.inBody.valid
  have hpath : d''.table.pathOf scope = d'.table.pathOf scope :=
    h.inBody.valid.pathOf_eq hvalid (fun s _ => by rw [hscope]) h.inBody.scope_lt
  refine ⟨⟨hvalid, hcount ▸ h.inBody.method_lt, hcount ▸ h.inBody.scope_lt, ?_,
    hpath.trans h.inBody.pathOf_eq, ?_, h.inBody.blocksBelow.of_eq (hregistrations scope)⟩,
    hcount ▸ h.scopeCount_le, fun s hs => ?_, fun s hs => ?_, fun s hs hne => ?_,
    hsimilar.classesOf_eq.trans h.classesOf_eq, herrors ▸ h.errors_eq⟩
  · rw [hscope]
    exact h.inBody.name_eq
  · rw [hscope]
    exact h.inBody.blockCount_eq
  · rw [hscope]
    exact h.kind_new s hs
  · rw [hscope]
    exact h.head_eq s hs
  · rw [hregistrations]
    exact h.registrationsOf_eq s hs hne

/-- Going through a node that is no block is going through its parts. -/
theorem of_children {e : Expr} (he : e.isBlock = false)
    (h : Surveyed method scope name path k e.children d d') :
    Surveyed method scope name path k [e] d d' where
  inBody := by
    rw [blockCountOfAll, blockCountOfAll, blockCount_eq_children he, Nat.add_zero]
    exact h.inBody
  scopeCount_le := h.scopeCount_le
  kind_new := h.kind_new
  head_eq := h.head_eq
  registrationsOf_eq := h.registrationsOf_eq
  classesOf_eq := h.classesOf_eq
  errors_eq := by
    rw [h.errors_eq, declarationErrorsOfAll, declarationErrorsOfAll, declarationErrors_eq_children he,
      List.append_nil]

end Surveyed

section Walk

variable {method scope : ScopeId} {name : String} {path : List String} {k : Nat} {d d₁ d₂ d' : Declarations}

theorem surveyed_exprs {es : List Expr}
    (h : ∀ e ∈ es, ∀ scope path k d, InBody method scope name path k d →
      Surveyed method scope name path k [e] d (expr method scope e d).2)
    (hd : InBody method scope name path k d) :
    Surveyed method scope name path k es d (exprs method scope es d).2 := by
  induction es generalizing k d with
  | nil =>
    rw [exprs]
    exact .refl hd
  | cons e es ih =>
    rw [exprs, bind_apply]
    have hfirst := h e List.mem_cons_self scope path k d hd
    exact hfirst.append (ih (fun e' he' => h e' (List.mem_cons_of_mem e he')) hfirst.inBody)

/-- A block for which there is no number is reported, and that is all. -/
theorem Surveyed.unnumbered {info : NodeInfo} {params locals : List Ident} {statements : List Expr}
    {close : Span} (hd : InBody method scope name path k d) (hk : counterLimit ≤ k) :
    Surveyed method scope name path k [.block info params locals statements close] d
      { d with errors := d.errors.push (.limitExceeded (.counted .blocks) info.span) } := by
  have hmin : ∀ n, min counterLimit (k + n) = min counterLimit k := fun n => by omega
  refine ⟨⟨hd.valid, hd.method_lt, hd.scope_lt, hd.name_eq, hd.pathOf_eq, ?_, ?_⟩, le_rfl,
    fun _ => kind_ne_of_le, fun _ _ => rfl, fun _ _ _ => rfl, rfl, ?_⟩
  · rw [hmin]
    exact hd.blockCount_eq
  · rw [hmin]
    exact hd.blocksBelow
  · rw [declarationErrorsOfAll, declarationErrorsOfAll, declarationErrors, if_pos hk, Array.toList_push]
    rfl

/-- A block has been numbered, and its scope has been made and filled. -/
theorem InBody.block {info : NodeInfo} {params locals : List Ident}
    (hd : InBody method scope name path k d) (hk : k < counterLimit) (hnumbered : Numbered method d d₁)
    (henters : Enters (newBlockScope name scope info k) scope
      (⟨.block, .blocks, nameOfBlock name k⟩, info.span) (slotRegistrations params locals) d₁ d₂) :
    InBody method d₁.table.scopeCount name (path ++ [nameOfBlock name k]) (k + 1) d₂ := by
  have hmethod : method < d₁.table.scopeCount := hnumbered.similar.scopeCount_eq ▸ hd.method_lt
  have hhead : ∀ s, (d₁.table.scope s).head = (d.table.scope s).head :=
    hnumbered.similar.scope_field Scope.head fun _ => rfl
  refine ⟨henters.valid, hmethod.trans henters.scope_lt, henters.scope_lt, ?_, ?_, ?_,
    .of_slots henters.registrationsOf_new⟩
  · exact (Scope.field_eq_of_head_eq ((henters.head_eq method hmethod).trans (hhead method))
      Scope.name fun _ => rfl).trans hd.name_eq
  · rw [henters.pathOf_new, hd.valid.pathOf_eq (hnumbered.similar.valid hd.valid) (fun s _ => hhead s)
      hd.scope_lt, hd.pathOf_eq]
    rfl
  · rw [henters.blockCount_eq method hmethod, hnumbered.blockCount_method, hd.blockCount_eq,
      Nat.min_eq_right (Nat.le_of_lt hk), Nat.min_eq_right hk]

/-- The statements of a block that has been numbered and opened have been gone through. -/
theorem Surveyed.block {info : NodeInfo} {params locals : List Ident} {statements : List Expr}
    {close : Span} (hd : InBody method scope name path k d) (hk : k < counterLimit)
    (hnumbered : Numbered method d d₁) (herrors₁ : d₁.errors = d.errors)
    (henters : Enters (newBlockScope name scope info k) scope
      (⟨.block, .blocks, nameOfBlock name k⟩, info.span) (slotRegistrations params locals) d₁ d₂)
    (hbody : Surveyed method d₁.table.scopeCount name (path ++ [nameOfBlock name k]) (k + 1) statements
      d₂ d') :
    Surveyed method scope name path k [.block info params locals statements close] d d' := by
  have hcount : d₁.table.scopeCount = d.table.scopeCount := hnumbered.similar.scopeCount_eq
  have hscope : scope < d₁.table.scopeCount := hcount ▸ hd.scope_lt
  have hhead₁ : ∀ s, (d₁.table.scope s).head = (d.table.scope s).head :=
    hnumbered.similar.scope_field Scope.head fun _ => rfl
  have hpath₁ : d₁.table.pathOf scope = path := (hd.valid.pathOf_eq (hnumbered.similar.valid hd.valid)
    (fun s _ => hhead₁ s) hd.scope_lt).trans hd.pathOf_eq
  have hregistrations₁ := hnumbered.similar.registrationsOf_eq hd.valid
  have hbelow : d₁.table.BlocksBelow scope name k := by
    have h := hd.blocksBelow
    rw [Nat.min_eq_right (Nat.le_of_lt hk)] at h
    exact h.of_eq (hregistrations₁ scope)
  have hlt₂ : ∀ s < d.table.scopeCount, s < d₂.table.scopeCount := fun s hs =>
    (hcount ▸ hs : s < d₁.table.scopeCount).trans henters.scope_lt
  have hhead : ∀ s < d.table.scopeCount, (d'.table.scope s).head = (d.table.scope s).head := by
    intro s hs
    rw [hbody.head_eq s (hlt₂ s hs), henters.head_eq s (hcount ▸ hs), hhead₁]
  have hle : d.table.scopeCount ≤ d'.table.scopeCount := by
    rw [← hcount]
    exact (Nat.le_of_lt henters.scope_lt).trans hbody.scopeCount_le
  have hblocks : k + blockCountOfAll [Expr.block info params locals statements close]
      = k + 1 + blockCountOfAll statements := by
    rw [blockCountOfAll, blockCount, blockCountOfAll]
    omega
  refine ⟨⟨hbody.inBody.valid, hd.method_lt.trans_le hle, hd.scope_lt.trans_le hle, hbody.inBody.name_eq,
    (hd.valid.pathOf_eq hbody.inBody.valid hhead hd.scope_lt).trans hd.pathOf_eq, ?_, ?_⟩, hle, ?_, hhead,
    fun s hs hne => ?_, ?_, ?_⟩
  · rw [hbody.inBody.blockCount_eq, hblocks]
  · rw [hblocks]
    refine (hbelow.of_register hk ?_).mono (by omega)
    rw [hbody.registrationsOf_eq scope (hscope.trans henters.scope_lt) (Nat.ne_of_lt hscope),
      henters.registrationsOf_outer]
  · rw [← hcount]
    exact kind_ne_trans (henters.kind_ne (by simp [newBlockScope])) hbody.head_eq hbody.kind_new
  · rw [hbody.registrationsOf_eq s (hlt₂ s hs) (Nat.ne_of_lt (hcount ▸ hs)),
      henters.registrationsOf_other s (hcount ▸ hs) hne, hregistrations₁]
  · rw [hbody.classesOf_eq, henters.classesOf_eq (by simp), hnumbered.similar.classesOf_eq]
  · obtain ⟨hclash, hlimit⟩ := hbelow.accepts hk
    rw [hbody.errors_eq, henters.errors_eq, herrors₁, Registration.complaints, if_neg hclash,
      if_neg hlimit, hpath₁, declarationErrorsOfAll, declarationErrorsOfAll, declarationErrors,
      if_neg (Nat.not_le_of_lt hk), List.nil_append, List.append_nil, List.append_assoc]
    rfl

/-- Making the scope of a block declares the block in the scope around it. -/
theorem enters_openBlock (method : ScopeId) (info : NodeInfo) (k : Nat) (hvalid : d.table.Valid)
    (hscope : scope < d.table.scopeCount) :
    Enters (newBlockScope (d.table.scope method).name scope info k) scope
      (⟨.block, .blocks, nameOfBlock (d.table.scope method).name k⟩, info.span) [] d
      (openBlock method scope info k d).2 :=
  enters_declare hvalid ⟨rfl, rfl, rfl⟩ (by simp [newBlockScope]) hscope rfl .block
    ⟨nameOfBlock (d.table.scope method).name k, info.span⟩ (d.blocks.insert info.id d.table.scopeCount)

theorem errors_closeBlock (index : Nat) (symbol : Option SymbolId) :
    (closeBlock method index symbol d).2.errors = d.errors := by
  cases symbol <;> rfl

/-- Going through an expression reports what is wrong with its declarations. -/
theorem surveyed_expr (method : ScopeId) (name : String) (e : Expr) : ∀ scope path k d,
    InBody method scope name path k d →
    Surveyed method scope name path k [e] d (expr method scope e d).2 := by
  induction e using Expr.children_induction with
  | block info params locals statements close ih =>
    intro scope path k d hd
    have hblockCount := hd.blockCount_eq
    rcases hnext : nextBlockIndex method d with ⟨_ | index, d₁⟩
    · obtain ⟨hlimit, rfl⟩ := nextBlockIndex_eq_none hnext
      rw [expr_block_of_none hnext]
      exact .unnumbered hd (by omega)
    · obtain ⟨hindex, hlimit, herrors₁, hnumbered⟩ := numbered_of_nextBlockIndex hd.method_lt hnext
      have hk : index = k := by omega
      subst hk
      have hname : (d₁.table.scope method).name = name :=
        (hnumbered.similar.scope_field Scope.name (fun _ => rfl) method).trans hd.name_eq
      have hscope : scope < d₁.table.scopeCount := hnumbered.similar.scopeCount_eq ▸ hd.scope_lt
      have hopened := enters_openBlock method info index (hnumbered.similar.valid hd.valid) hscope
      rw [hname] at hopened
      have hunit : (newBlockScope name scope info index).kind ≠ .unit := by simp [newBlockScope]
      have hfilled := (hopened.declareAll hscope hunit .argument (by decide) params).declareAll
        hscope hunit .localVar (by decide) locals
      rw [expr_block_of_some hnext]
      obtain ⟨hsimilar, hscopes, -⟩ := closeBlock_similar method index
        (openBlock method scope info index d₁).1.2 _
      have hbody := surveyed_exprs ih (hd.block hlimit hnumbered hfilled)
      exact .of_similar (.block hd hlimit hnumbered herrors₁ hfilled hbody) hsimilar hscopes
        (errors_closeBlock _ _)
  | other e he ih =>
    intro scope path k d hd
    rw [expr_eq_exprs he]
    exact .of_children he (surveyed_exprs ih hd)

end Walk

end DeclareM

end Smalltalk
