import Mathlib
import Smalltalk.Proofs.Arrangement
import Smalltalk.Proofs.Layout
import Smalltalk.Proofs.Spans

/-!
# The block literals of a body

The blocks in a body, at any depth, form one list: a block comes before the blocks inside it, and these come
before the blocks after it. The place of a block in the list is its number. Which blocks are around a block,
where in the text it stands, and which body makes it can all be read off the list.
-/

namespace Smalltalk

section Entries

variable {α : Type} {P : Nat → α → Prop}

theorem forall_getElem?_cons {a : α} {l : List α} :
    (∀ (j : Nat) x, (a :: l)[j]? = some x → P j x) ↔ P 0 a ∧ ∀ (j : Nat) x, l[j]? = some x → P (j + 1) x := by
  refine ⟨fun h => ⟨h 0 a rfl, fun j x hx => h (j + 1) x hx⟩, fun h j x hx => ?_⟩
  cases j with
  | zero =>
    cases hx
    exact h.1
  | succ j => exact h.2 j x hx

theorem forall_getElem?_append {l l' : List α} :
    (∀ (j : Nat) x, (l ++ l')[j]? = some x → P j x) ↔
      (∀ (j : Nat) x, l[j]? = some x → P j x) ∧ ∀ (j : Nat) x, l'[j]? = some x → P (l.length + j) x := by
  refine ⟨fun h => ⟨fun j x hx => h j x ?_, fun j x hx => h _ x ?_⟩, fun h j x hx => ?_⟩
  · rw [List.getElem?_append_left (List.getElem?_eq_some_iff.mp hx).1, hx]
  · rw [List.getElem?_append_right (Nat.le_add_right _ _), Nat.add_sub_cancel_left, hx]
  · by_cases hj : j < l.length
    · rw [List.getElem?_append_left hj] at hx
      exact h.1 j x hx
    · rw [List.getElem?_append_right (Nat.le_of_not_lt hj)] at hx
      rw [← Nat.add_sub_cancel' (Nat.le_of_not_lt hj)]
      exact h.2 _ x hx

end Entries

namespace Expr

/-- Induction over a list of trees, from the front, where the parts of the first tree are a list of trees. -/
theorem forest_induction {P : List Expr → Prop} (nil : P [])
    (block : ∀ info params locals statements close es, P statements → P es →
      P (.block info params locals statements close :: es))
    (other : ∀ e es, e.isBlock = false → P e.children → P es → P (e :: es)) (es : List Expr) : P es := by
  have hall : ∀ es : List Expr, (∀ e ∈ es, ∀ fs, P fs → P (e :: fs)) → P es := by
    intro es h
    induction es with
    | nil => exact nil
    | cons e es ih => exact h e List.mem_cons_self es (ih fun e' he' => h e' (List.mem_cons_of_mem e he'))
  refine hall es fun e _ => ?_
  clear * - hall block other
  induction e using children_induction with
  | block info params locals statements close ih =>
    exact fun fs hfs => block info params locals statements close fs (hall statements ih) hfs
  | other e he ih => exact fun fs hfs => other e fs he (hall e.children ih) hfs

/-- The blocks among the nodes of some trees, outer ones first, from left to right. -/
def blockNodes (es : List Expr) : List Expr := (nodesOfAll es).filter isBlock

theorem blockNodes_append (es fs : List Expr) : blockNodes (es ++ fs) = blockNodes es ++ blockNodes fs := by
  rw [blockNodes, nodesOfAll_append, List.filter_append]
  rfl

theorem blockNodes_cons_block (info : NodeInfo) (params locals : List Ident) (statements : List Expr)
    (close : Span) (es : List Expr) :
    blockNodes (.block info params locals statements close :: es) =
      .block info params locals statements close :: (blockNodes statements ++ blockNodes es) := by
  rw [blockNodes, nodesOfAll_cons, nodes_eq, List.cons_append, List.filter_cons_of_pos rfl,
    List.filter_append]
  rfl

theorem blockNodes_cons_other {e : Expr} (he : e.isBlock = false) (es : List Expr) :
    blockNodes (e :: es) = blockNodes e.children ++ blockNodes es := by
  rw [blockNodes, nodesOfAll_cons, nodes_eq, List.cons_append,
    List.filter_cons_of_neg (Bool.eq_false_iff.mp he), List.filter_append]
  rfl

theorem length_blockNodes (es : List Expr) : (blockNodes es).length = blockCountOfAll es := by
  induction es using forest_induction with
  | nil => rw [blockCountOfAll]; rfl
  | block info params locals statements close es ihs ihes =>
    rw [blockNodes_cons_block, List.length_cons, List.length_append, ihs, ihes, blockCountOfAll, blockCount]
    omega
  | other e es he ihe ihes =>
    rw [blockNodes_cons_other he, List.length_append, ihe, ihes, blockCountOfAll, blockCount_eq_children he]

/-! ## Where they stand in the text -/

theorem Between.bounds {lo hi : Nat} {es : List Expr} (h : Between lo hi es) :
    ∀ n ∈ nodesOfAll es, lo ≤ n.span.start.offset ∧ n.span.start.offset < hi := by
  induction h with
  | nil => simp
  | @cons lo hi e es hlo hlt hparts hrest ihparts ihrest =>
    have hle := hrest.le
    rw [nodesOfAll_cons, nodes_eq]
    refine List.forall_mem_append.mpr ⟨List.forall_mem_cons.mpr ⟨by omega, fun n hn => ?_⟩, fun n hn => ?_⟩
    · obtain ⟨hstart, hstop⟩ := ihparts n hn
      rw [partsStart] at hstart
      omega
    · obtain ⟨hstart, hstop⟩ := ihrest n hn
      omega

/-- A block that comes earlier starts earlier in the text. -/
theorem Between.pairwise_blockNodes {lo hi : Nat} {es : List Expr} (h : Between lo hi es) :
    (blockNodes es).Pairwise fun a b => a.span.start.offset < b.span.start.offset := by
  induction es using forest_induction generalizing lo hi with
  | nil => exact .nil
  | block info params locals statements close es ihs ihes =>
    cases h with
    | cons _ hlt hparts hrest =>
      rw [blockNodes_cons_block]
      refine List.pairwise_cons.mpr ⟨List.forall_mem_append.mpr ⟨fun n hn => ?_, fun n hn => ?_⟩,
        List.pairwise_append.mpr ⟨ihs hparts, ihes hrest, fun n hn m hm => ?_⟩⟩
      · exact (hparts.bounds n (List.mem_filter.mp hn).1).1
      · exact hlt.trans_le (hrest.bounds n (List.mem_filter.mp hn).1).1
      · exact (hparts.bounds n (List.mem_filter.mp hn).1).2.trans_le
          (hrest.bounds m (List.mem_filter.mp hm).1).1
  | other e es he ihe ihes =>
    cases h with
    | cons _ hlt hparts hrest =>
      rw [blockNodes_cons_other he]
      refine List.pairwise_append.mpr ⟨ihe hparts, ihes hrest, fun n hn m hm => ?_⟩
      exact (hparts.bounds n (List.mem_filter.mp hn).1).2.trans_le
        (hrest.bounds m (List.mem_filter.mp hm).1).1

end Expr

/-! ## Literals with their surroundings -/

/-- A block in a body, with the numbers of the blocks around it, from the outside in. -/
structure BlockLiteral where
  /-- The number and the place of its node. -/
  info : NodeInfo
  /-- Names for the arguments. -/
  params : List Ident
  /-- The local variables. -/
  locals : List Ident
  /-- The statements. -/
  statements : List Expr
  /-- The closing bracket. -/
  close : Span
  /-- The numbers of the blocks around, from the outside in. -/
  path : List Nat
  /-- What surrounds the block. -/
  outer : Surroundings

namespace BlockLiteral

/-- The block as an expression. -/
def node (l : BlockLiteral) : Expr := .block l.info l.params l.locals l.statements l.close

/-- The surroundings inside the block, if it has the number `k`. -/
def inner (l : BlockLiteral) (k : Nat) : Surroundings :=
  l.outer.enter k (namesOf l.params ++ namesOf l.locals)

/-- The block by itself, if it has the number `k`. -/
def translate (l : BlockLiteral) (k : Nat) : SymbolicBlock :=
  { name := l.outer.blockName k
    qualifiedName := String.intercalate ">>" (l.inner k).path
    argumentCount := l.params.length
    localCount := l.locals.length
    code := Expr.translateStatements (l.inner k) (k + 1) l.statements
      ++ markAt l.outer.file l.close.start ++ [.blockReturn] }

end BlockLiteral

namespace Expr

mutual

/-- The blocks in an expression, by number from `k` on; those of `path` are around all of them. -/
def blockLiterals (s : Surroundings) (path : List Nat) (k : Nat) : Expr → List BlockLiteral
  | atom _ _ | name _ _ => []
  | array _ items => blockLiteralsOfAll s path k items
  | block info params locals statements close =>
    ⟨info, params, locals, statements, close, path, s⟩
      :: blockLiteralsOfAll (s.enter k (namesOf params ++ namesOf locals)) (path ++ [k]) (k + 1) statements
  | send _ receiver _ arguments =>
    receiver.blockLiterals s path k ++ blockLiteralsOfAll s path (k + receiver.blockCount) arguments
  | superSend _ _ arguments => blockLiteralsOfAll s path k arguments
  | assign _ target value =>
    target.blockLiterals s path k ++ value.blockLiterals s path (k + target.blockCount)
  | ret _ value => value.blockLiterals s path k

/-- The blocks in several expressions, by number from `k` on. -/
def blockLiteralsOfAll (s : Surroundings) (path : List Nat) (k : Nat) : List Expr → List BlockLiteral
  | [] => []
  | e :: es => e.blockLiterals s path k ++ blockLiteralsOfAll s path (k + e.blockCount) es

end

section Literals

variable {s : Surroundings} {path : List Nat} {k : Nat}

theorem blockLiterals_eq_children {e : Expr} (he : e.isBlock = false) :
    e.blockLiterals s path k = blockLiteralsOfAll s path k e.children := by
  cases e with
  | block info params locals statements close => cases he
  | atom | name | array | send | superSend | assign | ret =>
    simp [blockLiterals, blockLiteralsOfAll, children]

theorem blocks_eq_children {e : Expr} (he : e.isBlock = false) :
    e.blocks s k = blocksOfAll s k e.children := by
  cases e with
  | block info params locals statements close => cases he
  | atom | name | array | send | superSend | assign | ret => simp [blocks, blocksOfAll, children]

theorem blockLiteralsOfAll_cons_block (info : NodeInfo) (params locals : List Ident)
    (statements : List Expr) (close : Span) (es : List Expr) :
    blockLiteralsOfAll s path k (.block info params locals statements close :: es) =
      ⟨info, params, locals, statements, close, path, s⟩
        :: (blockLiteralsOfAll (s.enter k (namesOf params ++ namesOf locals)) (path ++ [k]) (k + 1) statements
          ++ blockLiteralsOfAll s path (k + 1 + blockCountOfAll statements) es) := by
  rw [blockLiteralsOfAll, blockLiterals, blockCount, Nat.add_assoc]
  rfl

theorem blockLiteralsOfAll_cons_other {e : Expr} (he : e.isBlock = false) (es : List Expr) :
    blockLiteralsOfAll s path k (e :: es) =
      blockLiteralsOfAll s path k e.children
        ++ blockLiteralsOfAll s path (k + blockCountOfAll e.children) es := by
  rw [blockLiteralsOfAll, blockLiterals_eq_children he, blockCount_eq_children he]

/-- The literals are the blocks among the nodes. -/
theorem map_node_blockLiteralsOfAll (es : List Expr) :
    (blockLiteralsOfAll s path k es).map BlockLiteral.node = blockNodes es := by
  induction es using forest_induction generalizing s path k with
  | nil => rw [blockLiteralsOfAll]; rfl
  | block info params locals statements close es ihs ihes =>
    rw [blockLiteralsOfAll_cons_block, List.map_cons, List.map_append, ihs, ihes, blockNodes_cons_block]
    rfl
  | other e es he ihe ihes =>
    rw [blockLiteralsOfAll_cons_other he, List.map_append, ihe, ihes, blockNodes_cons_other he]

theorem length_blockLiteralsOfAll (es : List Expr) :
    (blockLiteralsOfAll s path k es).length = blockCountOfAll es := by
  rw [← length_blockNodes, ← map_node_blockLiteralsOfAll es, List.length_map]

/-- The blocks of a translation are the literals, each with its number. -/
theorem blocksOfAll_eq_mapIdx (es : List Expr) :
    blocksOfAll s k es = (blockLiteralsOfAll s path k es).mapIdx fun j l => l.translate (k + j) := by
  induction es using forest_induction generalizing s path k with
  | nil => rw [blocksOfAll, blockLiteralsOfAll]; rfl
  | block info params locals statements close es ihs ihes =>
    rw [blockLiteralsOfAll_cons_block, blocksOfAll, blocks, List.mapIdx_cons, List.mapIdx_append,
      @ihs _ (path ++ [k]) (k + 1), @ihes s path, blockCount, length_blockLiteralsOfAll, Nat.add_assoc k 1]
    simp only [Nat.add_assoc, Nat.add_comm 1, Nat.add_left_comm]
    rfl
  | other e es he ihe ihes =>
    rw [blockLiteralsOfAll_cons_other he, blocksOfAll, blocks_eq_children he, blockCount_eq_children he,
      List.mapIdx_append, @ihe s path k, @ihes s path, length_blockLiteralsOfAll]
    simp only [Nat.add_comm, Nat.add_left_comm]

/-- All blocks around a block are named in its surroundings. -/
theorem outer_of_mem_blockLiteralsOfAll (es : List Expr) :
    ∀ l ∈ blockLiteralsOfAll s path k es, ∃ inside, l.path = path ++ inside ∧
      l.outer.file = s.file ∧ l.outer.method = s.method ∧ l.outer.path = s.path ++ inside.map s.blockName := by
  induction es using forest_induction generalizing s path k with
  | nil =>
    rw [blockLiteralsOfAll]
    exact fun l hl => absurd hl List.not_mem_nil
  | block info params locals statements close es ihs ihes =>
    rw [blockLiteralsOfAll_cons_block]
    refine List.forall_mem_cons.mpr ⟨⟨[], by simp⟩, List.forall_mem_append.mpr ⟨fun l hl => ?_, ihes⟩⟩
    obtain ⟨inside, hpath, hfile, hmethod, houter⟩ := ihs l hl
    refine ⟨k :: inside, by simp [hpath], hfile, hmethod, ?_⟩
    rw [houter]
    simp [Surroundings.enter, Surroundings.blockName]
  | other e es he ihe ihes =>
    rw [blockLiteralsOfAll_cons_other he]
    exact List.forall_mem_append.mpr ⟨ihe, ihes⟩

/-- What comes right after an entry of a part of a list does so in the whole list. -/
theorem prefix_drop_append {α : Type} {l l' inside : List α} {j : Nat} (hj : j < l.length)
    (h : inside <+: l.drop (j + 1)) : inside <+: (l ++ l').drop (j + 1) := by
  rw [List.drop_append_of_le_length hj]
  exact h.trans (List.prefix_append _ _)

theorem prefix_drop_append_right {α : Type} (l : List α) {l' inside : List α} {j : Nat}
    (h : inside <+: l'.drop (j + 1)) : inside <+: (l ++ l').drop (l.length + j + 1) := by
  rw [Nat.add_assoc, List.drop_length_add_append]
  exact h

/-- The blocks inside a block come right after it. -/
theorem prefix_drop_blockLiteralsOfAll (es : List Expr) :
    ∀ (j : Nat) l, (blockLiteralsOfAll s path k es)[j]? = some l →
      blockLiteralsOfAll (l.inner (k + j)) (l.path ++ [k + j]) (k + j + 1) l.statements
        <+: (blockLiteralsOfAll s path k es).drop (j + 1) := by
  induction es using forest_induction generalizing s path k with
  | nil =>
    rw [blockLiteralsOfAll]
    exact fun j l hl => absurd hl (by simp)
  | block info params locals statements close es ihs ihes =>
    rw [blockLiteralsOfAll_cons_block]
    refine forall_getElem?_cons.mpr ⟨List.prefix_append _ _, forall_getElem?_append.mpr
      ⟨fun j l hl => ?_, fun j l hl => ?_⟩⟩
    · have h := ihs j l hl
      rw [Nat.add_right_comm k 1 j] at h
      exact prefix_drop_append (List.getElem?_eq_some_iff.mp hl).1 h
    · refine prefix_drop_append_right _ ?_
      have hk : k + (blockCountOfAll statements + j + 1) = k + 1 + blockCountOfAll statements + j := by omega
      rw [length_blockLiteralsOfAll, hk]
      exact ihes j l hl
  | other e es he ihe ihes =>
    rw [blockLiteralsOfAll_cons_other he]
    refine forall_getElem?_append.mpr ⟨fun j l hl => ?_, fun j l hl => ?_⟩
    · exact prefix_drop_append (List.getElem?_eq_some_iff.mp hl).1 (ihe j l hl)
    · refine prefix_drop_append_right _ ?_
      rw [length_blockLiteralsOfAll, ← Nat.add_assoc]
      exact ihes j l hl

end Literals

/-! ## The blocks around a block -/

/-- The numbers of the blocks that have a given node inside, if blocks are numbered from `k` on. -/
def blocksAround (es : List Expr) (k id : Nat) : List Nat :=
  (blockNodes es).findIdxs (fun b => id ∈ ids b.children) k

theorem ids_cons_children (e : Expr) (es : List Expr) : ids (e :: es) = e.id :: (ids e.children ++ ids es) := by
  rw [← List.singleton_append, ids_append, ids_singleton]
  rfl

theorem ids_cons_block (info : NodeInfo) (params locals : List Ident) (statements : List Expr)
    (close : Span) (es : List Expr) :
    ids (.block info params locals statements close :: es) = info.id :: (ids statements ++ ids es) :=
  ids_cons_children _ es

section Around

variable {s : Surroundings} {path : List Nat} {k id : Nat}

theorem blocksAround_cons_block (info : NodeInfo) (params locals : List Ident) (statements : List Expr)
    (close : Span) (es : List Expr) :
    blocksAround (.block info params locals statements close :: es) k id =
      (if id ∈ ids statements then [k] else []) ++ (blocksAround statements (k + 1) id
        ++ blocksAround es (k + 1 + blockCountOfAll statements) id) := by
  rw [blocksAround, blockNodes_cons_block, List.findIdxs_cons, List.findIdxs_append, length_blockNodes,
    children]
  by_cases hid : id ∈ ids statements
  · rw [if_pos hid, if_pos (decide_eq_true hid)]
    rfl
  · rw [if_neg hid, if_neg (mt of_decide_eq_true hid)]
    rfl

theorem blocksAround_cons_other {e : Expr} (he : e.isBlock = false) (es : List Expr) :
    blocksAround (e :: es) k id =
      blocksAround e.children k id ++ blocksAround es (k + blockCountOfAll e.children) id := by
  rw [blocksAround, blockNodes_cons_other he, List.findIdxs_append, length_blockNodes]
  rfl

/-- Nothing is around a node that stands elsewhere. -/
theorem blocksAround_of_notMem {es : List Expr} (h : id ∉ ids es) : blocksAround es k id = [] := by
  induction es using forest_induction generalizing k with
  | nil => rfl
  | block info params locals statements close es ihs ihes =>
    rw [ids_cons_block, List.mem_cons, List.mem_append, not_or, not_or] at h
    obtain ⟨-, hstatements, hes⟩ := h
    rw [blocksAround_cons_block, if_neg hstatements, ihs hstatements, ihes hes]
    rfl
  | other e es he ihe ihes =>
    rw [ids_cons_children, List.mem_cons, List.mem_append, not_or, not_or] at h
    obtain ⟨-, hparts, hes⟩ := h
    rw [blocksAround_cons_other he, ihe hparts, ihes hes]
    rfl

theorem mem_ids_of_mem_blockLiteralsOfAll {es : List Expr} {l : BlockLiteral}
    (hl : l ∈ blockLiteralsOfAll s path k es) : l.info.id ∈ ids es := by
  have hnode : l.node ∈ blockNodes es := by
    rw [← @map_node_blockLiteralsOfAll s path k]
    exact List.mem_map_of_mem hl
  exact List.mem_map_of_mem (List.mem_filter.mp hnode).1

/-- If every node has its own number, the path of a block leads through those that are around it. -/
theorem path_eq_blocksAround {es : List Expr} (hnodup : (ids es).Nodup) :
    ∀ l ∈ blockLiteralsOfAll s path k es, l.path = path ++ blocksAround es k l.info.id := by
  induction es using forest_induction generalizing s path k with
  | nil =>
    rw [blockLiteralsOfAll]
    exact fun l hl => absurd hl List.not_mem_nil
  | block info params locals statements close es ihs ihes =>
    rw [ids_cons_block, List.nodup_cons, List.nodup_append', List.mem_append, not_or] at hnodup
    obtain ⟨⟨hself, hself'⟩, hinside, hrest, hdisjoint⟩ := hnodup
    rw [blockLiteralsOfAll_cons_block]
    refine List.forall_mem_cons.mpr ⟨?_, List.forall_mem_append.mpr ⟨fun l hl => ?_, fun l hl => ?_⟩⟩
    · rw [blocksAround_cons_block, if_neg hself, blocksAround_of_notMem hself, blocksAround_of_notMem hself']
      exact (List.append_nil path).symm
    · have hmem := mem_ids_of_mem_blockLiteralsOfAll hl
      rw [ihs hinside l hl, blocksAround_cons_block, if_pos hmem, blocksAround_of_notMem (hdisjoint hmem)]
      simp
    · have hmem := mem_ids_of_mem_blockLiteralsOfAll hl
      have hnot : l.info.id ∉ ids statements := fun h => hdisjoint h hmem
      rw [ihes hrest l hl, blocksAround_cons_block, if_neg hnot, blocksAround_of_notMem hnot]
      rfl
  | other e es he ihe ihes =>
    rw [ids_cons_children, List.nodup_cons, List.nodup_append'] at hnodup
    obtain ⟨-, hinside, hrest, hdisjoint⟩ := hnodup
    rw [blockLiteralsOfAll_cons_other he]
    refine List.forall_mem_append.mpr ⟨fun l hl => ?_, fun l hl => ?_⟩
    · have hmem := mem_ids_of_mem_blockLiteralsOfAll hl
      rw [ihe hinside l hl, blocksAround_cons_other he, blocksAround_of_notMem (hdisjoint hmem),
        List.append_nil]
    · have hmem := mem_ids_of_mem_blockLiteralsOfAll hl
      have hnot : l.info.id ∉ ids e.children := fun h => hdisjoint h hmem
      rw [ihes hrest l hl, blocksAround_cons_other he, blocksAround_of_notMem hnot]
      rfl

end Around

/-! ## Which body makes a block -/

/-- The numbers of the blocks that code makes, in order. -/
def blockNumbers (code : List SymbolicInstruction) : List Nat := code.filterMap SymbolicInstruction.block?

theorem blockNumbers_append (code code' : List SymbolicInstruction) :
    blockNumbers (code ++ code') = blockNumbers code ++ blockNumbers code' :=
  List.filterMap_append

theorem blockNumbers_concat (code : List SymbolicInstruction) {i : SymbolicInstruction}
    (hi : i.block? = none) : blockNumbers (code ++ [i]) = blockNumbers code := by
  have hnone : blockNumbers [i] = [] := List.filterMap_cons_none hi
  rw [blockNumbers_append, hnone, List.append_nil]

theorem blockNumbers_markAt (file : Option String) (p : Position) : blockNumbers (markAt file p) = [] := by
  cases file <;> rfl

section Making

variable {s : Surroundings} {path : List Nat} {k : Nat}

theorem blockNumbers_translateStatements (es : List Expr) :
    blockNumbers (translateStatements s k es) = blockNumbers (translateAll s k es) := by
  induction es generalizing k with
  | nil => rw [translateStatements, translateAll]
  | cons e es ih =>
    cases es with
    | nil => rw [translateStatements, translateAll, translateAll, List.append_nil]
    | cons f es =>
      rw [translateStatements_cons_cons, translateAll, blockNumbers_append, blockNumbers_concat _ rfl,
        blockNumbers_append, ih]

/-- The code of a node that is no block makes the blocks that the code of its parts makes. -/
theorem blockNumbers_translate_eq_children {e : Expr} (he : e.isBlock = false) (hproper : e.IsProper) :
    blockNumbers (e.translate s k) = blockNumbers (translateAll s k e.children) := by
  cases e with
  | atom info value =>
    rw [translate, children, translateAll]
    cases value <;> rfl
  | name info x =>
    rw [translate, children, translateAll]
    cases s.refer x <;> rfl
  | array info items => rw [translate, children, blockNumbers_concat _ rfl]
  | block info params locals statements close => cases he
  | send info receiver selector arguments =>
    rw [translate, children, blockNumbers_concat _ rfl, translateAll]
  | superSend info selector arguments =>
    rw [translate, children, blockNumbers_concat _ rfl]
    rfl
  | assign info target value =>
    have hname : target.isName := hproper
    cases target with
    | name info' x =>
      have hstore : blockNumbers (storeInto s (.name info' x)) = [] := by
        rw [storeInto]
        cases s.refer x <;> rfl
      have hpush : blockNumbers ((Expr.name info' x).translate s k) = [] := by
        rw [translate]
        cases s.refer x <;> rfl
      rw [translate, children, translateAll, translateAll, translateAll, blockNumbers_append,
        blockNumbers_append, hstore, hpush]
      simp
    | atom | array | block | send | superSend | assign | ret => cases hname
  | ret info value =>
    rw [translate, children, blockNumbers_concat _ rfl, blockNumbers_append, blockNumbers_markAt, translateAll,
      translateAll, List.append_nil, List.append_nil]

/-- A block makes the blocks that its statements make. -/
theorem blockNumbers_code (l : BlockLiteral) :
    blockNumbers (l.translate k).code = blockNumbers (translateAll (l.inner k) (k + 1) l.statements) := by
  rw [BlockLiteral.translate, blockNumbers_concat _ rfl, blockNumbers_append, blockNumbers_markAt,
    List.append_nil, blockNumbers_translateStatements]

/-- Every literal is made by the body that it stands in: by code that makes the given blocks if nothing else
is around it, and by the block at the end of its path otherwise. -/
def MadeInPlace (path : List Nat) (k : Nat) (numbers : List Nat) (ls : List BlockLiteral) : Prop :=
  ∀ (j : Nat) l, ls[j]? = some l →
    l.path = path ∧ k + j ∈ numbers ∨
    ∃ a < j, ∃ l', ls[a]? = some l' ∧ l.path = l'.path ++ [k + a] ∧
      k + j ∈ blockNumbers (l'.translate (k + a)).code

theorem MadeInPlace.append {numbers numbers' : List Nat} {ls ls' : List BlockLiteral}
    (h : MadeInPlace path k numbers ls) (h' : MadeInPlace path (k + ls.length) numbers' ls') :
    MadeInPlace path k (numbers ++ numbers') (ls ++ ls') := by
  refine forall_getElem?_append.mpr ⟨fun j l hl => ?_, fun j l hl => ?_⟩
  · rcases h j l hl with ⟨hpath, hmem⟩ | ⟨a, ha, l', hl', hmade⟩
    · exact .inl ⟨hpath, List.mem_append_left _ hmem⟩
    · refine .inr ⟨a, ha, l', ?_, hmade⟩
      rw [List.getElem?_append_left (List.getElem?_eq_some_iff.mp hl').1, hl']
  · rcases h' j l hl with ⟨hpath, hmem⟩ | ⟨a, ha, l', hl', hmade⟩
    · rw [Nat.add_assoc] at hmem
      exact .inl ⟨hpath, List.mem_append_right _ hmem⟩
    · rw [Nat.add_assoc, Nat.add_assoc] at hmade
      refine .inr ⟨ls.length + a, Nat.add_lt_add_left ha _, l', ?_, hmade⟩
      rw [List.getElem?_append_right (Nat.le_add_right _ _), Nat.add_sub_cancel_left, hl']

/-- A block is made by the body around it, and makes the blocks that stand directly in it. -/
theorem MadeInPlace.block {l : BlockLiteral} {ls : List BlockLiteral} (hpath : l.path = path)
    (h : MadeInPlace (path ++ [k]) (k + 1) (blockNumbers (l.translate k).code) ls) :
    MadeInPlace path k [k] (l :: ls) := by
  refine forall_getElem?_cons.mpr ⟨.inl ⟨hpath, List.mem_singleton_self k⟩, fun j l' hl' => .inr ?_⟩
  rcases h j l' hl' with ⟨hpath', hmem⟩ | ⟨a, ha, l'', hl'', hmade⟩
  · rw [Nat.add_right_comm] at hmem
    exact ⟨0, Nat.succ_pos j, l, rfl, by rw [hpath', hpath]; rfl, hmem⟩
  · rw [Nat.add_right_comm, Nat.add_right_comm k 1] at hmade
    exact ⟨a + 1, Nat.succ_lt_succ ha, l'', hl'', hmade⟩

theorem madeInPlace_blockLiteralsOfAll {es : List Expr} (hproper : ∀ n ∈ nodesOfAll es, n.IsProper) :
    MadeInPlace path k (blockNumbers (translateAll s k es)) (blockLiteralsOfAll s path k es) := by
  induction es using forest_induction generalizing s path k with
  | nil =>
    rw [blockLiteralsOfAll]
    exact fun j l hl => absurd hl (by simp)
  | block info params locals statements close es ihs ihes =>
    rw [nodesOfAll_cons, nodes_eq, List.forall_mem_append, List.forall_mem_cons] at hproper
    obtain ⟨⟨-, hstatements⟩, hes⟩ := hproper
    have hblock : MadeInPlace path k [k] (⟨info, params, locals, statements, close, path, s⟩ ::
        blockLiteralsOfAll (s.enter k (namesOf params ++ namesOf locals)) (path ++ [k]) (k + 1) statements) := by
      refine .block rfl ?_
      rw [blockNumbers_code]
      exact ihs hstatements
    have hcode : translateAll s k (.block info params locals statements close :: es) =
        [.block k] ++ translateAll s (k + 1 + blockCountOfAll statements) es := by
      rw [translateAll, translate, blockCount, Nat.add_assoc]
    rw [blockLiteralsOfAll_cons_block, hcode, blockNumbers_append]
    refine hblock.append ?_
    rw [List.length_cons, length_blockLiteralsOfAll, Nat.add_comm (blockCountOfAll statements), ← Nat.add_assoc]
    exact ihes hes
  | other e es he ihe ihes =>
    rw [nodesOfAll_cons, nodes_eq, List.forall_mem_append, List.forall_mem_cons] at hproper
    obtain ⟨⟨hself, hparts⟩, hes⟩ := hproper
    have hrest := @ihes s path (k + blockCountOfAll e.children) hes
    rw [blockLiteralsOfAll_cons_other he, translateAll, blockNumbers_append,
      blockNumbers_translate_eq_children he hself, blockCount_eq_children he]
    rw [← @length_blockLiteralsOfAll s path k e.children] at hrest ⊢
    exact (ihe hparts).append hrest

end Making

end Expr

/-- All blocks together are made exactly once: their numbers are those from `k` on, in some order. -/
theorem Output.Arranged.perm_blockNumbers {file : Option String} {k : Nat} {o : Output}
    (h : o.Arranged file k) :
    (Expr.blockNumbers o.code ++ o.blocks.flatMap fun b => Expr.blockNumbers b.code).Perm
      (List.range' k o.blocks.length) := by
  induction h with
  | nil => exact .nil
  | @plain k i _ hblock =>
    rw [Output.plain, Expr.blockNumbers, List.filterMap_cons_none hblock]
    exact .nil
  | @naming k i s hstring hmark =>
    have hblock : i.block? = none := by cases i <;> first | rfl | cases hstring
    rw [Output.naming, Expr.blockNumbers, List.filterMap_cons_none hblock]
    exact .nil
  | mark k p =>
    rw [markOutput, Expr.blockNumbers_markAt]
    exact .nil
  | block k hcode hnone hinside ih =>
    rw [List.flatMap_cons, hcode, List.length_cons, List.range'_succ]
    exact ih.cons k
  | @append k o o' hleft hright ihleft ihright =>
    have hswap := (List.perm_append_comm_assoc (Expr.blockNumbers o'.code)
      (o.blocks.flatMap fun b => Expr.blockNumbers b.code)
      (o'.blocks.flatMap fun b => Expr.blockNumbers b.code)).append_left (Expr.blockNumbers o.code)
    have hboth := ihleft.append ihright
    rw [List.append_assoc] at hboth
    rw [Output.append_eq, Expr.blockNumbers_append, List.flatMap_append, List.length_append,
      ← List.range'_append_1, List.append_assoc]
    exact hswap.trans hboth

end Smalltalk
