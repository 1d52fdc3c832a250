import Mathlib
import Smalltalk.Tree.Definition

/-!
# Trees as they are read

Trees that come from a text satisfy more than the type of trees says. Their nodes are numbered
without gaps or repeats, parts before the whole; only variables are assigned to; assignments and
returns are statements of a body; and characters have 16 bits.
-/

namespace Smalltalk.Expr

/-- Induction over a tree, where a statement about a node may use the statements about its parts. -/
theorem tree_induction {P : Expr → Prop}
    (atom : ∀ info value, P (.atom info value))
    (name : ∀ info x, P (.name info x))
    (array : ∀ info items, (∀ e ∈ items, P e) → P (.array info items))
    (block : ∀ info params locals statements close, (∀ e ∈ statements, P e) →
      P (.block info params locals statements close))
    (send : ∀ info receiver selector arguments, P receiver → (∀ e ∈ arguments, P e) →
      P (.send info receiver selector arguments))
    (superSend : ∀ info selector arguments, (∀ e ∈ arguments, P e) →
      P (.superSend info selector arguments))
    (assign : ∀ info target value, P target → P value → P (.assign info target value))
    (ret : ∀ info value, P value → P (.ret info value))
    (e : Expr) : P e :=
  @Expr.rec P (fun es => ∀ e ∈ es, P e) atom name array block send superSend assign ret
    (fun _ h => absurd h List.not_mem_nil)
    (fun _ _ head tail => List.forall_mem_cons.mpr ⟨head, tail⟩) e

/-! ## Nodes -/

@[simp]
theorem nodesOfAll_nil : nodesOfAll [] = [] := by
  rw [nodesOfAll]

@[simp]
theorem nodesOfAll_cons (e : Expr) (es : List Expr) :
    nodesOfAll (e :: es) = e.nodes ++ nodesOfAll es := by
  rw [nodesOfAll]

theorem nodesOfAll_append (es fs : List Expr) :
    nodesOfAll (es ++ fs) = nodesOfAll es ++ nodesOfAll fs := by
  induction es with
  | nil => simp
  | cons e es ih => simp [ih]

theorem mem_nodesOfAll {es : List Expr} {n : Expr} : n ∈ nodesOfAll es ↔ ∃ e ∈ es, n ∈ e.nodes := by
  induction es with
  | nil => simp
  | cons e es ih => simp [ih]

/-- The nodes of a tree are its root and the nodes of its parts. -/
theorem nodes_eq (e : Expr) : e.nodes = e :: nodesOfAll e.children := by
  cases e <;> simp [nodes, children]

/-- What holds of all nodes of a tree holds of its root and of all nodes of its parts. -/
theorem forall_nodes_iff {P : Expr → Prop} (e : Expr) :
    (∀ n ∈ e.nodes, P n) ↔ P e ∧ ∀ part ∈ e.children, ∀ n ∈ part.nodes, P n := by
  rw [nodes_eq, List.forall_mem_cons]
  refine and_congr_right fun _ => ⟨fun h part hpart n hn => ?_, fun h n hn => ?_⟩
  · exact h n (mem_nodesOfAll.mpr ⟨part, hpart, hn⟩)
  · obtain ⟨part, hpart, hn⟩ := mem_nodesOfAll.mp hn
    exact h part hpart n hn

theorem mem_nodesOfAll_of_mem {e : Expr} {es : List Expr} (h : e ∈ es) : e ∈ nodesOfAll es := by
  induction es with
  | nil => cases h
  | cons f es ih =>
    rw [nodesOfAll_cons, List.mem_append]
    rcases List.mem_cons.mp h with rfl | h
    · left
      rw [nodes_eq]
      exact List.mem_cons_self
    · exact Or.inr (ih h)

/-- The numbers of the nodes of some trees. -/
def ids (es : List Expr) : List Nat := (nodesOfAll es).map id

theorem ids_append (es fs : List Expr) : ids (es ++ fs) = ids es ++ ids fs := by
  simp [ids, nodesOfAll_append]

theorem ids_singleton (e : Expr) : ids [e] = e.id :: ids e.children := by
  rw [ids, nodesOfAll_cons, nodesOfAll_nil, List.append_nil, nodes_eq, List.map_cons, ids]

/-! ## Well-formed nodes -/

/-- Whether an expression can only stand as a statement. -/
def isStatement : Expr → Bool
  | assign _ _ _ | ret _ _ => true
  | _ => false

/-- Whether an expression is a block. -/
def isBlock : Expr → Bool
  | block _ _ _ _ _ => true
  | _ => false

/-- Induction over a tree, where all nodes but blocks are treated alike. -/
theorem children_induction {P : Expr → Prop}
    (block : ∀ info params locals statements close, (∀ e ∈ statements, P e) →
      P (.block info params locals statements close))
    (other : ∀ e, e.isBlock = false → (∀ part ∈ e.children, P part) → P e) (e : Expr) : P e := by
  induction e using tree_induction with
  | atom | name => exact other _ rfl fun _ h => absurd h List.not_mem_nil
  | array info items ih => exact other _ rfl ih
  | block info params locals statements close ih => exact block info params locals statements close ih
  | send info receiver selector arguments ihr iha =>
    exact other _ rfl (List.forall_mem_cons.mpr ⟨ihr, iha⟩)
  | superSend info selector arguments ih => exact other _ rfl ih
  | assign info target value iht ihv => exact other _ rfl (by simpa [children] using ⟨iht, ihv⟩)
  | ret info value ih => exact other _ rfl (by simpa [children] using ih)

/-- Whether an expression is a variable. -/
def isName : Expr → Bool
  | name _ _ => true
  | _ => false

/-- What holds of a single node by itself. -/
def IsProper : Expr → Prop
  | atom _ (.character c) => c.toNat ≤ 0xFFFF
  | send _ _ (.keyword parts) arguments => parts ≠ [] ∧ parts.length = arguments.length
  | assign _ target _ => target.isName
  | _ => True

/-- What holds of every node of a tree that was read from a text. -/
structure WellFormed (e : Expr) : Prop where
  /-- Parts are finished before the whole. -/
  part_lt : ∀ part ∈ e.children, part.id < e.id
  /-- Only the parts of a block are statements. -/
  part_value : e.isBlock = false → ∀ part ∈ e.children, part.isStatement = false
  /-- Characters have 16 bits, keyword messages have keywords, each with an argument, and variables are
  assigned to. -/
  proper : e.IsProper

/-- Trees whose nodes are well-formed and have the numbers from `a` up to, and without, `b`. -/
structure Built (a b : Nat) (es : List Expr) : Prop where
  /-- Numbers only grow. -/
  le : a ≤ b
  /-- Every number is used exactly once. -/
  ids_perm : (ids es).Perm (List.range' a (b - a))
  /-- Every node is well-formed. -/
  wellFormed : ∀ n ∈ nodesOfAll es, n.WellFormed

namespace Built

variable {a b c : Nat} {es fs : List Expr}

theorem nil (a : Nat) : Built a a [] :=
  ⟨le_rfl, by simp [ids], by simp⟩

theorem append (he : Built a b es) (hf : Built b c fs) : Built a c (es ++ fs) := by
  refine ⟨he.le.trans hf.le, ?_, ?_⟩
  · have hrange : List.range' a (c - a) = List.range' a (b - a) ++ List.range' b (c - b) := by
      have hb : b = a + 1 * (b - a) := by have := he.le; omega
      have hc : c - a = (b - a) + (c - b) := by have := he.le; have := hf.le; omega
      rw [hc, ← List.range'_append, ← hb]
    rw [ids_append, hrange]
    exact he.ids_perm.append hf.ids_perm
  · intro n hn
    rw [nodesOfAll_append, List.mem_append] at hn
    rcases hn with hn | hn
    · exact he.wellFormed n hn
    · exact hf.wellFormed n hn

theorem id_lt (h : Built a b es) {n : Expr} (hn : n ∈ nodesOfAll es) : n.id < b := by
  have hmem : n.id ∈ ids es := List.mem_map_of_mem hn
  have := h.ids_perm.mem_iff.mp hmem
  rw [List.mem_range'_1] at this
  have := h.le
  omega

theorem nodup_ids (h : Built a b es) : (ids es).Nodup :=
  h.ids_perm.nodup_iff.mpr List.nodup_range'

/-- A new node over parts that have been built gets the next number. -/
theorem node {e : Expr} (h : Built a b e.children) (hid : e.id = b)
    (hparts : e.isBlock = false → ∀ part ∈ e.children, part.isStatement = false)
    (hproper : e.IsProper) : Built a (b + 1) [e] := by
  have hnodes : nodesOfAll [e] = e :: nodesOfAll e.children := by
    rw [nodesOfAll_cons, nodesOfAll_nil, List.append_nil, nodes_eq]
  refine ⟨h.le.trans b.le_succ, ?_, ?_⟩
  · have hrange : List.range' a (b + 1 - a) = List.range' a (b - a) ++ [b] := by
      have hb : b = a + 1 * (b - a) := by have := h.le; omega
      have hc : b + 1 - a = (b - a) + 1 := by have := h.le; omega
      rw [hc, List.range'_concat, ← hb]
    rw [ids_singleton, hid, hrange]
    exact (h.ids_perm.cons b).trans (List.perm_append_singleton b _).symm
  · intro n hn
    rw [hnodes] at hn
    rcases List.mem_cons.mp hn with rfl | hn
    · refine ⟨fun part hpart => ?_, hparts, hproper⟩
      rw [hid]
      exact h.id_lt (mem_nodesOfAll_of_mem hpart)
    · exact h.wellFormed n hn

end Built

/-- Trees that have been built and are no statements. -/
structure BuiltValues (a b : Nat) (es : List Expr) : Prop where
  /-- They have been built. -/
  built : Built a b es
  /-- None is a statement. -/
  isValue : ∀ e ∈ es, e.isStatement = false

namespace BuiltValues

variable {a b c : Nat} {es fs : List Expr}

theorem nil (a : Nat) : BuiltValues a a [] :=
  ⟨.nil a, fun _ h => absurd h List.not_mem_nil⟩

theorem append (he : BuiltValues a b es) (hf : BuiltValues b c fs) : BuiltValues a c (es ++ fs) := by
  refine ⟨he.built.append hf.built, fun e h => ?_⟩
  rcases List.mem_append.mp h with h | h
  · exact he.isValue e h
  · exact hf.isValue e h

/-- A new node that is no statement, over values. -/
theorem node {e : Expr} (h : BuiltValues a b e.children) (hid : e.id = b) (hproper : e.IsProper)
    (hvalue : e.isStatement = false) : BuiltValues a (b + 1) [e] :=
  ⟨h.built.node hid (fun _ => h.isValue) hproper, by simpa using hvalue⟩

end BuiltValues

end Smalltalk.Expr

/-! ## Statements of definitions -/

namespace Smalltalk

/-- The statements of what a method does. -/
def MethodBody.statements : MethodBody → List Expr
  | code body => body.statements
  | primitive _ => []

/-- The statements of several methods. -/
def statementsOfMethods (methods : List MethodDef) : List Expr :=
  methods.flatMap fun m => m.body.statements

/-- The statements of several classes. -/
def statementsOfClasses (classes : List ClassDef) : List Expr :=
  classes.flatMap fun c => statementsOfMethods c.methods

/-- All statements of a unit: those of the methods, and the main program. -/
def SourceUnit.statements (u : SourceUnit) : List Expr :=
  statementsOfClasses u.classes ++ u.main.statements

end Smalltalk
