import Mathlib
import Smalltalk.Proofs.Reading

/-!
# Units that have been read are forests

Later stages keep what they find out about a node in tables over node numbers, so they rely on every
number standing for one node in one place. A node stands in a place if it is a statement of a body or
a part of another node. In a unit that has been read every number below the node count stands in
exactly one place, and the nodes that hold it have larger numbers.
-/

namespace Smalltalk

namespace Expr

/-- The nodes of some trees are their roots and the parts of their nodes, if this holds of each tree. -/
theorem nodesOfAll_perm_of_forall {es : List Expr}
    (h : ∀ e ∈ es, e.nodes.Perm (e :: e.nodes.flatMap children)) :
    (nodesOfAll es).Perm (es ++ (nodesOfAll es).flatMap children) := by
  induction es with
  | nil => simp
  | cons e es ih =>
    obtain ⟨he, hes⟩ := List.forall_mem_cons.mp h
    rw [nodesOfAll_cons, List.flatMap_append]
    exact (he.append (ih hes)).trans ((List.perm_append_comm_assoc _ _ _).cons e)

/-- A node of a tree is its root or a part of one of its nodes. -/
theorem nodes_perm (e : Expr) : e.nodes.Perm (e :: e.nodes.flatMap children) := by
  have step : ∀ e : Expr, (∀ part ∈ e.children, part.nodes.Perm (part :: part.nodes.flatMap children)) →
      e.nodes.Perm (e :: e.nodes.flatMap children) := by
    intro e hparts
    rw [nodes_eq, List.flatMap_cons]
    exact (nodesOfAll_perm_of_forall hparts).cons e
  induction e using children_induction with
  | block info params locals statements close ih => exact step _ ih
  | other e _ ih => exact step e ih

theorem nodesOfAll_perm (es : List Expr) :
    (nodesOfAll es).Perm (es ++ (nodesOfAll es).flatMap children) :=
  nodesOfAll_perm_of_forall fun e _ => nodes_perm e

end Expr

namespace SourceUnit

/-- What stands in the places of a unit: the statements of its bodies, and the parts of its nodes, which
are the statements of blocks and the operands of the others. -/
def occurrences (u : SourceUnit) : List Expr :=
  u.bodies.flatMap (·.statements) ++ u.nodes.flatMap Expr.children

theorem flatMap_statements_bodies (u : SourceUnit) :
    u.bodies.flatMap (·.statements) = u.statements := by
  have hmethods : ∀ methods : List MethodDef,
      (methods.filterMap (·.body.code?)).flatMap (·.statements) = statementsOfMethods methods := by
    intro methods
    induction methods with
    | nil => rfl
    | cons m methods ih =>
      rw [statementsOfMethods, List.flatMap_cons, ← statementsOfMethods, ← ih]
      cases hbody : m.body with
      | code body => simp [hbody, MethodBody.code?, MethodBody.statements]
      | primitive name => simp [hbody, MethodBody.code?, MethodBody.statements]
  simp only [bodies, statements, List.flatMap_append, List.flatMap_singleton, List.flatMap_assoc, hmethods,
    statementsOfClasses]

theorem nodes_eq_nodesOfAll (u : SourceUnit) : u.nodes = Expr.nodesOfAll u.statements := by
  have hflat : ∀ bodies : List Body, (bodies.flatMap fun b => Expr.nodesOfAll b.statements)
      = Expr.nodesOfAll (bodies.flatMap (·.statements)) := by
    intro bodies
    induction bodies with
    | nil => simp
    | cons b bodies ih => simp [Expr.nodesOfAll_append, ih]
  rw [nodes, hflat, flatMap_statements_bodies]

/-- Every node of a unit stands in one of its places. -/
theorem occurrences_perm (u : SourceUnit) : u.occurrences.Perm u.nodes := by
  rw [occurrences, flatMap_statements_bodies, nodes_eq_nodesOfAll]
  exact (Expr.nodesOfAll_perm u.statements).symm

/-- The nodes of a unit that has been read form a forest, without gaps in the numbers: every number
below the node count stands in exactly one place, and no other number stands anywhere. Parts have smaller
numbers than the nodes that hold them. Only variables are assigned to, only bodies hold assignments and
returns, characters have 16 bits, and keyword messages have a keyword with an argument for each. -/
theorem forest_of_ofSource {source : String} {u : SourceUnit} (h : ofSource source = .ok u) :
    (∀ i, (u.occurrences.map Expr.id).count i = if i < u.nodeCount then 1 else 0) ∧
    (∀ n ∈ u.nodes, (∀ part ∈ n.children, part.id < n.id) ∧
      (n.isBlock = false → ∀ part ∈ n.children, part.isStatement = false)) ∧
    (∀ info target value, .assign info target value ∈ u.nodes → ∃ info' x, target = .name info' x) ∧
    (∀ info c, .atom info (.character c) ∈ u.nodes → c.toNat ≤ 0xFFFF) ∧
    (∀ info receiver parts arguments, .send info receiver (.keyword parts) arguments ∈ u.nodes →
      0 < parts.length ∧ parts.length = arguments.length) := by
  have hbuilt := built_of_ofSource h
  have hwell : ∀ n ∈ u.nodes, n.WellFormed := by
    rw [nodes_eq_nodesOfAll]
    exact hbuilt.wellFormed
  refine ⟨fun i => ?_, fun n hn => ⟨(hwell n hn).part_lt, (hwell n hn).part_value⟩, ?_, ?_, ?_⟩
  · have hperm : (u.occurrences.map Expr.id).Perm (List.range u.nodeCount) := by
      refine (u.occurrences_perm.map Expr.id).trans ?_
      rw [nodes_eq_nodesOfAll, List.range_eq_range']
      exact hbuilt.ids_perm
    rw [hperm.count_eq, List.count_range]
  · intro info target value hn
    have htarget : target.isName := (hwell _ hn).proper
    cases target with
    | name info' x => exact ⟨info', x, rfl⟩
    | _ => cases htarget
  · exact fun info c hn => (hwell _ hn).proper
  · intro info receiver parts arguments hn
    obtain ⟨hne, hlength⟩ := (hwell _ hn).proper
    exact ⟨List.length_pos_iff.mpr hne, hlength⟩

/-- A unit with a nested block, an assignment, a character and a keyword message. -/
theorem forest_of_ofSource_nested :
    ∃ u, ofSource "Object subclass: #A [ m: x [ x := [ :y | ^x m: $a ]. ^super m: {1} ] ] | t | t foo: 2 bar: t"
        = .ok u ∧ u.nodeCount = 15 ∧
      ∀ i, (u.occurrences.map Expr.id).count i = if i < 15 then 1 else 0 := by
  have hcount : (ofSource
      "Object subclass: #A [ m: x [ x := [ :y | ^x m: $a ]. ^super m: {1} ] ] | t | t foo: 2 bar: t").toOption.map
      (·.nodeCount) = some 15 := by decide +kernel
  cases hread : ofSource
      "Object subclass: #A [ m: x [ x := [ :y | ^x m: $a ]. ^super m: {1} ] ] | t | t foo: 2 bar: t" with
  | error errors =>
    rw [hread] at hcount
    cases hcount
  | ok u =>
    rw [hread] at hcount
    have hnodes : u.nodeCount = 15 := Option.some.inj hcount
    have hforest := forest_of_ofSource hread
    rw [hnodes] at hforest
    exact ⟨u, rfl, hnodes, hforest.1⟩

end SourceUnit

end Smalltalk
