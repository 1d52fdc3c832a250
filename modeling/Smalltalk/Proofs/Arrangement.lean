import Mathlib
import Smalltalk.Proofs.Output

/-!
# How outputs are arranged

What the parts of a body contribute is put together from few pieces: single instructions, position marks,
and blocks, which are numbered in the order in which they begin. A block stands where its number is, with
its own code set apart; its strings come at that point.
-/

namespace Smalltalk

/-- The number of the block that an instruction makes. -/
def SymbolicInstruction.block? : SymbolicInstruction → Option Nat
  | block k => some k
  | _ => none

/-- Outputs that are put together from single instructions, position marks for the given file, and blocks
that are numbered from `k` on. -/
inductive Output.Arranged (file : Option String) : Nat → Output → Prop where
  | nil (k : Nat) : Arranged file k nil
  | plain (k : Nat) {i : SymbolicInstruction} :
    i.string? = none → i.block? = none → Arranged file k (plain i)
  | naming (k : Nat) {i : SymbolicInstruction} {s : String} :
    i.string? = some s → i.isMark = false → Arranged file k (naming i s)
  | mark (k : Nat) (p : Position) : Arranged file k (markOutput file p)
  | block (k : Nat) {o : Output} {b : SymbolicBlock} :
    b.code = o.code → b.blocks = [] → Arranged file (k + 1) o →
    Arranged file k ⟨[.block k], o.strings, b :: o.blocks⟩
  | append {k : Nat} {o o' : Output} :
    Arranged file k o → Arranged file (k + o.blocks.length) o' → Arranged file k (o ++ o')

namespace Expr

open Output

/-- Several expressions are arranged one after the other if each of them is. -/
theorem arranged_outputOfAll {es : List Expr} {s : Surroundings}
    (h : ∀ e ∈ es, ∀ k, Arranged s.file k (e.output s k)) (k : Nat) :
    Arranged s.file k (outputOfAll s k es) := by
  induction es generalizing k with
  | nil =>
    rw [outputOfAll_nil]
    exact .nil k
  | cons e es ih =>
    have hrest := ih (fun e' he' => h e' (List.mem_cons_of_mem e he')) (k + e.blockCount)
    rw [← e.length_blocks s k] at hrest
    rw [outputOfAll_cons, ← e.length_blocks s k]
    exact (h e List.mem_cons_self k).append hrest

theorem arranged_outputOfStatements {es : List Expr} {s : Surroundings}
    (h : ∀ e ∈ es, ∀ k, Arranged s.file k (e.output s k)) (k : Nat) :
    Arranged s.file k (outputOfStatements s k es) := by
  induction es generalizing k with
  | nil =>
    rw [outputOfStatements_nil]
    exact .nil k
  | cons e es ih =>
    have hfirst := h e List.mem_cons_self k
    cases es with
    | nil =>
      rw [outputOfStatements_singleton]
      exact hfirst
    | cons f es =>
      have hrest := ih (fun e' he' => h e' (List.mem_cons_of_mem e he')) (k + e.blockCount)
      rw [outputOfStatements_cons_cons]
      refine (hfirst.append (.plain _ rfl rfl)).append ?_
      have hlength : (e.output s k ++ plain .pop).blocks.length = e.blockCount := by
        rw [← e.length_blocks s k]
        exact congrArg List.length (List.append_nil _)
      rw [hlength]
      exact hrest

/-- If only variables are assigned to, the output of an expression is arranged. -/
theorem arranged_output (e : Expr) (hproper : ∀ n ∈ e.nodes, n.IsProper) :
    ∀ s k, Arranged s.file k (e.output s k) := by
  induction e using tree_induction with
  | atom info value =>
    intro s k
    cases value with
    | string value => exact .naming k rfl rfl
    | integer | float | character | nilObject | trueObject | falseObject | receiver => exact .plain k rfl rfl
  | name info x =>
    intro s k
    show Arranged s.file k ⟨[(s.refer x).push x], (s.refer x).strings x, []⟩
    cases s.refer x with
    | global => exact .naming k rfl rfl
    | slot | field => exact .plain k rfl rfl
  | array info items ih =>
    intro s k
    obtain ⟨-, hitems⟩ := (forall_nodes_iff _).mp hproper
    rw [output_array]
    exact (arranged_outputOfAll (fun e he => ih e he (hitems e he) s) k).append (.plain _ rfl rfl)
  | block info params locals statements close ih =>
    intro s k
    obtain ⟨-, hstatements⟩ := (forall_nodes_iff _).mp hproper
    have hbody : ∀ s k, Arranged s.file k (bodyOutput s k statements close.start) := fun s k =>
      ((arranged_outputOfStatements (fun e he => ih e he (hstatements e he) s) k).append (.mark _ _)).append
        (.plain _ rfl rfl)
    rw [output_block]
    exact .block k rfl rfl (hbody (s.enter k _) _)
  | send info receiver selector arguments ihr iha =>
    intro s k
    obtain ⟨-, hparts⟩ := (forall_nodes_iff _).mp hproper
    have hreceiver := ihr (hparts receiver List.mem_cons_self) s k
    have harguments := arranged_outputOfAll
      (fun e he => iha e he (hparts e (List.mem_cons_of_mem _ he)) s) (k + receiver.blockCount)
    rw [← receiver.length_blocks s k] at harguments
    rw [output_send, ← receiver.length_blocks s k]
    exact (hreceiver.append harguments).append (.naming _ rfl rfl)
  | superSend info selector arguments ih =>
    intro s k
    obtain ⟨-, harguments⟩ := (forall_nodes_iff _).mp hproper
    rw [output_superSend]
    exact (Arranged.append (.plain k rfl rfl)
      (arranged_outputOfAll (fun e he => ih e he (harguments e he) s) k)).append (.naming _ rfl rfl)
  | assign info target value iht ihv =>
    intro s k
    obtain ⟨htarget, hparts⟩ := (forall_nodes_iff _).mp hproper
    have hname : target.isName := htarget
    cases target with
    | name info' x =>
      have hstore : ∀ k, Arranged s.file k ⟨(s.refer x).store, [], []⟩ := by
        intro k
        cases s.refer x with
        | global => exact .nil k
        | slot | field => exact .plain k rfl rfl
      rw [output_assign_name]
      exact (ihv (hparts value (List.mem_cons_of_mem _ List.mem_cons_self)) s _).append (hstore _)
    | atom | array | block | send | superSend | assign | ret => cases hname
  | ret info value ih =>
    intro s k
    obtain ⟨-, hvalue⟩ := (forall_nodes_iff _).mp hproper
    rw [output_ret]
    exact ((ih (hvalue value List.mem_cons_self) s k).append (.mark _ _)).append (.plain _ rfl rfl)

end Expr

/-- The output of a method is arranged, with its blocks numbered from zero on. -/
theorem MethodDef.arranged_output {m : MethodDef} (file : Option String) (layers : List (List String))
    (owner : String) (hproper : ∀ n ∈ Expr.nodesOfAll m.body.statements, n.IsProper) :
    (m.output file layers owner).Arranged file 0 := by
  rw [MethodDef.output]
  cases hbody : m.body with
  | primitive name => exact .nil 0
  | code body =>
    rw [hbody] at hproper
    have hstatements : ∀ s k, (Expr.outputOfStatements s k body.statements).Arranged s.file k := fun s =>
      Expr.arranged_outputOfStatements fun e he => e.arranged_output
        (fun n hn => hproper n (Expr.mem_nodesOfAll.mpr ⟨e, he, hn⟩)) s
    exact (((hstatements (m.surroundings file layers owner body.locals) 0).append (.mark _ _)).append
      (.plain _ rfl rfl)).append (.plain _ rfl rfl)

end Smalltalk
