import Mathlib
import Smalltalk.Proofs.Trees
import Smalltalk.Proofs.Verifier

/-!
# Soundness of the direct translation

The code of an expression leaves exactly one value on the stack, and never takes more from it than is
there. Its operands are in range, because names are looked up in the very frames and fields that they
are numbered by.
-/

namespace Smalltalk

open Bytecode

/-! ## Stack depths -/

namespace SymbolicInstruction

/-- How many values an instruction takes from the stack, and how many it puts there. -/
def stackEffect : SymbolicInstruction → Nat × Nat
  | pop => (1, 0)
  | storeField _ | storeLocal _ _ | methodReturn => (1, 1)
  | send count _ | sendSuper count _ => (count + 1, 1)
  | pushArray count => (count, 1)
  | blockReturn | mark _ _ _ => (0, 0)
  | _ => (0, 1)

end SymbolicInstruction

theorem Bytecode.Instruction.stackEffect_of_symbolic? {i : Instruction} {sym : SymbolicInstruction}
    {literals : Array String} (h : i.symbolic? literals = some sym) : i.stackEffect = sym.stackEffect := by
  cases i with
  | pushLiteral | pushGlobal | send | sendSuper | mark =>
    obtain ⟨name, -, rfl⟩ := Option.map_eq_some_iff.mp h
    rfl
  | pushNil | pushSelf | pushTrue | pushFalse | pushChar | pushInt | pushFloat | pushField | pushLocal
    | pushArray | storeField | storeLocal | pop | block | blockReturn | methodReturn =>
    cases h
    rfl

theorem depthAfter_append (effects effects' : List (Nat × Nat)) (depth : Nat) :
    depthAfter (effects ++ effects') depth = (depthAfter effects depth).bind (depthAfter effects') := by
  induction effects generalizing depth with
  | nil => rfl
  | cons effect effects ih =>
    rw [List.cons_append, depthAfter, depthAfter]
    split
    · exact ih _
    · rfl

/-- Code moves the stack from one depth to another one. -/
def Moves (code : List SymbolicInstruction) (depth depth' : Nat) : Prop :=
  depthAfter (code.map SymbolicInstruction.stackEffect) depth = some depth'

namespace Moves

variable {code code' : List SymbolicInstruction} {a b c : Nat}

theorem nil (a : Nat) : Moves [] a a := rfl

theorem append (h : Moves code a b) (h' : Moves code' b c) : Moves (code ++ code') a c := by
  rw [Moves, List.map_append, depthAfter_append, h]
  exact h'

theorem single {i : SymbolicInstruction} (ha : i.stackEffect.1 ≤ a)
    (hb : a - i.stackEffect.1 + i.stackEffect.2 = b) : Moves [i] a b := by
  rw [Moves, List.map_singleton, depthAfter, if_pos ha, hb]
  rfl

theorem mark (file : Option String) (p : Position) (a : Nat) : Moves (markAt file p) a a := by
  cases file with
  | none => exact nil a
  | some name => exact single (Nat.zero_le a) rfl

end Moves

namespace Expr

theorem moves_translateAll {es : List Expr}
    (h : ∀ e ∈ es, ∀ s k depth, Moves (e.translate s k) depth (depth + 1)) (s : Surroundings) (k depth : Nat) :
    Moves (translateAll s k es) depth (depth + es.length) := by
  induction es generalizing k depth with
  | nil =>
    rw [translateAll]
    exact .nil depth
  | cons e es ih =>
    have hrest := ih (fun e' he' => h e' (List.mem_cons_of_mem e he')) (k + e.blockCount) (depth + 1)
    have hlength : depth + 1 + es.length = depth + (e :: es).length := by
      rw [List.length_cons]
      omega
    rw [translateAll, ← hlength]
    exact (h e List.mem_cons_self s k depth).append hrest

/-- The code of an expression leaves exactly one value on the stack. -/
theorem moves_translate (e : Expr) : ∀ s k depth, Moves (e.translate s k) depth (depth + 1) := by
  induction e using tree_induction with
  | atom info value =>
    intro s k depth
    rw [translate]
    cases value <;> exact .single (Nat.zero_le depth) rfl
  | name info x =>
    intro s k depth
    rw [translate]
    cases s.refer x <;> exact .single (Nat.zero_le depth) rfl
  | array info items ih =>
    intro s k depth
    rw [translate]
    refine (moves_translateAll ih s k depth).append (.single ?_ ?_)
    · exact Nat.le_add_left _ _
    · show depth + items.length - items.length + 1 = depth + 1
      omega
  | block info params locals statements close ih =>
    intro s k depth
    rw [translate]
    exact .single (Nat.zero_le depth) rfl
  | send info receiver selector arguments ihr iha =>
    intro s k depth
    rw [translate]
    have harguments := moves_translateAll iha s (k + receiver.blockCount) (depth + 1)
    refine ((ihr s k depth).append harguments).append (.single ?_ ?_)
    · show arguments.length + 1 ≤ depth + 1 + arguments.length
      omega
    · show depth + 1 + arguments.length - (arguments.length + 1) + 1 = depth + 1
      omega
  | superSend info selector arguments ih =>
    intro s k depth
    rw [translate, ← List.singleton_append]
    have hself : Moves [.pushSelf] depth (depth + 1) := .single (Nat.zero_le depth) rfl
    refine (hself.append (moves_translateAll ih s k (depth + 1))).append (.single ?_ ?_)
    · show arguments.length + 1 ≤ depth + 1 + arguments.length
      omega
    · show depth + 1 + arguments.length - (arguments.length + 1) + 1 = depth + 1
      omega
  | assign info target value iht ihv =>
    intro s k depth
    have hstore : Moves (target.storeInto s) (depth + 1) (depth + 1) := by
      cases target with
      | name info' x =>
        rw [storeInto]
        cases s.refer x with
        | global => exact .nil _
        | slot | field => exact .single (Nat.le_add_left 1 depth) rfl
      | atom | array | block | send | superSend | assign | ret => exact .nil _
    rw [translate]
    exact (ihv s _ depth).append hstore
  | ret info value ih =>
    intro s k depth
    rw [translate]
    exact ((ih s k depth).append (.mark _ _ _)).append (.single (Nat.le_add_left 1 depth) rfl)

/-- The code of statements leaves one value on the stack, if there is a statement. -/
theorem moves_translateStatements (s : Surroundings) (k : Nat) (es : List Expr) (depth : Nat) :
    Moves (translateStatements s k es) depth (if es = [] then depth else depth + 1) := by
  induction es generalizing k with
  | nil => exact .nil depth
  | cons e es ih =>
    rw [if_neg (List.cons_ne_nil e es)]
    cases es with
    | nil => exact e.moves_translate s k depth
    | cons f es =>
      have hrest := ih (k + e.blockCount)
      rw [if_neg (List.cons_ne_nil f es)] at hrest
      rw [translateStatements_cons_cons]
      refine ((e.moves_translate s k depth).append (.single ?_ ?_)).append hrest
      · exact Nat.le_add_left 1 depth
      · show depth + 1 - 1 + 0 = depth
        omega

end Expr

/-! ## Operands -/

theorem findSlot_eq_some {frames : List (List String)} {x : String} {n i : Nat}
    (h : findSlot frames x = some (n, i)) : ∃ frame, frames[n]? = some frame ∧ i < frame.length := by
  induction frames generalizing n with
  | nil => cases h
  | cons frame frames ih =>
    rw [findSlot] at h
    split at h
    · next j hj =>
      cases h
      obtain ⟨hlt, -⟩ := List.idxOf?_eq_some_iff.mp hj
      exact ⟨frame, rfl, hlt⟩
    · obtain ⟨⟨m, j⟩, hm, heq⟩ := Option.map_eq_some_iff.mp h
      cases heq
      exact ih hm

theorem findField_lt {layers : List (List String)} {x : String} {n : Nat}
    (h : findField layers x = some n) : n < fieldTotal layers := by
  induction layers with
  | nil => cases h
  | cons layer layers ih =>
    rw [findField] at h
    rw [fieldTotal]
    split at h
    · next j hj =>
      cases h
      obtain ⟨hlt, -⟩ := List.idxOf?_eq_some_iff.mp hj
      omega
    · have := ih h
      omega

/-- What an instruction says about variables and fields is in range, and it does not return from a
block. -/
def SymbolicInstruction.Sound (s : Surroundings) : SymbolicInstruction → Prop
  | pushLocal depth slot | storeLocal depth slot =>
    ∃ frame, s.frames[depth]? = some frame ∧ slot < frame.length
  | pushField index | storeField index => index < fieldTotal s.layers
  | blockReturn => False
  | _ => True

theorem Surroundings.refer_cases (s : Surroundings) (x : String) :
    (∃ n i frame, s.refer x = .slot n i ∧ s.frames[n]? = some frame ∧ i < frame.length) ∨
      (∃ index, s.refer x = .field index ∧ index < fieldTotal s.layers) ∨ s.refer x = .global := by
  unfold refer
  split
  · next n i hslot =>
    obtain ⟨frame, hframe, hlt⟩ := findSlot_eq_some hslot
    exact Or.inl ⟨n, i, frame, rfl, hframe, hlt⟩
  · split
    · next index hfield => exact Or.inr (Or.inl ⟨index, rfl, findField_lt hfield⟩)
    · exact Or.inr (Or.inr rfl)

namespace Expr

theorem sound_translateAll {es : List Expr} (h : ∀ e ∈ es, ∀ s k, ∀ i ∈ e.translate s k, i.Sound s)
    (s : Surroundings) (k : Nat) : ∀ i ∈ translateAll s k es, i.Sound s := by
  induction es generalizing k with
  | nil =>
    rw [translateAll]
    exact fun i hi => absurd hi List.not_mem_nil
  | cons e es ih =>
    rw [translateAll, List.forall_mem_append]
    exact ⟨h e List.mem_cons_self s k, ih (fun e' he' => h e' (List.mem_cons_of_mem e he')) _⟩

theorem sound_markAt (s : Surroundings) (file : Option String) (p : Position) :
    ∀ i ∈ markAt file p, i.Sound s := by
  cases file with
  | none => exact fun i hi => absurd hi List.not_mem_nil
  | some name => exact List.forall_mem_singleton.mpr trivial

theorem sound_translate (e : Expr) : ∀ s k, ∀ i ∈ e.translate s k, i.Sound s := by
  induction e using tree_induction with
  | atom info value =>
    intro s k
    rw [translate, List.forall_mem_singleton]
    cases value <;> trivial
  | name info x =>
    intro s k
    rw [translate, List.forall_mem_singleton]
    obtain ⟨n, i, frame, hx, hframe, hlt⟩ | ⟨index, hx, hlt⟩ | hx := s.refer_cases x <;> rw [hx]
    · exact ⟨frame, hframe, hlt⟩
    · exact hlt
    · trivial
  | array info items ih =>
    intro s k
    rw [translate, List.forall_mem_append, List.forall_mem_singleton]
    exact ⟨sound_translateAll ih s k, trivial⟩
  | block info params locals statements close ih =>
    intro s k
    rw [translate, List.forall_mem_singleton]
    trivial
  | send info receiver selector arguments ihr iha =>
    intro s k
    rw [translate, List.forall_mem_append, List.forall_mem_append, List.forall_mem_singleton]
    exact ⟨⟨ihr s k, sound_translateAll iha s _⟩, trivial⟩
  | superSend info selector arguments ih =>
    intro s k
    rw [translate, List.forall_mem_append, List.forall_mem_cons, List.forall_mem_singleton]
    exact ⟨⟨trivial, sound_translateAll ih s k⟩, trivial⟩
  | assign info target value iht ihv =>
    intro s k
    rw [translate, List.forall_mem_append]
    refine ⟨ihv s _, ?_⟩
    cases target with
    | name info' x =>
      rw [storeInto]
      obtain ⟨n, i, frame, hx, hframe, hlt⟩ | ⟨index, hx, hlt⟩ | hx := s.refer_cases x <;> rw [hx]
      · exact List.forall_mem_singleton.mpr ⟨frame, hframe, hlt⟩
      · exact List.forall_mem_singleton.mpr hlt
      · exact fun i hi => absurd hi List.not_mem_nil
    | atom | array | block | send | superSend | assign | ret =>
      exact fun i hi => absurd hi List.not_mem_nil
  | ret info value ih =>
    intro s k
    rw [translate, List.forall_mem_append, List.forall_mem_append, List.forall_mem_singleton]
    exact ⟨⟨ih s k, sound_markAt s _ _⟩, trivial⟩

/-- Statements only drop values in between. -/
theorem mem_translateStatements {s : Surroundings} {k : Nat} {es : List Expr} {i : SymbolicInstruction}
    (hi : i ≠ .pop) : i ∈ translateStatements s k es ↔ i ∈ translateAll s k es := by
  induction es generalizing k with
  | nil => rw [translateAll, translateStatements]
  | cons e es ih =>
    cases es with
    | nil => rw [translateAll, translateAll, translateStatements, List.append_nil]
    | cons f es =>
      rw [translateStatements_cons_cons, translateAll, List.mem_append, List.mem_append, List.mem_append,
        ih, List.mem_singleton, or_iff_left hi]

theorem sound_translateStatements (s : Surroundings) (k : Nat) (es : List Expr) :
    ∀ i ∈ translateStatements s k es, i.Sound s := by
  intro i hi
  by_cases hpop : i = .pop
  · rw [hpop]
    trivial
  · exact sound_translateAll (fun e _ => e.sound_translate) s k i ((mem_translateStatements hpop).mp hi)

end Expr

end Smalltalk
