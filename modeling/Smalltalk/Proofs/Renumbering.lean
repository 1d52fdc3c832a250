import Mathlib
import Smalltalk.Proofs.Relabeling

/-!
# Node numbers do not matter

The numbers of nodes tie the tables of one compilation to its trees, and nothing of them is left in what
comes out. Of two definitions that differ only in the numbers of their nodes, both are in order or none, and they
have the same compiled form wherever their fields are in the same places.
-/

namespace Smalltalk

/-! ## Definitions without numbers -/

/-- The place of a node without its number. -/
def NodeInfo.unnumbered (info : NodeInfo) : NodeInfo := ⟨0, info.span⟩

namespace Expr

mutual

/-- An expression without the numbers of its nodes. -/
@[simp] def unnumbered : Expr → Expr
  | atom info value => .atom info.unnumbered value
  | name info x => .name info.unnumbered x
  | array info items => .array info.unnumbered (unnumberedAll items)
  | block info params locals statements close =>
    .block info.unnumbered params locals (unnumberedAll statements) close
  | send info receiver selector arguments =>
    .send info.unnumbered receiver.unnumbered selector (unnumberedAll arguments)
  | superSend info selector arguments => .superSend info.unnumbered selector (unnumberedAll arguments)
  | assign info target value => .assign info.unnumbered target.unnumbered value.unnumbered
  | ret info value => .ret info.unnumbered value.unnumbered

/-- Several expressions without the numbers of their nodes. -/
@[simp] def unnumberedAll : List Expr → List Expr
  | [] => []
  | e :: es => e.unnumbered :: unnumberedAll es

end

theorem unnumberedAll_eq_map (es : List Expr) : unnumberedAll es = es.map unnumbered := by
  induction es with
  | nil => rw [unnumberedAll, List.map_nil]
  | cons e es ih => rw [unnumberedAll, ih, List.map_cons]

end Expr

/-- A body without the numbers of its nodes. -/
def Body.unnumbered (b : Body) : Body := { b with statements := Expr.unnumberedAll b.statements }

/-- What a method does, without the numbers of its nodes. -/
def MethodBody.unnumbered : MethodBody → MethodBody
  | code body => .code body.unnumbered
  | primitive name => .primitive name

/-- A method without the numbers of its nodes. -/
def MethodDef.unnumbered (m : MethodDef) : MethodDef := { m with body := m.body.unnumbered }

/-- A class without the numbers of its nodes. -/
def ClassDef.unnumbered (c : ClassDef) : ClassDef := { c with methods := c.methods.map MethodDef.unnumbered }

/-! ## Taking numbers away is a relabeling -/

namespace Relabeling

/-- Nodes lose their numbers and keep all else. -/
def unnumbering : Relabeling where
  rename := id
  span := id
  info := NodeInfo.unnumbered
  expr := Expr.unnumbered
  rename_injective := Function.injective_id
  span_default := Labeling.span_default_id
  span_info _ := rfl
  expr_atom _ _ := by rw [Expr.unnumbered]
  expr_name _ _ := by rw [Expr.unnumbered, id]
  expr_array _ _ := by rw [Expr.unnumbered, Expr.unnumberedAll_eq_map]
  expr_block _ _ _ _ _ := by
    rw [Expr.unnumbered, Expr.unnumberedAll_eq_map, Labeling.map_ident_eq_self (fun _ => rfl) fun _ => rfl,
      Labeling.map_ident_eq_self (fun _ => rfl) fun _ => rfl, id]
  expr_send _ _ _ _ := by
    rw [Expr.unnumbered, Expr.unnumberedAll_eq_map, Labeling.selector_eq_self fun _ => rfl]
  expr_superSend _ _ _ := by
    rw [Expr.unnumbered, Expr.unnumberedAll_eq_map, Labeling.word_eq_self fun _ => rfl]
  expr_assign _ _ _ := by rw [Expr.unnumbered]
  expr_ret _ _ := by rw [Expr.unnumbered]

theorem map_ident_unnumbering (xs : List Ident) : xs.map unnumbering.ident = xs :=
  Labeling.map_ident_eq_self (fun _ => rfl) (fun _ => rfl) xs

theorem body_unnumbering (b : Body) : unnumbering.body b = b.unnumbered := by
  rw [body, Body.unnumbered, Expr.unnumberedAll_eq_map, map_ident_unnumbering]
  rfl

theorem method_unnumbering (m : MethodDef) : unnumbering.method m = m.unnumbered := by
  have hbody : unnumbering.methodBody m.body = m.body.unnumbered := by
    cases m.body with
    | primitive name => rfl
    | code b => rw [methodBody, body_unnumbering, MethodBody.unnumbered]
  rw [method, hbody, map_ident_unnumbering]
  rfl

theorem classDef_unnumbering : unnumbering.classDef = ClassDef.unnumbered := by
  funext c
  have hsuperclass : c.superclass.map unnumbering.word = c.superclass := by
    cases c.superclass <;> rfl
  have hmethods : c.methods.map unnumbering.method = c.methods.map MethodDef.unnumbered :=
    List.map_congr_left fun m _ => method_unnumbering m
  rw [classDef, map_ident_unnumbering, hsuperclass, hmethods]
  rfl

end Relabeling

open Relabeling

namespace ClassDef

theorem header_unnumbered (c : ClassDef) : c.unnumbered.header = c.header := rfl

/-- The fields that a class inherits depend on classes, not on their methods. -/
theorem layers_unnumbered (classes : List ClassDef) (c : ClassDef) :
    c.unnumbered.layers classes = c.layers classes := rfl

/-- The declarations of a class are in order exactly if they are without node numbers. -/
theorem declarationErrors_unnumbered_eq_nil_iff (c : ClassDef) :
    c.unnumbered.declarationErrors = [] ↔ c.declarationErrors = [] := by
  rw [← classDef_unnumbering, declarationErrors_classDef]

variable {classes classes' : List ClassDef} {c c' : ClassDef}

theorem keepsFields_unnumbering (h : ∀ x, findField (c.layers classes) x = findField (c.layers classes') x) :
    unnumbering.KeepsFields (c.layers classes') ((unnumbering.classDef c).layers classes) := by
  rw [classDef_unnumbering]
  exact h

/-- The names in a class are in order exactly if they are without node numbers, where the fields are in the same
places. -/
theorem bindingErrors_unnumbered_eq_nil_iff (unknown : String → Bool)
    (hfields : ∀ x, findField (c.layers classes) x = findField (c.layers classes') x) :
    c.unnumbered.bindingErrors unknown classes = [] ↔ c.bindingErrors unknown classes' = [] := by
  rw [← classDef_unnumbering]
  exact bindingErrors_classDef (keepsFields_unnumbering hfields) (fun _ _ => rfl) unknown

/-- The code of a class depends on the places of its fields, and on nothing else outside of it. -/
theorem translate_unnumbered (file : Option String)
    (hfields : ∀ x, findField (c.layers classes) x = findField (c.layers classes') x) :
    c.unnumbered.translate file classes = c.translate file classes' := by
  have hfieldNames : (namesOf c.fields).map unnumbering.rename = namesOf c.fields := List.map_id _
  rw [← classDef_unnumbering, translate_classDef (keepsFields_unnumbering hfields) (fun _ _ => rfl)
    (.inr fun _ => rfl), hfieldNames]
  rfl

/-- The compiled form of a class has no node numbers in it. -/
theorem assembled_unnumbered (file : Option String)
    (hfields : ∀ x, findField (c.layers classes) x = findField (c.layers classes') x) :
    c.unnumbered.assembled file classes = c.assembled file classes' := by
  rw [← classDef_unnumbering, assembled_classDef (keepsFields_unnumbering hfields) (fun _ _ => rfl)
    (.inr fun _ => rfl)]
  exact CompiledClass.withFieldsRenamed_id _

theorem layers_eq_of_unnumbered_eq (h : c.unnumbered = c'.unnumbered) (classes : List ClassDef) :
    c.layers classes = c'.layers classes := by
  rw [← layers_unnumbered, h, layers_unnumbered]

/-- Of classes that differ in node numbers only, both are in order or none where they inherit the same fields. -/
theorem bindingErrors_eq_nil_congr (unknown : String → Bool) (h : c.unnumbered = c'.unnumbered)
    (hlayers : c.layers classes = c'.layers classes') :
    c.bindingErrors unknown classes = [] ↔ c'.bindingErrors unknown classes' = [] := by
  rw [layers_eq_of_unnumbered_eq h] at hlayers
  rw [← bindingErrors_unnumbered_eq_nil_iff unknown fun _ => rfl, h]
  exact bindingErrors_unnumbered_eq_nil_iff unknown fun x => by rw [hlayers]

/-- Classes that differ in node numbers only have the same code where they inherit the same fields. -/
theorem translate_congr (file : Option String) (h : c.unnumbered = c'.unnumbered)
    (hlayers : c.layers classes = c'.layers classes') :
    c.translate file classes = c'.translate file classes' := by
  rw [layers_eq_of_unnumbered_eq h] at hlayers
  rw [← translate_unnumbered file fun _ => rfl, h]
  exact translate_unnumbered file fun x => by rw [hlayers]

/-- A class has the same compiled form among all classes that give its fields the same places. -/
theorem assembled_congr (file : Option String) (h : c.unnumbered = c'.unnumbered)
    (hfields : ∀ x, findField (c.layers classes) x = findField (c'.layers classes') x) :
    c.assembled file classes = c'.assembled file classes' := by
  rw [layers_eq_of_unnumbered_eq h] at hfields
  rw [← assembled_unnumbered file fun _ => rfl, h]
  exact assembled_unnumbered file hfields

end ClassDef

end Smalltalk
