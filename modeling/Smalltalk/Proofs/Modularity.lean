import Mathlib
import Smalltalk.Proofs.Renumbering

/-!
# Classes are compiled one by one

All classes of a unit share one table of scopes and one list of names, and still the compiled form of a
class depends on little: on its own definition, and on the fields of the classes that it inherits from.
What the methods of other classes do has no influence on it, and neither has the order of the classes.

The main program is compiled as one more class. A class that extends it by name gets or loses a superclass
in the unit when a main program is added or removed, and then its fields can move.
-/

namespace Smalltalk

open ScopeTable Registration

/-! ## The order of classes -/

section Order

variable {classes classes' : List ClassHeader}

theorem find?_eq_some_iff_mem (hnodup : (classes.map (·.name)).Nodup) {x : String} {c : ClassHeader} :
    classes.find? (·.name = x) = some c ↔ c ∈ classes ∧ c.name = x := by
  constructor
  · intro h
    exact ⟨List.mem_of_find?_eq_some h, by simpa using List.find?_some h⟩
  · rintro ⟨hc, rfl⟩
    have hsome : (classes.find? (·.name = c.name)).isSome :=
      List.find?_isSome.mpr ⟨c, hc, decide_eq_true rfl⟩
    obtain ⟨b, hb⟩ := Option.isSome_iff_exists.mp hsome
    have hname : b.name = c.name := by simpa using List.find?_some hb
    rw [hb, List.inj_on_of_nodup_map hnodup (List.mem_of_find?_eq_some hb) hc hname]

theorem find?_eq_of_perm (hperm : classes.Perm classes') (hnodup : (classes.map (·.name)).Nodup)
    (x : String) : classes.find? (·.name = x) = classes'.find? (·.name = x) := by
  have hnodup' := (hperm.map ClassHeader.name).nodup_iff.mp hnodup
  ext c
  rw [find?_eq_some_iff_mem hnodup, find?_eq_some_iff_mem hnodup', hperm.mem_iff]

theorem nodup_names_without (hnodup : (classes.map (·.name)).Nodup) (x : String) :
    ((without classes x).map (·.name)).Nodup :=
  hnodup.sublist (List.filter_sublist.map _)

theorem perm_without (hperm : classes.Perm classes') (x : String) :
    (without classes x).Perm (without classes' x) :=
  hperm.filter _

/-- The classes that a class inherits from do not depend on the order of the classes. -/
theorem ancestry_eq_of_perm (hperm : classes.Perm classes') (hnodup : (classes.map (·.name)).Nodup)
    (name : Option String) : ancestry classes name = ancestry classes' name := by
  induction classes, name using ancestry.induct generalizing classes' with
  | case1 classes => rw [ancestry, ancestry]
  | case2 classes x hnone =>
    rw [ancestry_of_find?_eq_none hnone,
      ancestry_of_find?_eq_none (find?_eq_of_perm hperm hnodup x ▸ hnone)]
  | case3 classes x c hsome _ ih =>
    rw [ancestry_of_find?_eq_some hsome,
      ancestry_of_find?_eq_some (find?_eq_of_perm hperm hnodup x ▸ hsome),
      ih (perm_without hperm x) (nodup_names_without hnodup x)]

theorem ClassHeader.layers_eq_of_perm (hperm : classes.Perm classes')
    (hnodup : (classes.map (·.name)).Nodup) (c : ClassHeader) : c.layers classes = c.layers classes' := by
  rw [ClassHeader.layers, ClassHeader.layers,
    ancestry_eq_of_perm (perm_without hperm c.name) (nodup_names_without hnodup c.name)]

theorem Acyclic.of_perm (h : Acyclic classes) (hperm : classes.Perm classes') : Acyclic classes' := by
  intro x hpath
  refine h x (hpath.lift id ?_)
  rintro y z ⟨c, hc, hextends⟩
  exact ⟨c, hperm.mem_iff.mpr hc, hextends⟩

end Order

/-! ## One more class -/

theorem without_append (classes classes' : List ClassHeader) (x : String) :
    without (classes ++ classes') x = without classes x ++ without classes' x :=
  List.filter_append ..

theorem without_comm (classes : List ClassHeader) (x y : String) :
    without (without classes x) y = without (without classes y) x := by
  simp only [without, List.filter_filter, Bool.and_comm]

theorem find?_without {classes : List ClassHeader} {x y : String} (hne : y ≠ x) :
    (without classes x).find? (·.name = y) = classes.find? (·.name = y) := by
  rw [without, List.find?_filter]
  congr 1
  funext a
  by_cases hy : a.name = y <;> simp [hy, hne]

theorem find?_without_self (classes : List ClassHeader) (x : String) :
    (without classes x).find? (·.name = x) = none := by
  rw [List.find?_eq_none]
  intro a ha
  have hne := (List.mem_filter.mp ha).2
  simpa using hne

/-- Among fewer classes a class has fewer ancestors. -/
theorem ancestry_without_subset (classes : List ClassHeader) (x : String) (name : Option String) :
    ancestry (without classes x) name ⊆ ancestry classes name := by
  induction classes, name using ancestry.induct with
  | case1 classes =>
    rw [ancestry]
    exact List.nil_subset _
  | case2 classes y hnone =>
    have hnone' : (without classes x).find? (·.name = y) = none := by
      rw [List.find?_eq_none] at hnone ⊢
      exact fun a ha => hnone a (List.mem_of_mem_filter ha)
    rw [ancestry_of_find?_eq_none hnone']
    exact List.nil_subset _
  | case3 classes y c hsome _ ih =>
    by_cases hxy : y = x
    · rw [hxy, ancestry_of_find?_eq_none (find?_without_self classes x)]
      exact List.nil_subset _
    · rw [ancestry_of_find?_eq_some hsome, ancestry_of_find?_eq_some ((find?_without hxy).trans hsome),
        without_comm]
      exact List.cons_subset_cons c ih

theorem without_append_singleton_self {classes : List ClassHeader} {m : ClassHeader} {x : String}
    (hx : m.name = x) : without (classes ++ [m]) x = without classes x := by
  rw [without_append]
  simp [without, hx]

theorem without_append_singleton {classes : List ClassHeader} {m : ClassHeader} {x : String}
    (hx : m.name ≠ x) : without (classes ++ [m]) x = without classes x ++ [m] := by
  rw [without_append]
  simp [without, hx]

/-- One more class `m` prolongs a chain at its end: with itself and with classes that it inherits from,
and only if it is looked for there. -/
structure Prolongs (classes : List ClassHeader) (m : ClassHeader) (name : Option String)
    (more : List ClassHeader) : Prop where
  ancestry_eq : ancestry (classes ++ [m]) name = ancestry classes name ++ more
  mem_more : ∀ a ∈ more, a = m ∨ a ∈ ancestry classes m.superclass
  reached : more ≠ [] → name = some m.name ∨ ∃ a ∈ ancestry classes name, a.superclass = some m.name

theorem Prolongs.nil {classes : List ClassHeader} {m : ClassHeader} {name : Option String}
    (h : ancestry (classes ++ [m]) name = ancestry classes name) : Prolongs classes m name [] :=
  ⟨by rw [h, List.append_nil], fun _ ha => absurd ha List.not_mem_nil, fun h => absurd rfl h⟩

theorem exists_prolongs (classes : List ClassHeader) (m : ClassHeader) (name : Option String) :
    ∃ more, Prolongs classes m name more := by
  induction classes, name using ancestry.induct with
  | case1 classes =>
    refine ⟨[], .nil ?_⟩
    rw [ancestry, ancestry]
  | case2 classes x hnone =>
    by_cases hx : m.name = x
    · have hfound : (classes ++ [m]).find? (·.name = x) = some m := by
        rw [List.find?_append, hnone]
        simp [hx]
      refine ⟨m :: ancestry (without classes x) m.superclass, ?_, ?_, fun _ => Or.inl (congrArg some hx.symm)⟩
      · rw [ancestry_of_find?_eq_some hfound, ancestry_of_find?_eq_none hnone,
          without_append_singleton_self hx, List.nil_append]
      · refine List.forall_mem_cons.mpr ⟨Or.inl rfl, fun a ha => Or.inr ?_⟩
        exact ancestry_without_subset classes x _ ha
    · refine ⟨[], .nil ?_⟩
      rw [ancestry_of_find?_eq_none hnone, ancestry_of_find?_eq_none]
      rw [List.find?_append, hnone]
      simp [hx]
  | case3 classes x c hsome _ ih =>
    have hfound : (classes ++ [m]).find? (·.name = x) = some c := by
      rw [List.find?_append, hsome]
      rfl
    by_cases hx : m.name = x
    · refine ⟨[], .nil ?_⟩
      rw [ancestry_of_find?_eq_some hfound, ancestry_of_find?_eq_some hsome, without_append_singleton_self hx]
    · obtain ⟨more, hmore⟩ := ih
      refine ⟨more, ?_, fun a ha => ?_, fun hne => Or.inr ?_⟩
      · rw [ancestry_of_find?_eq_some hfound, ancestry_of_find?_eq_some hsome, without_append_singleton hx,
          hmore.ancestry_eq, List.cons_append]
      · exact (hmore.mem_more a ha).imp_right fun h => ancestry_without_subset classes x _ h
      · rw [ancestry_of_find?_eq_some hsome]
        rcases hmore.reached hne with hreached | ⟨a, ha, hreached⟩
        · exact ⟨c, List.mem_cons_self, hreached⟩
        · exact ⟨a, List.mem_cons_of_mem _ ha, hreached⟩

/-- A class and the classes that it inherits from, the nearest first. -/
def ClassHeader.lineage (classes : List ClassHeader) (c : ClassHeader) : List ClassHeader :=
  c :: ancestry (without classes c.name) c.superclass

theorem ClassHeader.exists_layers_append (classes : List ClassHeader) (m c : ClassHeader) :
    ∃ more, c.layers (classes ++ [m]) = c.layers classes ++ more.map (·.fields) ∧
      (∀ a ∈ more, a = m ∨ a ∈ ancestry classes m.superclass) ∧
      (more ≠ [] → ∃ a ∈ c.lineage classes, a.superclass = some m.name) := by
  by_cases hname : m.name = c.name
  · refine ⟨[], ?_, fun _ ha => absurd ha List.not_mem_nil, fun h => absurd rfl h⟩
    rw [layers, layers, without_append_singleton_self hname, List.map_nil, List.append_nil]
  · obtain ⟨more, hmore⟩ := exists_prolongs (without classes c.name) m c.superclass
    refine ⟨more, ?_, fun a ha => ?_, fun hne => ?_⟩
    · rw [layers, layers, without_append_singleton hname, hmore.ancestry_eq, ← List.map_append,
        List.cons_append]
    · exact (hmore.mem_more a ha).imp_right fun h => ancestry_without_subset classes c.name _ h
    · rcases hmore.reached hne with hreached | ⟨a, ha, hreached⟩
      · exact ⟨c, List.mem_cons_self, hreached⟩
      · exact ⟨a, List.mem_cons_of_mem _ ha, hreached⟩

theorem fieldTotal_of_forall_eq_nil {more : List (List String)} (h : ∀ layer ∈ more, layer = []) :
    fieldTotal more = 0 := by
  induction more with
  | nil => rfl
  | cons layer more ih =>
    rw [List.forall_mem_cons] at h
    rw [fieldTotal, h.1, ih h.2]
    rfl

theorem fieldTotal_append (layers layers' : List (List String)) :
    fieldTotal (layers ++ layers') = fieldTotal layers + fieldTotal layers' := by
  induction layers with
  | nil => rw [List.nil_append, fieldTotal, Nat.zero_add]
  | cons layer layers ih => rw [List.cons_append, fieldTotal, fieldTotal, ih, Nat.add_assoc]

/-- Empty layers below do not move any field. -/
theorem findField_append_of_forall_eq_nil (layers : List (List String)) {more : List (List String)}
    (h : ∀ layer ∈ more, layer = []) (x : String) :
    findField (layers ++ more) x = findField layers x := by
  induction layers with
  | nil =>
    induction more with
    | nil => rfl
    | cons layer more ih =>
      rw [List.forall_mem_cons] at h
      rw [List.nil_append, findField, h.1]
      exact ih h.2
  | cons layer layers ih =>
    rw [List.cons_append, findField, findField, fieldTotal_append, fieldTotal_of_forall_eq_nil h, ih]
    rfl

/-! ## Units -/

namespace SourceUnit

variable {u u' : SourceUnit} {options : CompileOptions}

/-- Two units are the same but for the order of their classes and the numbers of their nodes. -/
structure Reorders (u u' : SourceUnit) : Prop where
  classes : (u.classes.map ClassDef.unnumbered).Perm (u'.classes.map ClassDef.unnumbered)
  main : u.main.unnumbered = u'.main.unnumbered
  finish : u.finish = u'.finish

namespace Reorders

open Relabeling

/-- Besides their classes, the units hold the same without the numbers of nodes. -/
theorem unnumbering_eq (h : Reorders u u') :
    SourceUnit.mk [] (unnumbering.body u.main) u.finish 0
      = SourceUnit.mk [] (unnumbering.body u'.main) u'.finish 0 := by
  rw [body_unnumbering, body_unnumbering, h.main, h.finish]

theorem mainClass?_eq (h : Reorders u u') :
    u.mainClass?.map ClassDef.unnumbered = u'.mainClass?.map ClassDef.unnumbered := by
  rw [← classDef_unnumbering, ← mainClass?_unit, ← mainClass?_unit]
  have hmain := congrArg SourceUnit.mainClass? h.unnumbering_eq
  exact hmain

theorem declaredMain?_eq (h : Reorders u u') :
    u.declaredMain?.map ClassDef.unnumbered = u'.declaredMain?.map ClassDef.unnumbered := by
  rw [← classDef_unnumbering, ← declaredMain?_unit, ← declaredMain?_unit]
  have hmain := congrArg SourceUnit.declaredMain? h.unnumbering_eq
  exact hmain

theorem perm_allClasses (h : Reorders u u') :
    (u.allClasses.map ClassDef.unnumbered).Perm (u'.allClasses.map ClassDef.unnumbered) := by
  rw [allClasses, allClasses, List.map_append, List.map_append, ← Option.toList_map, h.mainClass?_eq,
    Option.toList_map]
  exact h.classes.append_right _

theorem perm_declaredClasses (h : Reorders u u') :
    (u.declaredClasses.map ClassDef.unnumbered).Perm (u'.declaredClasses.map ClassDef.unnumbered) := by
  rw [declaredClasses, declaredClasses, List.map_append, List.map_append, ← Option.toList_map,
    h.declaredMain?_eq, Option.toList_map]
  exact h.classes.append_right _

theorem perm_headers (h : Reorders u u') :
    (u.allClasses.map ClassDef.header).Perm (u'.allClasses.map ClassDef.header) := by
  have hperm := h.perm_allClasses.map ClassDef.header
  rw [List.map_map, List.map_map] at hperm
  exact hperm

/-- Every class of the one unit is a class of the other. -/
theorem exists_class (h : Reorders u u') {c' : ClassDef} (hc' : c' ∈ u'.allClasses) :
    ∃ c ∈ u.allClasses, c.unnumbered = c'.unnumbered :=
  List.mem_map.mp (h.perm_allClasses.mem_iff.mpr (List.mem_map_of_mem hc'))

theorem declarationErrors_eq_nil (h : Reorders u u') (hclean : u.declarationErrors = []) :
    u'.declarationErrors = [] := by
  rw [declarationErrors_eq_nil_iff] at hclean ⊢
  have hperm := h.perm_declaredClasses
  have hnames := hperm.map (·.name.name)
  rw [List.map_map, List.map_map] at hnames
  have hlength := hperm.length_eq
  rw [List.length_map, List.length_map] at hlength
  refine ⟨⟨hnames.nodup_iff.mp hclean.1.1, hlength ▸ hclean.1.2⟩, fun c' hc' => ?_⟩
  obtain ⟨c, hc, heq⟩ := List.mem_map.mp (hperm.mem_iff.mpr (List.mem_map_of_mem hc'))
  rw [← c'.declarationErrors_unnumbered_eq_nil_iff, ← heq, c.declarationErrors_unnumbered_eq_nil_iff]
  exact hclean.2 c hc

theorem isUnknown_eq (h : Reorders u u') : u.isUnknown options = u'.isUnknown options := by
  have hall : ∀ (u : SourceUnit) x, u.allClasses.all (·.name.name ≠ x)
      = (u.allClasses.map ClassDef.header).all (·.name ≠ x) := fun u x => by
    rw [List.all_map]
    rfl
  funext x
  rw [isUnknown, isUnknown, hall, hall, h.perm_headers.all_eq]

theorem layers_eq (h : Reorders u u') (hclean : u.declarationErrors = []) {c c' : ClassDef}
    (heq : c.unnumbered = c'.unnumbered) : c.layers u.allClasses = c'.layers u'.allClasses := by
  have hnodup := ((declarationErrors_eq_nil_iff u).mp hclean).1.1
  have hnames : u.declaredClasses.map (·.name.name) = (u.allClasses.map ClassDef.header).map (·.name) := by
    rw [← map_header_declaredClasses, List.map_map]
    rfl
  rw [hnames] at hnodup
  have hheader := congrArg ClassDef.header heq
  rw [ClassDef.header_unnumbered, ClassDef.header_unnumbered] at hheader
  rw [ClassDef.layers, ClassDef.layers, hheader, ClassHeader.layers_eq_of_perm h.perm_headers hnodup]

/-- What can be compiled can be compiled in any order of the classes. -/
theorem complaints_eq_nil (h : Reorders u u') (hu : u.IsUnshared) (hu' : u'.IsUnshared)
    (hcomplaints : u.complaints options = []) : u'.complaints options = [] := by
  obtain ⟨hdeclared, hacyclic, hbound⟩ := (complaints_eq_nil_iff hu.nodup_ids).mp hcomplaints
  refine (complaints_eq_nil_iff hu'.nodup_ids).mpr
    ⟨h.declarationErrors_eq_nil hdeclared, hacyclic.of_perm h.perm_headers, fun c' hc' => ?_⟩
  obtain ⟨c, hc, heq⟩ := h.exists_class hc'
  rw [← h.isUnknown_eq, ← ClassDef.bindingErrors_eq_nil_congr _ heq (h.layers_eq hdeclared heq)]
  exact hbound c hc

theorem fits (h : Reorders u u') (hclean : u.declarationErrors = []) {file : Option String}
    (hfits : u.Fits file) : u'.Fits file := by
  rw [Fits, SourceUnit.translate, List.forall_mem_map] at hfits ⊢
  intro c' hc'
  obtain ⟨c, hc, heq⟩ := h.exists_class hc'
  rw [← ClassDef.translate_congr file heq (h.layers_eq hclean heq)]
  exact hfits c hc

end Reorders

/-! ### The main program as a class -/

/-- The header of the class of the main program. -/
def mainHeader : ClassHeader := ⟨mainClassName, some mainSuperclassName, []⟩

theorem map_header_allClasses (u : SourceUnit) : u.allClasses.map ClassDef.header
    = u.classes.map ClassDef.header ++ if u.main.isEmpty then [] else [mainHeader] := by
  rw [allClasses, List.map_append, mainClass?]
  split <;> rfl

/-- The main program does not move the fields of a class, unless the class inherits from it and it
inherits fields. -/
theorem findField_allClasses {c : ClassDef}
    (h : (∀ a ∈ c.header.lineage (u.classes.map ClassDef.header), a.superclass ≠ some mainClassName) ∨
      ∀ a ∈ ancestry (u.classes.map ClassDef.header) (some mainSuperclassName), a.fields = [])
    (x : String) : findField (c.layers u.allClasses) x = findField (c.layers u.classes) x := by
  rw [ClassDef.layers, ClassDef.layers, map_header_allClasses]
  split
  · rw [List.append_nil]
  · obtain ⟨more, hlayers, hmem, hreached⟩ :=
      ClassHeader.exists_layers_append (u.classes.map ClassDef.header) mainHeader c.header
    rw [hlayers]
    refine findField_append_of_forall_eq_nil _ (List.forall_mem_map.mpr fun a ha => ?_) x
    rcases h with h | h
    · obtain ⟨b, hb, hextends⟩ := hreached (List.ne_nil_of_mem ha)
      exact absurd hextends (h b hb)
    · rcases hmem a ha with rfl | ha
      · rfl
      · exact h a ha

/-- Two units with the same headers of classes have the fields of a class in the same places, unless it
inherits from the main program, only one of them has one, and that inherits fields. -/
theorem findField_eq_of_headers_eq
    (hheaders : u.classes.map ClassDef.header = u'.classes.map ClassDef.header)
    {c c' : ClassDef} (heq : c.header = c'.header)
    (hmain : u.main.isEmpty = u'.main.isEmpty ∨
      (∀ a ∈ c.header.lineage (u.classes.map ClassDef.header), a.superclass ≠ some mainClassName) ∨
      ∀ a ∈ ancestry (u.classes.map ClassDef.header) (some mainSuperclassName), a.fields = [])
    (x : String) : findField (c.layers u.allClasses) x = findField (c'.layers u'.allClasses) x := by
  rcases hmain with hmain | hmain
  · rw [ClassDef.layers, ClassDef.layers, map_header_allClasses, map_header_allClasses, hheaders, hmain, heq]
  · rw [findField_allClasses hmain]
    rw [hheaders, heq] at hmain
    rw [findField_allClasses hmain, ClassDef.layers, ClassDef.layers, hheaders, heq]

/-- A class with its fields in the same places has the same compiled form in two units. -/
theorem exists_getElem?_assembled {file : Option String} {i j : Nat} {c c' : ClassDef}
    (hc : u.allClasses[i]? = some c) (hc' : u'.allClasses[j]? = some c')
    (heq : c.unnumbered = c'.unnumbered)
    (hfields : ∀ x, findField (c.layers u.allClasses) x = findField (c'.layers u'.allClasses) x) :
    ∃ compiled, (u.assembled file)[i]? = some compiled ∧ (u'.assembled file)[j]? = some compiled := by
  refine ⟨c.assembled file u.allClasses, ?_, ?_⟩
  · rw [assembled, List.getElem?_map, hc]
    rfl
  · rw [assembled, List.getElem?_map, hc', ClassDef.assembled_congr file heq hfields]
    rfl

theorem getElem?_allClasses {i : Nat} {c : ClassDef} (hc : u.classes[i]? = some c) :
    u.allClasses[i]? = some c := by
  rw [allClasses, List.getElem?_append_left (List.getElem?_eq_some_iff.mp hc).1, hc]

/-- Compilation is modular. Consider two units without shared nodes.

If both are compiled, a class that they define in the same way, but for the numbers of nodes, is compiled
to the same in both if the classes that it inherits from have the same fields there. It is also compiled
to the same if all classes have the same headers in both and only other methods or the main program
differ, unless one unit has a main program and the other has none, the class inherits from it, and it
inherits fields.

If the units differ only in the order of their classes and one of them is compiled, so is the other, and
each class is compiled to the same in both. -/
theorem compile_modular (hu : u.IsUnshared) (hu' : u'.IsUnshared) :
    (∀ classes classes', (u.compile options).result = .ok classes →
      (u'.compile options).result = .ok classes' →
      (∀ (i j : Nat) (c c' : ClassDef), u.allClasses[i]? = some c → u'.allClasses[j]? = some c' →
        c.unnumbered = c'.unnumbered → c.layers u.allClasses = c'.layers u'.allClasses →
        ∃ compiled, classes[i]? = some compiled ∧ classes'[j]? = some compiled) ∧
      (u.classes.map ClassDef.header = u'.classes.map ClassDef.header →
        ∀ (i : Nat) (c c' : ClassDef), u.classes[i]? = some c → u'.classes[i]? = some c' →
        c.unnumbered = c'.unnumbered →
        (u.main.isEmpty = u'.main.isEmpty ∨
          (∀ a ∈ c.header.lineage (u.classes.map ClassDef.header), a.superclass ≠ some mainClassName) ∨
          ∀ a ∈ ancestry (u.classes.map ClassDef.header) (some mainSuperclassName), a.fields = []) →
        ∃ compiled, classes[i]? = some compiled ∧ classes'[i]? = some compiled)) ∧
    (Reorders u u' → ∀ classes, (u.compile options).result = .ok classes →
      ∃ compiled : ClassDef → CompiledClass,
        classes = u.allClasses.map (fun c => compiled c.unnumbered) ∧
        (u'.compile options).result = .ok (u'.allClasses.map fun c => compiled c.unnumbered)) := by
  refine ⟨fun classes classes' hok hok' => ?_, fun hreorders classes hok => ?_⟩
  · obtain ⟨-, -, rfl⟩ := (compile_eq_ok_iff hu).mp hok
    obtain ⟨-, -, rfl⟩ := (compile_eq_ok_iff hu').mp hok'
    refine ⟨fun i j c c' hc hc' heq hlayers => ?_, fun hheaders i c c' hc hc' heq hmain => ?_⟩
    · exact exists_getElem?_assembled hc hc' heq fun x => by rw [hlayers]
    · have hheader := congrArg ClassDef.header heq
      rw [ClassDef.header_unnumbered, ClassDef.header_unnumbered] at hheader
      exact exists_getElem?_assembled (getElem?_allClasses hc) (getElem?_allClasses hc') heq
        (findField_eq_of_headers_eq hheaders hheader hmain)
  · obtain ⟨hcomplaints, hfits, rfl⟩ := (compile_eq_ok_iff hu).mp hok
    have hdeclared := ((complaints_eq_nil_iff hu.nodup_ids).mp hcomplaints).1
    refine ⟨ClassDef.assembled options.markedFile u.allClasses, ?_, ?_⟩
    · exact List.map_congr_left fun c _ => (ClassDef.assembled_unnumbered _ fun _ => rfl).symm
    · refine (compile_eq_ok_iff hu').mpr ⟨hreorders.complaints_eq_nil hu hu' hcomplaints,
        hreorders.fits hdeclared hfits, ?_⟩
      exact List.map_congr_left fun c _ => ClassDef.assembled_unnumbered _ fun x => by
        rw [hreorders.layers_eq hdeclared (rfl : c.unnumbered = c.unnumbered)]

/-- The methods of a superclass are rewritten and a main program is added, which gives the nodes of the
class below other numbers; and then the classes change places. -/
theorem compile_modular_rewritten : ∃ (a a' b b' : ClassDef) (main : Body)
    (compiled compiled' compiledMain : CompiledClass), b.unnumbered = b'.unnumbered ∧
    (∃ classes, (SourceUnit.compile ⟨[a, b], {}, {}, 0⟩ {}).result = .ok classes ∧
      classes[1]? = some compiled) ∧
    (SourceUnit.compile ⟨[a', b'], main, {}, 5⟩ {}).result = .ok [compiled', compiled, compiledMain] ∧
    (SourceUnit.compile ⟨[b', a'], main, {}, 5⟩ {}).result = .ok [compiled, compiled', compiledMain] := by
  let returning (selector : String) (n : Nat) : MethodDef :=
    { selector := ⟨selector, {}⟩, body := .code { statements := [.ret ⟨n + 1, {}⟩ (.name ⟨n, {}⟩ "x")] } }
  let a (methods : List MethodDef) : ClassDef :=
    { name := ⟨"A", {}⟩, superclass := some ⟨"Object", {}⟩, fields := [⟨"x", {}⟩], methods := methods }
  let b (n : Nat) : ClassDef :=
    { name := ⟨"B", {}⟩, superclass := some ⟨"A", {}⟩, methods := [returning "n" n] }
  let main : Body := { statements := [.name ⟨4, {}⟩ "A"] }
  obtain ⟨hu, hu', hu''⟩ : (SourceUnit.mk [a [], b 0] {} {} 0).IsUnshared ∧
      (SourceUnit.mk [a [returning "m" 0], b 2] main {} 5).IsUnshared ∧
      (SourceUnit.mk [b 2, a [returning "m" 0]] main {} 5).IsUnshared := by
    refine ⟨⟨by decide +kernel, ?_⟩, ⟨by decide +kernel, ?_⟩, ⟨by decide +kernel, ?_⟩⟩ <;>
      simp [SourceUnit.statements, statementsOfClasses, statementsOfMethods, MethodBody.statements, a, b,
        main, returning, Expr.nodes, Expr.IsProper]
  obtain ⟨classes, hok⟩ := exists_of_isOk (r := (SourceUnit.compile ⟨[a [], b 0], {}, {}, 0⟩ {}).result)
    (by decide +kernel)
  obtain ⟨classes', hok'⟩ := exists_of_isOk
    (r := (SourceUnit.compile ⟨[a [returning "m" 0], b 2], main, {}, 5⟩ {}).result) (by decide +kernel)
  obtain ⟨compile, rfl, hok''⟩ := (compile_modular hu' hu'').2 ⟨.swap .., rfl, rfl⟩ _ hok'
  obtain ⟨compiled, hcompiled, hcompiled'⟩ := ((compile_modular hu hu').1 _ _ hok hok').2 rfl 1 (b 0) (b 2)
    rfl rfl rfl (Or.inr (Or.inl (by decide +kernel)))
  cases hcompiled'
  exact ⟨_, _, b 0, b 2, main, _, _, _, rfl, ⟨classes, hok, hcompiled⟩, hok', hok''⟩

/-- A class that extends the class of the main program has its fields in other places if there is a main
program: the class of the main program inherits the fields of `Object`. -/
theorem compile_depends_on_main : ∃ (u : SourceUnit) (main : Body) (classes classes' : List CompiledClass),
    u.IsUnshared ∧ SourceUnit.IsUnshared { u with main := main } ∧
    (u.compile {}).result = .ok classes ∧
    (SourceUnit.compile { u with main := main } {}).result = .ok classes' ∧ classes[1]? ≠ classes'[1]? := by
  let u : SourceUnit := { classes := [
    { name := ⟨"Object", {}⟩, fields := [⟨"a", {}⟩] },
    { name := ⟨"A", {}⟩, superclass := some ⟨"MainClass", {}⟩, fields := [⟨"x", {}⟩],
      methods := [{
        selector := ⟨"m", {}⟩
        body := .code { statements := [.ret ⟨1, {}⟩ (.name ⟨0, {}⟩ "x")] } }] }] }
  let main : Body := { statements := [.atom ⟨2, {}⟩ (.integer 3)] }
  let codeOf (r : Except (List Diagnostic) (List CompiledClass)) : Option (List (List UInt8)) :=
    (r.toOption.bind (·[1]?)).map fun c => c.methods.map (·.code)
  have hcode : codeOf (u.compile {}).result
      ≠ codeOf (SourceUnit.compile { u with main := main } {}).result := by
    decide +kernel
  obtain ⟨classes, hok⟩ := exists_of_isOk (r := (u.compile {}).result) (by decide +kernel)
  obtain ⟨classes', hok'⟩ := exists_of_isOk (r := (SourceUnit.compile { u with main := main } {}).result)
    (by decide +kernel)
  refine ⟨u, main, classes, classes', ⟨by decide +kernel, ?_⟩, ⟨by decide +kernel, ?_⟩, hok, hok',
    fun heq => hcode ?_⟩
  · simp [SourceUnit.statements, statementsOfClasses, statementsOfMethods, MethodBody.statements, u,
      Expr.nodes, Expr.IsProper]
  · simp [SourceUnit.statements, statementsOfClasses, statementsOfMethods, MethodBody.statements, u, main,
      Expr.nodes, Expr.IsProper]
  · rw [hok, hok']
    exact congrArg (Option.map fun c : CompiledClass => c.methods.map (·.code)) heq

end SourceUnit

end Smalltalk
