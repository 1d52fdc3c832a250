import Mathlib
import Smalltalk.Proofs.Marks

/-!
# Compilation fails only for a reason

The stages of a compilation always agree with each other, so no internal error is ever reported. Once a
unit has been declared and resolved without complaints, it is compiled exactly if all its classes are
within the limits of the machine.
-/

namespace Smalltalk

/-! ## Limits -/

namespace ClassDef

/-- Whether some method of a class has code. -/
def hasCode (c : ClassDef) : Bool := c.methods.any (·.body.code?.isSome)

/-- The strings that a class needs: those of its code, and the file name if positions are marked and
there is code. -/
def neededStrings (file : Option String) (classes : List ClassDef) (c : ClassDef) : List String :=
  (c.translate none classes).strings ++ if c.hasCode then file.toList else []

/-- Whether a class is within the limits of the machine: it needs no more than 65536 different strings,
and its field numbers, argument counts, array sizes and marked positions are at most 65535. -/
structure WithinLimits (file : Option String) (classes : List ClassDef) (c : ClassDef) : Prop where
  strings_le : (c.neededStrings file classes).dedup.length ≤ 65536
  numbers_le : ∀ i ∈ (c.translate file classes).instructions, ∀ n ∈ i.numbers, n ≤ 65535

variable {file : Option String} {classes : List ClassDef} {c : ClassDef}

theorem instructions_translate_none :
    (c.translate none classes).instructions = withoutMarks (c.translate file classes).instructions := by
  rw [← c.unmarked_translate file classes, SymbolicClass.instructions_unmarked]

/-- Only methods with code have instructions. -/
theorem hasCode_of_mem_instructions {i : SymbolicInstruction}
    (h : i ∈ (c.translate file classes).instructions) : c.hasCode := by
  obtain ⟨b, hb, hi⟩ := List.mem_flatMap.mp h
  obtain ⟨m, hm, rfl⟩ := List.mem_map.mp hb
  refine List.any_eq_true.mpr ⟨m, hm, ?_⟩
  cases hbody : m.body with
  | primitive name =>
    rw [MethodDef.translate, hbody] at hi
    cases hi
  | code body => rfl

/-- Every method with code ends with a position mark, if positions are marked. -/
theorem exists_mark_of_hasCode {name : String} (h : c.hasCode) :
    ∃ i ∈ (c.translate (some name) classes).instructions, i.string? = some name := by
  obtain ⟨m, hm, hcode⟩ := List.any_eq_true.mp h
  cases hbody : m.body with
  | primitive name =>
    rw [hbody] at hcode
    cases hcode
  | code body =>
    refine ⟨.mark name m.close.start.line (m.close.start.column - 1), ?_, rfl⟩
    refine List.mem_flatMap.mpr ⟨_, List.mem_map_of_mem hm, List.mem_append_left _ ?_⟩
    rw [MethodDef.translate, hbody]
    simp [markAt]

/-- Marking positions needs one more string, the file name. -/
theorem toFinset_neededStrings
    (hproper : ∀ m ∈ c.methods, ∀ n ∈ Expr.nodesOfAll m.body.statements, n.IsProper) :
    (c.neededStrings file classes).toFinset = (c.translate file classes).strings.toFinset := by
  have hmarks : ∀ i ∈ (c.translate file classes).instructions, i.isMark → i.string? = file := by
    intro i hi
    refine (made_outputOfMethods file (c.layers classes) c.name.name hproper).string?_of_isMark i ?_
    exact (mem_instructions_outputOfMethods file _ _).mpr hi
  ext x
  rw [List.mem_toFinset, List.mem_toFinset, neededStrings, List.mem_append, SymbolicClass.strings,
    SymbolicClass.strings, List.mem_filterMap, List.mem_filterMap, instructions_translate_none]
  constructor
  · rintro (⟨i, hi, hx⟩ | hx)
    · exact ⟨i, List.mem_of_mem_filter hi, hx⟩
    · split at hx
      · next hcode =>
        obtain rfl : file = some x := Option.mem_toList.mp hx
        exact exists_mark_of_hasCode hcode
      · cases hx
  · rintro ⟨i, hi, hx⟩
    cases hmark : i.isMark with
    | false => exact Or.inl ⟨i, List.mem_filter.mpr ⟨hi, by rw [hmark]; rfl⟩, hx⟩
    | true =>
      refine Or.inr ?_
      rw [if_pos (hasCode_of_mem_instructions hi), Option.mem_toList, ← hmarks i hi hmark]
      exact hx

theorem withinLimits_iff_fits
    (hproper : ∀ m ∈ c.methods, ∀ n ∈ Expr.nodesOfAll m.body.statements, n.IsProper) :
    c.WithinLimits file classes ↔ (c.translate file classes).Fits := by
  have hlength : (c.neededStrings file classes).dedup.length
      = (c.translate file classes).strings.dedup.length := by
    rw [← List.card_toFinset, toFinset_neededStrings hproper, List.card_toFinset]
  constructor
  · rintro ⟨hstrings, hnumbers⟩
    exact ⟨hnumbers, hlength ▸ hstrings⟩
  · rintro ⟨hinstructions, hstrings⟩
    exact ⟨hlength.symm ▸ hstrings, hinstructions⟩

end ClassDef

namespace SourceUnit

variable {u : SourceUnit} {options : CompileOptions}

theorem fits_iff_withinLimits (hbuilt : Expr.Built 0 u.nodeCount u.statements) (file : Option String) :
    u.Fits file ↔ ∀ c ∈ u.allClasses, c.WithinLimits file u.allClasses := by
  rw [Fits, SourceUnit.translate, List.forall_mem_map]
  exact forall₂_congr fun c hc =>
    (ClassDef.withinLimits_iff_fits fun m hm => isProper_of_mem hbuilt hc hm).symm

/-! ## Complaints -/

/-- What the stages before code generation complain about is in the source text. -/
theorem not_isInternal_of_mem_complaints (hbuilt : Expr.Built 0 u.nodeCount u.statements) :
    ∀ e ∈ u.complaints options, e.isInternal = false := by
  refine List.forall_mem_append.mpr ⟨not_isInternal_of_mem_declareUnit, fun e he => ?_⟩
  exact not_isInternal_of_mem_resolveUnit (fun n hn => (hbuilt.wellFormed n hn).proper) e
    (Array.mem_toList_iff.mp he)

end SourceUnit

/-- No compilation reports an internal error. -/
theorem not_isInternal_of_mem_errors {source : String} {options : CompileOptions}
    {errors : List Diagnostic} (h : (compileSource source options).result = .error errors) :
    ∀ e ∈ errors, e.isInternal = false := by
  have houtcome := outcome_compileSource source options
  rw [h] at houtcome
  cases houtcome with
  | unreadable =>
    rw [List.forall_mem_map]
    exact fun _ _ => rfl
  | rejected hsource => exact SourceUnit.not_isInternal_of_mem_complaints (built_of_ofSource hsource)
  | exceeded =>
    intro e he
    rw [List.mem_singleton.mp he]
    rfl

/-- Compilation is complete: it reports no internal error, and a unit that is declared and resolved
without errors is compiled exactly if its classes are within the limits. Otherwise the only error is that
a limit is exceeded. -/
theorem compileSource_complete (source : String) (options : CompileOptions) :
    (∀ errors, (compileSource source options).result = .error errors →
      ∀ e ∈ errors, e.isInternal = false) ∧
    ∀ u, SourceUnit.ofSource source = .ok u → (declareUnit u).errors = [] →
      (resolveUnit u (declareUnit u).table (declareUnit u).scopes options).errors = #[] →
      ((∃ classes, (compileSource source options).result = .ok classes) ↔
        ∀ c ∈ u.allClasses, c.WithinLimits options.markedFile u.allClasses) ∧
      ((¬ ∀ c ∈ u.allClasses, c.WithinLimits options.markedFile u.allClasses) →
        ∃ what span, (compileSource source options).result = .error [.limitExceeded what span]) := by
  refine ⟨fun errors h => not_isInternal_of_mem_errors h, fun u hsource hdeclared hresolved => ?_⟩
  have hcomplaints : u.complaints options = [] := by
    rw [SourceUnit.complaints, hdeclared, hresolved]
    rfl
  rw [← SourceUnit.fits_iff_withinLimits (built_of_ofSource hsource)]
  obtain ⟨hfits, classes, hok, -⟩ | ⟨hfits, what, span, herror⟩ :=
    cases_of_complaints_eq_nil hsource hcomplaints
  · exact ⟨iff_of_true ⟨classes, hok⟩ hfits, fun h => absurd hfits h⟩
  · refine ⟨iff_of_false ?_ hfits, fun _ => ⟨what, span, herror⟩⟩
    rintro ⟨classes, hok⟩
    rw [herror] at hok
    cases hok

/-- A class with a literal that is the file name too, and a method that is part of the machine. -/
theorem compileSource_complete_marked :
    ∃ u, SourceUnit.ofSource "Object subclass: #A [ | f | p <primitive: #p> m: x [ f := 'f.st'. ^x p: f ] ]"
        = .ok u ∧
      (∃ classes, (compileSource
        "Object subclass: #A [ | f | p <primitive: #p> m: x [ f := 'f.st'. ^x p: f ] ]"
        { fileName := "f.st", debugInfo := true }).result = .ok classes ∧
        classes.map (·.literals.toList) = [["f.st", "p:"]]) ∧
      ∀ c ∈ u.allClasses, c.WithinLimits (some "f.st") u.allClasses := by
  obtain ⟨classes, h, hliterals, u, hsource, hcomplaints, -, -⟩ := exists_ok_of_map (r := (compileSource
      "Object subclass: #A [ | f | p <primitive: #p> m: x [ f := 'f.st'. ^x p: f ] ]"
      { fileName := "f.st", debugInfo := true }).result) (f := List.map (·.literals.toList))
    (b := [["f.st", "p:"]]) (by decide +kernel) fun _ => exists_unit_of_ok
  obtain ⟨hdeclared, hresolved⟩ := List.append_eq_nil_iff.mp hcomplaints
  have hlimits := (compileSource_complete _ _).2 u hsource hdeclared (Array.toList_eq_nil_iff.mp hresolved)
  exact ⟨u, hsource, ⟨classes, h, hliterals⟩, hlimits.1.mp ⟨classes, h⟩⟩

end Smalltalk
