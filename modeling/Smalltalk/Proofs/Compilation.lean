import Mathlib
import Smalltalk.Compiler.Compile
import Smalltalk.Proofs.ClassGeneration
import Smalltalk.Proofs.Limits
import Smalltalk.Proofs.Reading

/-!
# Compilation is the direct translation

A unit that is declared and resolved without complaints is compiled to its direct translation, or does
not fit into the machine. Nothing else can happen to it.
-/

namespace Smalltalk

open ScopeTable

/-! ## The classes of a unit and their scopes -/

/-- The scopes of all classes and of their methods, those of the main program last. -/
def ScopeMap.entries (m : ScopeMap) : List (ScopeId × List ScopeId) := m.classEntries ++ m.mainEntries

theorem statementsOfClasses_allClasses (u : SourceUnit) :
    statementsOfClasses u.allClasses = u.statements := by
  rw [SourceUnit.allClasses, statementsOfClasses, List.flatMap_append, SourceUnit.statements]
  congr 1
  unfold SourceUnit.mainClass?
  split
  · next hempty =>
    have hstatements := (Bool.and_eq_true_iff.mp hempty).2
    rw [List.isEmpty_iff.mp hstatements]
    rfl
  · rw [Option.toList_some, List.flatMap_singleton, statementsOfMethods, List.flatMap_singleton]
    rfl

theorem mem_zip_swap {α β : Type} {as : List α} {bs : List β} {a : α} {b : β}
    (h : (a, b) ∈ as.zip bs) : (b, a) ∈ bs.zip as := by
  rw [← List.zip_swap]
  exact List.mem_map_of_mem h

namespace ScopeTable.HoldsUnit

variable {t : ScopeTable} {scopes : ScopeMap} {u : SourceUnit}

theorem map_sourceOfClass_zip (classes : List ClassDef) (owners : List ScopeId)
    (methods : List (List ScopeId)) :
    ((classes.zip owners).zip methods).map
        (fun entry => GenerateM.sourceOfClass (entry.1.2, entry.2) entry.1.1)
      = List.zipWith GenerateM.sourceOfClass (owners.zip methods) classes := by
  induction classes generalizing owners methods with
  | nil => simp
  | cons c classes ih =>
    cases owners with
    | nil => simp
    | cons owner owners =>
      cases methods with
      | nil => simp
      | cons method methods => simp [ih]

variable (h : t.HoldsUnit scopes u)

include h

theorem forall₂_holdsClass : List.Forall₂ (t.HoldsClass scopes.blocks) scopes.entries u.allClasses :=
  List.rel_append h.holdsClass h.holdsMain

theorem map_fst_classEntries : scopes.classEntries.map (·.1) = scopes.classes :=
  List.map_fst_zip (h.length_classes.trans h.length_methods.symm).le

theorem map_snd_classEntries : scopes.classEntries.map (·.2) = scopes.methods :=
  List.map_snd_zip (h.length_methods.trans h.length_classes.symm).le

/-- The main program has scopes exactly if there is one. -/
theorem main_cases :
    scopes.main = none ∧ u.mainClass? = none ∨
      ∃ owner method, scopes.main = some (owner, method) ∧ u.mainClass? = some {
        name := ⟨mainClassName, {}⟩
        superclass := some ⟨mainSuperclassName, {}⟩
        methods := [{ selector := ⟨mainMethodName, {}⟩, body := .code u.main, close := u.finish }] } := by
  have hlength := h.holdsMain.length_eq
  unfold ScopeMap.mainEntries SourceUnit.mainClass? at hlength
  unfold SourceUnit.mainClass?
  cases hmain : scopes.main with
  | none =>
    rw [hmain] at hlength
    split at hlength
    · next hempty => exact Or.inl ⟨rfl, if_pos hempty⟩
    · cases hlength
  | some main =>
    rw [hmain] at hlength
    split at hlength
    · cases hlength
    · next hempty => exact Or.inr ⟨main.1, main.2, rfl, if_neg hempty⟩

/-- Going through the methods of the classes and then through the main program is going through the
methods of all classes. -/
theorem flatMap_statements {α : Type} (f : ScopeId → List Expr → List α) :
    ((u.classes.zip scopes.methods).flatMap fun entry =>
        (entry.1.methods.zip entry.2).flatMap fun entry => f entry.2 entry.1.body.statements)
      ++ (scopes.main.toList.flatMap fun entry => f entry.2 u.main.statements)
      = (u.allClasses.zip (scopes.entries.map (·.2))).flatMap fun entry =>
        (entry.1.methods.zip entry.2).flatMap fun entry => f entry.2 entry.1.body.statements := by
  rw [SourceUnit.allClasses, ScopeMap.entries, List.map_append, h.map_snd_classEntries,
    List.zip_append h.length_methods.symm, List.flatMap_append]
  congr 1
  unfold ScopeMap.mainEntries
  obtain ⟨hnone, hclass⟩ | ⟨owner, method, hsome, hclass⟩ := h.main_cases
  · rw [hnone, hclass]
    rfl
  · rw [hsome, hclass]
    simp [MethodBody.statements]

/-- Code generation goes through all classes with their scopes. -/
theorem classSources_eq :
    GenerateM.classSources u scopes
      = List.zipWith GenerateM.sourceOfClass scopes.entries u.allClasses := by
  rw [SourceUnit.allClasses, ScopeMap.entries, List.zipWith_append h.holdsClass.length_eq,
    GenerateM.classSources]
  congr 1
  · exact map_sourceOfClass_zip u.classes scopes.classes scopes.methods
  · unfold ScopeMap.mainEntries
    obtain ⟨hnone, hclass⟩ | ⟨owner, method, hsome, hclass⟩ := h.main_cases
    · rw [hnone, hclass]
      rfl
    · rw [hsome, hclass]
      rfl

/-- The table knows exactly the classes of the unit. -/
theorem holdsClasses :
    t.HoldsClasses ((scopes.entries.map (·.1)).zip (u.allClasses.map ClassDef.header)) := by
  have hlength : (scopes.entries.map (·.1)).length = (u.allClasses.map ClassDef.header).length := by
    rw [List.length_map, List.length_map, h.forall₂_holdsClass.length_eq]
  refine ⟨?_, ?_, ?_⟩
  · rw [h.classesOf_eq, classList, List.zip_map, List.map_map, List.map_zip_eq_zipWith]
    rfl
  · rw [List.map_fst_zip hlength.le]
    exact h.nodup_scopes
  · rintro ⟨s, c⟩ hmem
    rw [List.zip_map, List.mem_map] at hmem
    obtain ⟨⟨entry, c'⟩, hmem, heq⟩ := hmem
    cases heq
    exact ((List.forall₂_iff_zip.mp h.forall₂_holdsClass).2 hmem).1

theorem map_snd_zip_headers :
    ((scopes.entries.map (·.1)).zip (u.allClasses.map ClassDef.header)).map (·.2)
      = u.allClasses.map ClassDef.header := by
  apply List.map_snd_zip
  rw [List.length_map, List.length_map, h.forall₂_holdsClass.length_eq]

/-- A class of a unit is one of the source text, or that of the main program. -/
theorem mem_cases {s : ScopeId} {a : ClassHeader}
    (hmem : (s, a) ∈ (scopes.entries.map (·.1)).zip (u.allClasses.map ClassDef.header)) :
    (∃ c, (c, s) ∈ u.classes.zip scopes.classes) ∨
      a.name = mainClassName ∧ a.superclass = some mainSuperclassName := by
  rw [List.zip_map_right, List.mem_map] at hmem
  obtain ⟨⟨s', c⟩, hmem, heq⟩ := hmem
  cases heq
  rw [ScopeMap.entries, SourceUnit.allClasses, List.map_append, h.map_fst_classEntries,
    List.zip_append h.length_classes, List.mem_append] at hmem
  rcases hmem with hmem | hmem
  · exact Or.inl ⟨c, mem_zip_swap hmem⟩
  · have hc := (List.of_mem_zip hmem).2
    obtain ⟨-, hclass⟩ | ⟨owner, method, -, hclass⟩ := h.main_cases
    · rw [hclass] at hc
      cases hc
    · rw [hclass, Option.toList_some, List.mem_singleton] at hc
      subst hc
      exact Or.inr ⟨rfl, rfl⟩

/-- If no class of the source text inherits from itself, nothing in the table is on a cycle. -/
theorem acyclic
    (hcycles : ∀ entry ∈ u.classes.zip scopes.classes, t.inheritsFromItself entry.2 = false) :
    ∀ c n, t.stepsUp (n + 1) c ≠ some c :=
  h.holdsClasses.acyclic h.valid fun _ _ hmem => (h.mem_cases hmem).imp (fun ⟨_, hc⟩ => hcycles _ hc) id

end ScopeTable.HoldsUnit

/-! ## Units without complaints -/

namespace SourceUnit

variable {u : SourceUnit} {options : CompileOptions}

/-- The context in which the code of a unit is generated. -/
def generateContext (u : SourceUnit) (options : CompileOptions) : GenerateContext :=
  ⟨(declareUnit u).table, (declareUnit u).scopes.blocks,
    (resolveUnit u (declareUnit u).table (declareUnit u).scopes options).bindings, options⟩

/-- What the stages before code generation complain about. -/
def complaints (u : SourceUnit) (options : CompileOptions) : List Diagnostic :=
  (declareUnit u).errors
    ++ (resolveUnit u (declareUnit u).table (declareUnit u).scopes options).errors.toList

theorem errors_resolveUnit (u : SourceUnit) (options : CompileOptions) :
    (resolveUnit u (declareUnit u).table (declareUnit u).scopes options).errors.toList
      = complaintsAboutCycles (u.generateContext options).resolveContext
          (u.classes.zip (declareUnit u).scopes.classes)
        ++ (complaintsAboutClasses (u.generateContext options).resolveContext
            (u.classes.zip (declareUnit u).scopes.methods)
          ++ u.mainComplaints (u.generateContext options).resolveContext (declareUnit u).scopes.main) :=
  (records_resolveUnit u _ _ options rfl).errors_eq

/-- No node of a unit occurs in two places, and every node has the shape that reading gives it. -/
structure IsUnshared (u : SourceUnit) : Prop where
  nodup_ids : (Expr.ids u.statements).Nodup
  isProper : ∀ n ∈ Expr.nodesOfAll u.statements, n.IsProper

theorem isUnshared_of_built (hbuilt : Expr.Built 0 u.nodeCount u.statements) : u.IsUnshared :=
  ⟨hbuilt.nodup_ids, fun n hn => (hbuilt.wellFormed n hn).proper⟩

theorem IsUnshared.isProper_of_mem (hu : u.IsUnshared) {c : ClassDef} (hc : c ∈ u.allClasses)
    {m : MethodDef} (hm : m ∈ c.methods) : ∀ n ∈ Expr.nodesOfAll m.body.statements, n.IsProper := by
  intro n hn
  obtain ⟨e, he, hn⟩ := Expr.mem_nodesOfAll.mp hn
  refine hu.isProper n (Expr.mem_nodesOfAll.mpr ⟨e, ?_, hn⟩)
  rw [← statementsOfClasses_allClasses]
  exact List.mem_flatMap.mpr ⟨c, hc, List.mem_flatMap.mpr ⟨m, hm, he⟩⟩

theorem isProper_of_mem (hbuilt : Expr.Built 0 u.nodeCount u.statements) {c : ClassDef}
    (hc : c ∈ u.allClasses) {m : MethodDef} (hm : m ∈ c.methods) :
    ∀ n ∈ Expr.nodesOfAll m.body.statements, n.IsProper :=
  (isUnshared_of_built hbuilt).isProper_of_mem hc hm

/-- If the stages before have nothing to complain about, classes are ready for code generation. -/
theorem forall₂_checkedClass (hu : u.IsUnshared) (h : u.complaints options = []) :
    List.Forall₂ (GenerateM.CheckedClass (u.generateContext options) u.allClasses)
      (declareUnit u).scopes.entries u.allClasses := by
  obtain ⟨hdeclared, hresolved⟩ := List.append_eq_nil_iff.mp h
  rw [errors_resolveUnit, List.append_eq_nil_iff] at hresolved
  obtain ⟨hcycles, hquiet⟩ := hresolved
  have hunit := holdsUnit_declareUnit hu.nodup_ids hdeclared
  have hacyclic := hunit.acyclic (inheritsFromItself_of_complaintsAboutCycles hcycles)
  have hbindings := hunit.flatMap_statements
    (Expr.bindingsOfAll (u.generateContext options).resolveContext)
  have hcomplaints := (hunit.flatMap_statements
    (Expr.complaintsAboutAll (u.generateContext options).resolveContext)).symm.trans hquiet
  refine List.forall₂_iff_zip.mpr ⟨hunit.forall₂_holdsClass.length_eq, fun {entry c} hmem => ?_⟩
  obtain ⟨hclass, hmethods⟩ := (List.forall₂_iff_zip.mp hunit.forall₂_holdsClass).2 hmem
  have hmem' : (c, entry.2) ∈ u.allClasses.zip ((declareUnit u).scopes.entries.map (·.2)) := by
    rw [List.zip_map_right]
    exact List.mem_map_of_mem (mem_zip_swap hmem)
  refine ⟨hclass, ?_, List.forall₂_iff_zip.mpr ⟨hmethods.length_eq, fun {scope m} hm => ⟨?_, ?_, ?_, ?_⟩⟩⟩
  · obtain ⟨rest, hchain⟩ := hunit.valid.exists_chain hacyclic entry.1
    have hlayers := hunit.holdsClasses.forall₂_layers hunit.valid hchain (a := c.header) (by
      rw [List.zip_map]
      exact List.mem_map_of_mem hmem)
    rw [hunit.map_snd_zip_headers] at hlayers
    exact ⟨rest, hchain, hlayers⟩
  · exact (List.forall₂_iff_zip.mp hmethods).2 hm
  · intro binding hbinding
    refine getElem?_resolveUnit _ hu.nodup_ids rfl (hbindings ▸ ?_)
    exact List.mem_flatMap.mpr ⟨_, hmem', List.mem_flatMap.mpr ⟨_, mem_zip_swap hm, hbinding⟩⟩
  · exact List.flatMap_eq_nil_iff.mp (List.flatMap_eq_nil_iff.mp hcomplaints _ hmem') _ (mem_zip_swap hm)
  · exact hu.isProper_of_mem (List.of_mem_zip hmem).2 (List.of_mem_zip hm).2

/-- Whether all classes of a unit fit into the machine, with position marks for the given file if there
is one. -/
def Fits (u : SourceUnit) (file : Option String) : Prop := ∀ c ∈ u.translate file, c.Fits

/-- The compiled forms of the classes of a unit. -/
def assembled (u : SourceUnit) (file : Option String) : List CompiledClass :=
  u.allClasses.map (ClassDef.assembled file u.allClasses)

/-- Generating the code of a unit without complaints gives its direct translation, or exceeds a limit
because some class does not fit. -/
theorem yields_compiledClasses (hu : u.IsUnshared) (h : u.complaints options = []) :
    GenerateM.Yields (GenerateM.compiledClasses (u.generateContext options) #[]
        (GenerateM.classSources u (declareUnit u).scopes)) {} (u.Fits options.markedFile)
      fun classes _ => classes = u.assembled options.markedFile ∧
        classes.mapM CompiledClass.symbolic? = some (u.translate options.markedFile) := by
  have hunit := holdsUnit_declareUnit hu.nodup_ids (List.append_eq_nil_iff.mp h).1
  have hchecked := forall₂_checkedClass hu h
  have hfits : (∀ c ∈ u.allClasses, (c.output options.markedFile u.allClasses).Fits .empty) ↔
      u.Fits options.markedFile := by
    rw [Fits, SourceUnit.translate, List.forall_mem_map]
    exact forall₂_congr fun c hc => c.fits_output_iff _ fun m hm => hu.isProper_of_mem hc hm
  rw [hunit.classSources_eq]
  refine (GenerateM.yields_classes hunit.valid hunit.unit_kind hchecked #[]).imp hfits fun cs g hcs => ?_
  obtain ⟨rfl, hnew⟩ := hcs
  exact ⟨rfl, hnew⟩

theorem generateUnit_cases (hu : u.IsUnshared) (h : u.complaints options = []) :
    (∃ classes, (generateUnit u (declareUnit u).table (declareUnit u).scopes
          (u.generateContext options).bindings options).1 = .ok classes ∧
        u.Fits options.markedFile ∧ classes = u.assembled options.markedFile ∧
        classes.mapM CompiledClass.symbolic? = some (u.translate options.markedFile)) ∨
      ∃ what span, (generateUnit u (declareUnit u).table (declareUnit u).scopes
          (u.generateContext options).bindings options).1 = .error (.limitExceeded what span) ∧
        ¬ u.Fits options.markedFile := by
  have hyields := yields_compiledClasses hu h
  unfold GenerateM.Yields at hyields
  unfold generateUnit
  rw [generateContext] at hyields ⊢
  split at hyields
  · next classes g hok =>
    simp only [hok]
    exact Or.inl ⟨classes, rfl, hyields⟩
  · next e g herror =>
    simp only [herror]
    obtain ⟨hfits, what, span, rfl⟩ := hyields
    exact Or.inr ⟨what, span, rfl, hfits⟩

theorem compile_of_complaints_eq_nil (h : u.complaints options = []) :
    (u.compile options).result = (generateUnit u (declareUnit u).table (declareUnit u).scopes
      (u.generateContext options).bindings options).1.mapError fun e => [e] := by
  rw [complaints] at h
  simp only [SourceUnit.compile, h, generateContext]

theorem compile_of_complaints_ne_nil (h : u.complaints options ≠ []) :
    (u.compile options).result = .error (u.complaints options) := by
  rw [complaints] at h ⊢
  simp only [SourceUnit.compile]

/-- A unit is compiled exactly if there is nothing to complain about and it fits, and then in one way. -/
theorem compile_eq_ok_iff (hu : u.IsUnshared) {classes : List CompiledClass} :
    (u.compile options).result = .ok classes ↔
      u.complaints options = [] ∧ u.Fits options.markedFile ∧ classes = u.assembled options.markedFile := by
  by_cases hcomplaints : u.complaints options = []
  · rw [compile_of_complaints_eq_nil hcomplaints]
    obtain ⟨classes', hok, hfits, heq, -⟩ | ⟨what, span, herror, hfits⟩ := generateUnit_cases hu hcomplaints
    · rw [hok, ← heq]
      simp [Except.mapError, hcomplaints, hfits, eq_comm]
    · rw [herror]
      simp [Except.mapError, hfits]
  · rw [compile_of_complaints_ne_nil hcomplaints]
    simp [hcomplaints]

end SourceUnit

/-! ## Source texts -/

/-- What can come out of compiling a source text. -/
inductive Outcome (source : String) (options : CompileOptions) :
    Except (List Diagnostic) (List CompiledClass) → Prop where
  /-- The text cannot be read. -/
  | unreadable {errors : List SyntaxError} :
    SourceUnit.ofSource source = .error errors → Outcome source options (.error (errors.map .unreadable))
  /-- There is something to complain about. -/
  | rejected {u : SourceUnit} :
    SourceUnit.ofSource source = .ok u → u.complaints options ≠ [] →
    Outcome source options (.error (u.complaints options))
  /-- Some class does not fit into the machine. -/
  | exceeded {u : SourceUnit} {what : Quantity} {span : Span} :
    SourceUnit.ofSource source = .ok u → u.complaints options = [] → ¬ u.Fits options.markedFile →
    Outcome source options (.error [.limitExceeded what span])
  /-- All classes are translated. -/
  | compiled {u : SourceUnit} {classes : List CompiledClass} :
    SourceUnit.ofSource source = .ok u → u.complaints options = [] → u.Fits options.markedFile →
    classes.mapM CompiledClass.symbolic? = some (u.translate options.markedFile) →
    Outcome source options (.ok classes)

/-- Compiling a source text has one of the four outcomes. -/
theorem outcome_compileSource (source : String) (options : CompileOptions) :
    Outcome source options (compileSource source options).result := by
  unfold compileSource
  cases hsource : SourceUnit.ofSource source with
  | error errors => exact .unreadable hsource
  | ok u =>
    by_cases hcomplaints : u.complaints options = []
    · simp only [SourceUnit.compile_of_complaints_eq_nil hcomplaints]
      obtain ⟨classes, hok, hfits, -, hsymbolic⟩ | ⟨what, span, herror, hfits⟩ :=
        SourceUnit.generateUnit_cases (SourceUnit.isUnshared_of_built (built_of_ofSource hsource)) hcomplaints
      · rw [hok]
        exact .compiled hsource hcomplaints hfits hsymbolic
      · rw [herror]
        exact .exceeded hsource hcomplaints hfits
    · simp only [SourceUnit.compile_of_complaints_ne_nil hcomplaints]
      exact .rejected hsource hcomplaints

section Success

variable {source : String} {options : CompileOptions} {classes : List CompiledClass}

/-- A compilation that goes well has read a unit, and gives its direct translation. -/
theorem exists_unit_of_ok (h : (compileSource source options).result = .ok classes) :
    ∃ u, SourceUnit.ofSource source = .ok u ∧ u.complaints options = [] ∧ u.Fits options.markedFile ∧
      classes.mapM CompiledClass.symbolic? = some (u.translate options.markedFile) := by
  have houtcome := outcome_compileSource source options
  rw [h] at houtcome
  cases houtcome with
  | compiled hsource hcomplaints hfits hsymbolic => exact ⟨_, hsource, hcomplaints, hfits, hsymbolic⟩

/-- A unit without complaints is compiled if it fits, and exceeds a single limit otherwise. -/
theorem cases_of_complaints_eq_nil {u : SourceUnit} (hsource : SourceUnit.ofSource source = .ok u)
    (hcomplaints : u.complaints options = []) :
    (u.Fits options.markedFile ∧ ∃ classes, (compileSource source options).result = .ok classes ∧
        classes.mapM CompiledClass.symbolic? = some (u.translate options.markedFile)) ∨
      (¬ u.Fits options.markedFile ∧
        ∃ what span, (compileSource source options).result = .error [.limitExceeded what span]) := by
  have houtcome := outcome_compileSource source options
  generalize (compileSource source options).result = r at houtcome
  cases houtcome with
  | unreadable h =>
    rw [hsource] at h
    cases h
  | rejected h hne =>
    rw [hsource] at h
    cases h
    exact absurd hcomplaints hne
  | exceeded h _ hfits =>
    rw [hsource] at h
    cases h
    exact Or.inr ⟨hfits, _, _, rfl⟩
  | compiled h _ hfits hsymbolic =>
    rw [hsource] at h
    cases h
    exact Or.inl ⟨hfits, _, rfl, hsymbolic⟩

/-- Without position marks, the code of every class that is compiled, decoded and with its literals
looked up, is the direct translation of the source text. -/
theorem symbolic_compileSource_eq_translate (hdebug : options.debugInfo = false)
    (h : (compileSource source options).result = .ok classes) :
    ∃ u, SourceUnit.ofSource source = .ok u ∧
      classes.mapM CompiledClass.symbolic? = some (u.translate none) := by
  obtain ⟨u, hsource, -, -, hsymbolic⟩ := exists_unit_of_ok h
  have hfile : options.markedFile = none := by
    rw [CompileOptions.markedFile, hdebug]
    rfl
  exact ⟨u, hsource, hfile ▸ hsymbolic⟩

/-- A computation has a result with a property if some view of the result can be computed and the property
follows from success. -/
theorem exists_ok_of_map {ε α β : Type} {r : Except ε α} {f : α → β} {b : β} {P : α → Prop}
    (h : r.toOption.map f = some b) (hP : ∀ a, r = .ok a → P a) : ∃ a, r = .ok a ∧ f a = b ∧ P a := by
  cases r with
  | ok a => exact ⟨a, rfl, Option.some.inj h, hP a rfl⟩
  | error e => cases h

theorem exists_of_isOk {r : Except (List Diagnostic) (List CompiledClass)} (h : r.isOk) :
    ∃ classes, r = .ok classes := by
  cases r with
  | ok classes => exact ⟨classes, rfl⟩
  | error errors => cases h

/-- Inherited fields, a parameter that hides a field, nested blocks and a main program. -/
theorem symbolic_compileSource_inherited_fields :
    ∃ classes, (compileSource ("A subclass: #B [ | z | at: z [ ^super at: z ] set [ z := y ] ] "
        ++ "Object subclass: #A [ | x y | at: k [ ^[:i | y := x + i. [k]] ] ] B new at: 1") {}).result
        = .ok classes ∧
      classes.map (fun c => (c.fields, c.literals.toList,
          c.methods.map fun m => (Bytecode.decode m.code).instructions)) =
        [(["z"], ["at:"], [[.pushSelf, .pushLocal 0 0, .sendSuper 1 0, .methodReturn, .pushSelf, .methodReturn],
            [.pushField 1, .storeField 2, .pushSelf, .methodReturn]]),
          (["x", "y"], ["+"], [[.block 0, .methodReturn, .pushSelf, .methodReturn]]),
          ([], ["B", "new", "at:"],
            [[.pushGlobal 0, .send 0 1, .pushInt 1, .send 1 2, .pushSelf, .methodReturn]])] ∧
      ∃ u, SourceUnit.ofSource ("A subclass: #B [ | z | at: z [ ^super at: z ] set [ z := y ] ] "
        ++ "Object subclass: #A [ | x y | at: k [ ^[:i | y := x + i. [k]] ] ] B new at: 1") = .ok u ∧
        classes.mapM CompiledClass.symbolic? = some (u.translate none) :=
  exists_ok_of_map (by decide +kernel) fun _ h => symbolic_compileSource_eq_translate rfl h

end Success

end Smalltalk
