import Mathlib
import Smalltalk.Command.Run
import Smalltalk.Proofs.Arity
import Smalltalk.Proofs.FileTrees
import Smalltalk.Proofs.Modularity

/-!
# The files of a run

A run leaves every file alone if the source has errors. Otherwise it writes one file for each class and at
most one listing: their names differ and lead nowhere but into the output directory, so no file is written
twice and no other one is touched.
-/

namespace Smalltalk

/-! ## The names of compiled classes -/

section Names

variable {source : String} {options : CompileOptions} {classes : List CompiledClass} {u : SourceUnit}

theorem isNameChar_slash : isNameChar '/' = false := by decide

theorem isNameChar_dot : isNameChar '.' = false := by decide

theorem IsSymbolName.notMem {text : List Char} (h : IsSymbolName text) {c : Char} (hc : isNameChar c = false)
    (hcolon : c ≠ ':') : c ∉ text := by
  intro hmem
  have hchar := h.2 c hmem
  rw [hc, Bool.false_or, beq_iff_eq] at hchar
  exact hcolon hchar

theorem isSymbolName_mainClassName : IsSymbolName mainClassName.toList := by
  have hall : mainClassName.toList.all (fun c => isNameChar c || c == ':') = true := by decide
  exact ⟨by decide, List.all_eq_true.mp hall⟩

/-- The main program comes last, under a name of its own. -/
theorem SourceUnit.map_name_allClasses (u : SourceUnit) : u.allClasses.map (·.name.name) =
    u.classes.map (·.name.name) ++ if u.main.locals = [] ∧ u.main.statements = [] then [] else [mainClassName] := by
  rw [allClasses, List.map_append, mainClass?, Body.isEmpty]
  by_cases hempty : u.main.locals = [] ∧ u.main.statements = []
  · rw [if_pos hempty, if_pos (by simp [hempty])]
    rfl
  · rw [if_neg hempty, if_neg (by simpa [List.isEmpty_iff] using hempty)]
    rfl

theorem SourceUnit.nodup_names_of_complaints (hsource : SourceUnit.ofSource source = .ok u)
    (hcomplaints : u.complaints options = []) : (u.allClasses.map (·.name.name)).Nodup := by
  have hunshared := isUnshared_of_built (built_of_ofSource hsource)
  obtain ⟨hdeclared, -⟩ := (complaints_eq_nil_iff hunshared.nodup_ids).mp hcomplaints
  have hnames : u.declaredClasses.map (·.name.name) = u.allClasses.map (·.name.name) := by
    have hheaders := congrArg (List.map ClassHeader.name) (map_header_declaredClasses u)
    rw [List.map_map, List.map_map] at hheaders
    exact hheaders
  rw [← hnames]
  exact ((declarationErrors_eq_nil_iff u).mp hdeclared).1.1

theorem SourceUnit.isSymbolName_of_mem_allClasses (hsource : SourceUnit.ofSource source = .ok u) {c : ClassDef}
    (hc : c ∈ u.allClasses) : IsSymbolName c.name.name.toList := by
  rcases List.mem_append.mp hc with hc | hc
  · exact (agrees_of_ofSource hsource).1 c hc
  · unfold mainClass? at hc
    split at hc
    · cases hc
    · cases List.mem_singleton.mp hc
      exact isSymbolName_mainClassName

/-- Compiled classes are named as in the source. -/
theorem map_name_of_symbolic? {file : Option String}
    (h : classes.mapM CompiledClass.symbolic? = some (u.translate file)) :
    classes.map (·.name) = u.allClasses.map (·.name.name) := by
  have hnames : List.Forall₂ (fun (c : CompiledClass) (sym : SymbolicClass) => c.name = sym.name) classes
      (u.translate file) :=
    (mapM_eq_some_iff.mp h).imp fun _ _ hc => congrArg ClassHeader.name (classReadsAs_of_symbolic? hc).header_eq
  rw [SourceUnit.translate, List.forall₂_map_right_iff] at hnames
  rw [← List.forall₂_eq_eq_eq, List.forall₂_map_left_iff, List.forall₂_map_right_iff]
  exact hnames

/-- What is known about the names of compiled classes. -/
theorem exists_names_of_ok (h : (compileSource source options).result = .ok classes) :
    ∃ u, SourceUnit.ofSource source = .ok u ∧ classes.map (·.name) = u.allClasses.map (·.name.name) ∧
      (classes.map (·.name)).Nodup ∧ ∀ c ∈ classes, IsSymbolName c.name.toList := by
  obtain ⟨u, hsource, hcomplaints, -, hsymbolic⟩ := exists_unit_of_ok h
  have hnames := map_name_of_symbolic? hsymbolic
  refine ⟨u, hsource, hnames, ?_, fun c hc => ?_⟩
  · rw [hnames]
    exact SourceUnit.nodup_names_of_complaints hsource hcomplaints
  · have hmem : c.name ∈ u.allClasses.map (·.name.name) := hnames ▸ List.mem_map_of_mem hc
    obtain ⟨d, hd, hname⟩ := List.mem_map.mp hmem
    rw [← hname]
    exact SourceUnit.isSymbolName_of_mem_allClasses hsource hd

end Names

/-! ## Writing files one after the other -/

namespace FileTree

variable {t : FileTree} {location : FileLocation} {files : List OutputFile}

/-- The tree with files at a location. -/
def store (t : FileTree) (location : FileLocation) (files : List OutputFile) : FileTree :=
  files.foldl (fun t f => t.insert (location ++ [f.name]) (.file f.text.toUTF8)) t

theorem store_cons (t : FileTree) (location : FileLocation) (f : OutputFile) (files : List OutputFile) :
    t.store location (f :: files) =
      (t.insert (location ++ [f.name]) (.file f.text.toUTF8)).store location files := rfl

theorem entry?_store_of_notMem {other : FileLocation} (hother : ∀ f ∈ files, other ≠ location ++ [f.name]) :
    FileTree.entry? (t.store location files) other = t.entry? other := by
  induction files generalizing t with
  | nil => rfl
  | cons f files ih =>
    obtain ⟨hf, hfiles⟩ := List.forall_mem_cons.mp hother
    rw [store_cons, ih hfiles, entry?_insert (List.concat_ne_nil _ _), if_neg hf]

theorem entry?_store_of_mem (hnodup : (files.map OutputFile.name).Nodup) {f : OutputFile} (hf : f ∈ files) :
    FileTree.entry? (t.store location files) (location ++ [f.name]) = some (.file f.text.toUTF8) := by
  induction files generalizing t with
  | nil => cases hf
  | cons g files ih =>
    rw [List.map_cons, List.nodup_cons] at hnodup
    rw [store_cons]
    rcases List.mem_cons.mp hf with rfl | hf
    · rw [entry?_store_of_notMem, entry?_insert (List.concat_ne_nil _ _), if_pos rfl]
      intro g hg heq
      have hname : f.name = g.name := List.singleton_inj.mp (List.append_cancel_left heq)
      rw [hname] at hnodup
      exact hnodup.1 (List.mem_map_of_mem hg)
    · exact ih hnodup.2 hf

/-- Access to a tree of files that keeps a journal of the paths it is asked to write. -/
def journaled : FileAccess (StateM (FileTree × List String)) where
  read path := fun s => ((access.read path s.1).1, (access.read path s.1).2, s.2)
  write path text := fun s => ((access.write path text s.1).1, (access.write path text s.1).2, s.2 ++ [path])
  makeDirectory path := fun s => ((access.makeDirectory path s.1).1, (access.makeDirectory path s.1).2, s.2)
  isDirectory path := fun s => ((access.isDirectory path s.1).1, (access.isDirectory path s.1).2, s.2)

theorem journaled_write (path text : String) (s : FileTree × List String) : journaled.write path text s =
    ((access.write path text s.1).1, (access.write path text s.1).2, s.2 ++ [path]) := rfl

/-- The second computation does the same as the first one and leaves the journal alone. -/
def Silent {α : Type} (x : StateM FileTree α) (y : StateM (FileTree × List String) α) : Prop :=
  ∀ s, y s = ((x s.1).1, (x s.1).2, s.2)

theorem Silent.bind {α β : Type} {x : StateM FileTree α} {y : StateM (FileTree × List String) α}
    {f : α → StateM FileTree β} {g : α → StateM (FileTree × List String) β} (h : Silent x y)
    (hf : ∀ a, Silent (f a) (g a)) : Silent (x >>= f) (y >>= g) := by
  intro s
  rw [bind_apply, bind_apply, h s, hf]

theorem silent_pure {α : Type} (a : α) : Silent (pure a) (pure a) :=
  fun _ => rfl

theorem silent_readText (path : String) : Silent (access.readText path) (journaled.readText path) := by
  refine Silent.bind (fun _ => rfl) fun content => ?_
  rcases content with e | bytes
  · exact silent_pure _
  · dsimp only
    split
    · exact silent_pure _
    · exact silent_pure _

theorem silent_ensureDirectory (path : String) :
    Silent (access.ensureDirectory path) (journaled.ensureDirectory path) := by
  refine Silent.bind (fun _ => rfl) fun result => ?_
  split
  · refine Silent.bind (fun _ => rfl) fun isDirectory => ?_
    split
    · exact silent_pure _
    · exact silent_pure _
  · exact silent_pure _

theorem silent_ensureDirectoryBelow (path : String) (parents : List String) :
    Silent (access.ensureDirectoryBelow path parents) (journaled.ensureDirectoryBelow path parents) := by
  induction parents generalizing path with
  | nil => exact silent_ensureDirectory path
  | cons parent parents ih =>
    refine Silent.bind (silent_ensureDirectory path) fun result => ?_
    split
    · refine Silent.bind (ih parent) fun above => ?_
      split
      · exact silent_pure _
      · exact silent_ensureDirectory path
    · exact silent_pure _

end FileTree

namespace Command

open FileTree

section Writing

variable {t : FileTree} {directory : String} {location : FileLocation} {files : List OutputFile}

/-- Files that can each be written can be written one after the other: none is in the way of the next. -/
theorem writeAll_eq (hlocation : t.LeadsTo directory location) (hnames : ∀ f ∈ files, Path.IsFileName f.name)
    (hnodup : (files.map OutputFile.name).Nodup)
    (hwrites : ∀ f ∈ files, (t.write (Path.join directory f.name) f.text).isOk) :
    Arguments.writeAll access directory files t = (.written, t.store location files) ∧
      ∀ journal, Arguments.writeAll journaled directory files (t, journal) =
        (.written, t.store location files, journal ++ files.map (Path.join directory ·.name)) := by
  induction files generalizing t with
  | nil => exact ⟨rfl, fun journal => by rw [List.map_nil, List.append_nil]; rfl⟩
  | cons f files ih =>
    obtain ⟨hname, hnames⟩ := List.forall_mem_cons.mp hnames
    obtain ⟨hwrite, hwrites⟩ := List.forall_mem_cons.mp hwrites
    rw [List.map_cons, List.nodup_cons] at hnodup
    have hkeeps := keepsDirectories_of_write_join hlocation hname hwrite
    have hrest : ∀ g ∈ files, ((t.insert (location ++ [f.name]) (.file f.text.toUTF8)).write
        (Path.join directory g.name) g.text).isOk := by
      intro g hg
      refine isOk_write_join_insert hlocation hname hwrite (hnames g hg) ?_ (hwrites g hg)
      intro heq
      rw [← heq] at hnodup
      exact hnodup.1 (List.mem_map_of_mem hg)
    obtain ⟨hrun, hjournal⟩ := ih (hkeeps.leadsTo hlocation) hnames hnodup.2 hrest
    have hstep := access_write_join hlocation hname hwrite
    constructor
    · rw [Arguments.writeAll, bind_apply, hstep]
      exact hrun
    · intro journal
      have hlater := hjournal (journal ++ [Path.join directory f.name])
      rw [List.append_assoc, List.singleton_append] at hlater
      rw [Arguments.writeAll, bind_apply, journaled_write, hstep]
      exact hlater

end Writing

/-! ## The names of the files -/

section Names

variable {fileName : String} {listing : Bool} {classes : List CompiledClass}

theorem isFileName_append {name extension : String} (hname : '/' ∉ name.toList)
    (hextension : '/' ∉ extension.toList) (hlength : 2 < extension.length) : Path.IsFileName (name ++ extension) := by
  have hlong : 2 < (name ++ extension).length := by
    rw [String.length_append]
    omega
  have hne : ∀ short : String, short.length ≤ 2 → name ++ extension ≠ short := by
    rintro short hshort rfl
    omega
  refine ⟨hne _ (by decide), ?_, hne _ (by decide), hne _ (by decide)⟩
  rw [String.toList_append, List.mem_append]
  exact fun h => h.elim hname hextension

theorem isFileName_of_mem_outputFiles (hfile : Path.IsFileName fileName)
    (hclasses : ∀ c ∈ classes, IsSymbolName c.name.toList) {f : OutputFile}
    (hf : f ∈ outputFiles fileName listing classes) : Path.IsFileName f.name := by
  rcases List.mem_append.mp hf with hf | hf
  · obtain ⟨c, hc, rfl⟩ := List.mem_map.mp hf
    exact isFileName_append ((hclasses c hc).notMem isNameChar_slash (by decide)) (by decide) (by decide)
  · split at hf
    · cases List.mem_singleton.mp hf
      exact isFileName_append hfile.slash_notMem (by decide) (by decide)
    · cases hf

theorem objectFile_name_inj {c c' : CompiledClass} (h : c.objectFile.name = c'.objectFile.name) :
    c.name = c'.name := by
  have hlists := congrArg String.toList h
  rw [CompiledClass.objectFile, CompiledClass.objectFile, String.toList_append, String.toList_append] at hlists
  exact String.toList_inj.mp (List.append_cancel_right hlists)

/-- No class is called so that its object file would be the listing. -/
theorem objectFile_name_ne_listingFile_name (c : CompiledClass) :
    c.objectFile.name ≠ (listingFile fileName classes).name := by
  intro h
  have hlast := congrArg (·.toList.getLast?) h
  rw [CompiledClass.objectFile, listingFile] at hlast
  simp only [String.toList_append] at hlast
  rw [List.getLast?_append_of_ne_nil _ (by decide), List.getLast?_append_of_ne_nil _ (by decide)] at hlast
  exact absurd hlast (by decide)

theorem nodup_outputFiles (fileName : String) (listing : Bool) (hclasses : (classes.map (·.name)).Nodup) :
    ((outputFiles fileName listing classes).map OutputFile.name).Nodup := by
  rw [outputFiles, List.map_append, List.map_map]
  refine List.nodup_append.mpr ⟨?_, ?_, ?_⟩
  · rw [List.Nodup, List.pairwise_map] at hclasses ⊢
    exact hclasses.imp fun hne heq => hne (objectFile_name_inj heq)
  · split
    · exact List.nodup_singleton _
    · exact List.nodup_nil
  · intro name hname name' hname'
    obtain ⟨c, -, rfl⟩ := List.mem_map.mp hname
    split at hname'
    · cases List.mem_singleton.mp hname'
      exact objectFile_name_ne_listingFile_name c
    · cases hname'

end Names

/-! ## Runs -/

section Runs

variable {a : Arguments} {t : FileTree} {source : String}

/-- A source with errors ends a run before it has changed anything. -/
theorem run_of_error (hread : (access.readText a.file t).1 = .ok source) {errors : List Diagnostic}
    (herrors : (compileSource source a.options).result = .error errors) :
    a.run access t = (.rejected (Path.fileName a.file) errors, t) ∧
      a.run journaled (t, []) = (.rejected (Path.fileName a.file) errors, t, []) := by
  have htext : access.readText a.file t = (.ok source, t) := Prod.ext hread (readText_snd a.file t)
  constructor
  · rw [Arguments.run, bind_apply, htext]
    simp only [herrors]
    rfl
  · rw [Arguments.run, bind_apply, silent_readText, htext]
    simp only [herrors]
    rfl

/-- Without errors a run makes the output directory and then writes all files. -/
theorem run_of_ok (hread : (access.readText a.file t).1 = .ok source) {classes : List CompiledClass}
    (hclasses : (compileSource source a.options).result = .ok classes) {t₁ : FileTree}
    (hmade : access.ensureDirectories a.output t = (.ok (), t₁)) :
    a.run access t = Arguments.writeAll access a.output (outputFiles (Path.fileName a.file) a.listing classes) t₁ ∧
      a.run journaled (t, []) =
        Arguments.writeAll journaled a.output (outputFiles (Path.fileName a.file) a.listing classes) (t₁, []) := by
  have htext : access.readText a.file t = (.ok source, t) := Prod.ext hread (readText_snd a.file t)
  constructor
  · rw [Arguments.run, bind_apply, htext]
    simp only [hclasses]
    rw [bind_apply, hmade]
  · rw [Arguments.run, bind_apply, silent_readText, htext]
    simp only [hclasses]
    have hjournaled : journaled.ensureDirectories a.output (t, []) = (.ok (), t₁, []) := by
      rw [FileAccess.ensureDirectories, silent_ensureDirectoryBelow, ← FileAccess.ensureDirectories, hmade]
    rw [bind_apply, hjournaled]

/-- Once the output directory is there, a run writes all files if each of them can be written. -/
theorem run_of_writes (hread : (access.readText a.file t).1 = .ok source) {classes : List CompiledClass}
    (hclasses : (compileSource source a.options).result = .ok classes) {t₁ : FileTree} {directory : FileLocation}
    (hmade : access.ensureDirectories a.output t = (.ok (), t₁)) (hdirectory : t₁.LeadsTo a.output directory)
    (hwrites : ∀ f ∈ outputFiles (Path.fileName a.file) a.listing classes,
      (t₁.write (Path.join a.output f.name) f.text).isOk) :
    a.run access t = (.written, t₁.store directory (outputFiles (Path.fileName a.file) a.listing classes)) ∧
      a.run journaled (t, []) =
        (.written, t₁.store directory (outputFiles (Path.fileName a.file) a.listing classes),
          (outputFiles (Path.fileName a.file) a.listing classes).map (Path.join a.output ·.name)) := by
  obtain ⟨-, -, -, hnodup, hspelled⟩ := exists_names_of_ok hclasses
  have hnames : ∀ f ∈ outputFiles (Path.fileName a.file) a.listing classes, Path.IsFileName f.name := by
    intro f hf
    exact isFileName_of_mem_outputFiles (isFileName_fileName_of_readText hread) hspelled hf
  obtain ⟨hrun, hjournal⟩ := run_of_ok hread hclasses hmade
  obtain ⟨hwritten, hjournaled⟩ := writeAll_eq hdirectory hnames (nodup_outputFiles _ _ hnodup) hwrites
  rw [hrun, hjournal, hjournaled, List.nil_append]
  exact ⟨hwritten, rfl⟩

/-- One tree is another with an object file for each class in a directory, and their listing if it is asked for. -/
structure Delivered (a : Arguments) (classes : List CompiledClass) (directory : FileLocation) (t t' : FileTree) :
    Prop where
  object : ∀ c ∈ classes, t'.entry? (directory ++ [c.name ++ ".sto"]) = some (.file c.objectText.toUTF8)
  listing : a.listing → t'.entry? (directory ++ [Path.fileName a.file ++ "-teststring.txt"]) =
    some (.file (String.join (classes.map CompiledClass.listing)).toUTF8)
  other : ∀ location, (∀ c ∈ classes, location ≠ directory ++ [c.name ++ ".sto"]) →
    (a.listing → location ≠ directory ++ [Path.fileName a.file ++ "-teststring.txt"]) →
    t'.entry? location = t.entry? location

theorem objectFile_mem_outputFiles {classes : List CompiledClass} {c : CompiledClass} (hc : c ∈ classes)
    (fileName : String) (listing : Bool) : c.objectFile ∈ outputFiles fileName listing classes :=
  List.mem_append_left _ (List.mem_map_of_mem hc)

theorem listingFile_mem_outputFiles {listing : Bool} (hlisting : listing = true) (fileName : String)
    (classes : List CompiledClass) : listingFile fileName classes ∈ outputFiles fileName listing classes := by
  rw [outputFiles, if_pos hlisting]
  exact List.mem_append_right _ List.mem_cons_self

theorem delivered_store {classes : List CompiledClass} (hnodup : (classes.map (·.name)).Nodup)
    (directory : FileLocation) (t : FileTree) :
    Delivered a classes directory t (t.store directory (outputFiles (Path.fileName a.file) a.listing classes)) := by
  have hfiles := nodup_outputFiles (Path.fileName a.file) a.listing hnodup
  refine ⟨fun c hc => ?_, fun hlisting => ?_, fun location hobject hlisting => ?_⟩
  · exact entry?_store_of_mem hfiles (objectFile_mem_outputFiles hc _ _)
  · exact entry?_store_of_mem hfiles (listingFile_mem_outputFiles hlisting _ _)
  · refine entry?_store_of_notMem fun f hf => ?_
    rcases List.mem_append.mp hf with hf | hf
    · obtain ⟨c, hc, rfl⟩ := List.mem_map.mp hf
      exact hobject c hc
    · split at hf
      case isTrue hasked =>
        cases List.mem_singleton.mp hf
        exact hlisting hasked
      case isFalse => cases hf

theorem map_join_outputFiles (directory fileName : String) (listing : Bool) (classes : List CompiledClass) :
    (outputFiles fileName listing classes).map (Path.join directory ·.name) =
      classes.map (fun c => Path.join directory (c.name ++ ".sto")) ++
        if listing then [Path.join directory (fileName ++ "-teststring.txt")] else [] := by
  rw [outputFiles, List.map_append, List.map_map]
  cases listing <;> rfl

/-- A run on a source with errors changes nothing. A run on any other source writes an object file for each of
its classes, whose names are distinct and lead into no other directory, and a listing if it is asked for; each of
them is written once, and nothing else changes but that the way to the output directory is made. -/
theorem run_all_or_nothing (hread : (access.readText a.file t).1 = .ok source) :
    (∀ errors, (compileSource source a.options).result = .error errors →
      a.run access t = (.rejected (Path.fileName a.file) errors, t) ∧ (a.run access t).1.status = 1 ∧
        a.run journaled (t, []) = (.rejected (Path.fileName a.file) errors, t, [])) ∧
    ∀ classes, (compileSource source a.options).result = .ok classes →
      (∃ u, SourceUnit.ofSource source = .ok u ∧ classes.map (·.name) = u.classes.map (·.name.name) ++
        if u.main.locals = [] ∧ u.main.statements = [] then [] else ["MainClass"]) ∧
      (classes.map (·.name)).Nodup ∧
      (∀ c ∈ classes, IsSymbolName c.name.toList ∧ '/' ∉ c.name.toList ∧ '.' ∉ c.name.toList) ∧
      ∀ t₁, access.ensureDirectories a.output t = (.ok (), t₁) →
        (∀ f ∈ outputFiles (Path.fileName a.file) a.listing classes,
          (t₁.write (Path.join a.output f.name) f.text).isOk) →
        t.AddsDirectories t₁ ∧ ∃ directory t', t₁.LeadsTo a.output directory ∧
          a.run access t = (.written, t') ∧ (a.run access t).1.status = 0 ∧
          Delivered a classes directory t₁ t' ∧
          ∃ paths, a.run journaled (t, []) = (.written, t', paths) ∧ paths.Nodup ∧
            paths = classes.map (fun c => Path.join a.output (c.name ++ ".sto")) ++
              if a.listing then [Path.join a.output (Path.fileName a.file ++ "-teststring.txt")] else [] := by
  refine ⟨fun errors herrors => ?_, fun classes hclasses => ?_⟩
  · obtain ⟨hrun, hjournal⟩ := run_of_error hread herrors
    rw [hrun]
    exact ⟨rfl, rfl, hjournal⟩
  obtain ⟨u, hsource, hnames, hnodup, hspelled⟩ := exists_names_of_ok hclasses
  refine ⟨⟨u, hsource, hnames.trans u.map_name_allClasses⟩, hnodup, fun c hc => ?_, fun t₁ hmade hwrites => ?_⟩
  · exact ⟨hspelled c hc, (hspelled c hc).notMem isNameChar_slash (by decide),
      (hspelled c hc).notMem isNameChar_dot (by decide)⟩
  have hprovides := provides_ensureDirectoryBelow a.output (Path.parents a.output) t
  rw [← FileAccess.ensureDirectories, hmade] at hprovides
  obtain ⟨directory, hdirectory⟩ := hprovides.leadsTo rfl
  obtain ⟨hrun, hjournal⟩ := run_of_writes hread hclasses hmade hdirectory hwrites
  refine ⟨hprovides.adds, directory, _, hdirectory, hrun, ?_, delivered_store hnodup directory t₁, _, hjournal, ?_,
    map_join_outputFiles ..⟩
  · rw [hrun]
    rfl
  · have hpaths := (nodup_outputFiles (Path.fileName a.file) a.listing hnodup).map (Path.join_injective a.output)
    rwa [List.map_map] at hpaths

/-- A program with a class and a main part in a directory of sources, compiled into a directory that is not there
yet, with a listing. -/
theorem run_all_or_nothing_nested_output : ∃ (a : Arguments) (source : String) (t t₁ t' : FileTree)
    (classes : List CompiledClass) (directory : FileLocation),
    a = { file := "src/a.st", output := "out//bin/", listing := true } ∧
    source = "Object subclass: #A [ x [ ^1 ] ] A new x" ∧
    t = (({} : FileTree).insert ["src"] .directory).insert ["src", "a.st"] (.file source.toUTF8) ∧
    classes.map CompiledClass.name = ["A", "MainClass"] ∧ t.AddsDirectories t₁ ∧ t₁.LeadsTo a.output directory ∧
    a.run access t = (.written, t') ∧ Delivered a classes directory t₁ t' := by
  obtain ⟨a, ha⟩ : ∃ a : Arguments, a = { file := "src/a.st", output := "out//bin/", listing := true } := ⟨_, rfl⟩
  obtain ⟨source, hsource⟩ : ∃ source, source = "Object subclass: #A [ x [ ^1 ] ] A new x" := ⟨_, rfl⟩
  obtain ⟨t, ht⟩ : ∃ t, t = (({} : FileTree).insert ["src"] .directory).insert ["src", "a.st"]
    (.file source.toUTF8) := ⟨_, rfl⟩
  have hread : (access.readText a.file t).1 = .ok source := by
    subst ha hsource ht
    exact readText_of_read rfl
  have hmade : access.ensureDirectories a.output t = (.ok (), (access.ensureDirectories a.output t).2) := by
    refine Prod.ext ?_ rfl
    subst ha hsource ht
    rfl
  have hall : (compileSource source a.options).result.toOption.any fun classes =>
      decide (classes.map CompiledClass.name = ["A", "MainClass"]) &&
        (outputFiles (Path.fileName a.file) a.listing classes).all fun f =>
          ((access.ensureDirectories a.output t).2.write (Path.join a.output f.name) f.text).isOk := by
    subst ha hsource ht
    decide +kernel
  obtain ⟨classes, hclasses, hall⟩ := (Option.any_eq_true ..).mp hall
  rw [Bool.and_eq_true, decide_eq_true_eq, List.all_eq_true] at hall
  have hresult : (compileSource source a.options).result = .ok classes := by
    cases hcompiled : (compileSource source a.options).result with
    | error e =>
      rw [hcompiled] at hclasses
      cases hclasses
    | ok compiled =>
      rw [hcompiled] at hclasses
      cases hclasses
      rfl
  obtain ⟨-, hok⟩ := run_all_or_nothing hread
  obtain ⟨-, -, -, hrun⟩ := hok classes hresult
  obtain ⟨hadds, directory, t', hdirectory, hwritten, -, hdelivered, -⟩ := hrun _ hmade hall.2
  exact ⟨a, source, t, _, t', classes, directory, ha, hsource, ht, hall.1, hadds, hdirectory, hwritten, hdelivered⟩

end Runs

end Command

end Smalltalk
