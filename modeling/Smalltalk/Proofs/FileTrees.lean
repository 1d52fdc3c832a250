import Mathlib
import Smalltalk.Files.Tree

/-!
# What steps do to a tree of files

The path of a name in a directory leads to that name below the place where the path of the directory leads.
So writing a file changes what stands there and nothing else, and no directory goes away; making a
directory, with all that is missing on the way to it, adds directories and nothing else.
-/

namespace Smalltalk

/-! ## Paths -/

namespace Path

/-- A name that a file can have. -/
structure IsFileName (name : String) : Prop where
  ne_empty : name ≠ ""
  slash_notMem : '/' ∉ name.toList
  ne_dot : name ≠ "."
  ne_dots : name ≠ ".."

theorem slash_notMem_of_mem_splitOn {cs part : List Char} (h : part ∈ cs.splitOn '/') : '/' ∉ part := by
  induction cs generalizing part with
  | nil =>
    rw [List.splitOn_nil, List.mem_singleton] at h
    rw [h]
    exact List.not_mem_nil
  | cons c cs ih =>
    rw [List.splitOn_eq_splitOnP, List.splitOnP_cons_eq_if_modifyHead, ← List.splitOn_eq_splitOnP] at h
    split at h
    case isTrue =>
      rcases List.mem_cons.mp h with rfl | h
      · exact List.not_mem_nil
      · exact ih h
    case isFalse hc =>
      obtain ⟨first, parts, hparts⟩ := List.exists_cons_of_ne_nil (List.splitOn_ne_nil '/' cs)
      rw [hparts, List.modifyHead_cons, List.mem_cons] at h
      rw [hparts] at ih
      rcases h with rfl | h
      · intro hmem
        rcases List.mem_cons.mp hmem with hslash | hmem
        · exact hc (beq_iff_eq.mpr hslash.symm)
        · exact ih List.mem_cons_self hmem
      · exact ih (List.mem_cons_of_mem _ h)

theorem ne_empty_and_slash_notMem_of_mem_steps {path name : String} (h : name ∈ steps path) :
    name ≠ "" ∧ '/' ∉ name.toList := by
  obtain ⟨hname, hne⟩ := List.mem_filter.mp h
  obtain ⟨cs, hcs, rfl⟩ := List.mem_map.mp hname
  rw [String.toList_ofList]
  exact ⟨of_decide_eq_true hne, slash_notMem_of_mem_splitOn hcs⟩

/-- A path that ends in the name of a file names that file. -/
theorem fileName_eq_of_steps_eq {path last : String} {names : List String} (hsteps : steps path = names ++ [last])
    (hlast : IsFileName last) : fileName path = last := by
  have hnames : (Path.names path).getLast? = some last := by
    unfold Path.names
    cases names with
    | nil =>
      rw [hsteps]
      simp only [List.nil_append, hlast.ne_dot, false_and, if_false, List.filter_nil, List.append_nil,
        List.getLast?_singleton]
    | cons first names =>
      rw [hsteps]
      simp only [List.cons_append, List.filter_append, List.filter_singleton, ne_eq, hlast.ne_dot,
        not_false_eq_true, decide_true, cond_true, ← List.append_assoc, List.getLast?_concat]
  rw [fileName, hnames]
  simp only [if_neg hlast.ne_dots]

section Join

variable {directory name : String}

theorem toList_join (directory name : String) : (join directory name).toList =
    directory.toList ++ if endsInSlash directory then name.toList else '/' :: name.toList := by
  rw [join]
  split
  · exact String.toList_append
  · rw [String.toList_append, String.toList_append, List.append_assoc]
    rfl

theorem steps_join (directory : String) (hname : IsFileName name) :
    steps (join directory name) = steps directory ++ [name] := by
  have hsplit : name.toList.splitOn '/' = [name.toList] := List.splitOn_eq_singleton hname.slash_notMem
  rw [steps, steps, toList_join]
  split
  case isTrue hslash =>
    -- The slash is there already, and nothing stands after it.
    obtain ⟨cs, hcs⟩ := List.getLast?_eq_some_iff.mp (beq_iff_eq.mp hslash)
    rw [hcs, List.append_assoc, List.singleton_append, List.splitOn_append_cons_self,
      List.splitOn_append_cons_self, hsplit, List.splitOn_nil]
    simp [hname.ne_empty]
  case isFalse =>
    rw [List.splitOn_append_cons_self, hsplit]
    simp [hname.ne_empty]

theorem join_injective (directory : String) : Function.Injective (join directory) := by
  intro name name' h
  have hlists := congrArg String.toList h
  rw [toList_join, toList_join] at hlists
  have hrest := List.append_cancel_left hlists
  split at hrest
  · exact String.toList_inj.mp hrest
  · exact String.toList_inj.mp ((List.cons_inj_right _).mp hrest)

theorem isAbsolute_join (hdirectory : directory ≠ "") :
    isAbsolute (join directory name) = isAbsolute directory := by
  have hne : directory.toList ≠ [] := mt String.toList_eq_nil_iff.mp hdirectory
  rw [isAbsolute, isAbsolute, toList_join, List.head?_append_of_ne_nil _ hne]

theorem endsInSlash_join (hname : IsFileName name) : endsInSlash (join directory name) = false := by
  have hne : name.toList ≠ [] := mt String.toList_eq_nil_iff.mp hname.ne_empty
  have hlast : (join directory name).toList.getLast? = name.toList.getLast? := by
    rw [toList_join]
    split
    · exact List.getLast?_append_of_ne_nil _ hne
    · rw [List.getLast?_append_of_ne_nil _ (List.cons_ne_nil _ _), List.getLast?_cons_of_ne_nil hne]
  rw [endsInSlash, hlast, beq_eq_false_iff_ne]
  intro h
  exact hname.slash_notMem (List.mem_of_getLast? h)

theorem join_ne_empty (hname : IsFileName name) : join directory name ≠ "" := by
  intro h
  have hnil := toList_join directory name
  rw [h, String.toList_empty, eq_comm, List.append_eq_nil_iff] at hnil
  split at hnil
  · exact hname.ne_empty (String.toList_eq_nil_iff.mp hnil.2)
  · exact List.cons_ne_nil _ _ hnil.2

end Join

end Path

/-! ## Following names -/

namespace FileTree

variable {t t' : FileTree} {location : FileLocation} {entry : FileEntry}

theorem entry?_insert (hlocation : location ≠ []) (other : FileLocation) :
    FileTree.entry? (t.insert location entry) other =
      if other = location then some entry else t.entry? other := by
  unfold entry? insert
  by_cases hroot : other = []
  · rw [if_pos hroot, if_pos hroot, if_neg (hroot ▸ hlocation.symm)]
  · rw [if_neg hroot, if_neg hroot, Std.TreeMap.getElem?_insert]
    by_cases heq : other = location
    · rw [if_pos heq, if_pos (Std.LawfulEqOrd.compare_eq_iff_eq.mpr heq.symm)]
    · rw [if_neg heq, if_neg (mt Std.LawfulEqOrd.compare_eq_iff_eq.mp (Ne.symm heq))]

/-- Every directory is still there. -/
structure KeepsDirectories (t t' : FileTree) : Prop where
  workingDirectory_eq : t'.workingDirectory = t.workingDirectory
  directory : ∀ location, t.entry? location = some .directory → t'.entry? location = some .directory

/-- Nothing but directories has come, and nothing has gone. -/
structure AddsDirectories (t t' : FileTree) : Prop where
  workingDirectory_eq : t'.workingDirectory = t.workingDirectory
  entry : ∀ location, t'.entry? location = t.entry? location ∨
    t.entry? location = none ∧ t'.entry? location = some .directory

theorem AddsDirectories.refl (t : FileTree) : AddsDirectories t t :=
  ⟨rfl, fun _ => .inl rfl⟩

theorem AddsDirectories.trans {t'' : FileTree} (h : AddsDirectories t t') (h' : AddsDirectories t' t'') :
    AddsDirectories t t'' := by
  refine ⟨h'.workingDirectory_eq.trans h.workingDirectory_eq, fun location => ?_⟩
  rcases h.entry location with heq | ⟨hnone, hdirectory⟩
  · rw [← heq]
    exact h'.entry location
  · rcases h'.entry location with heq | ⟨hnone', -⟩
    · exact .inr ⟨hnone, heq.trans hdirectory⟩
    · rw [hdirectory] at hnone'
      cases hnone'

theorem KeepsDirectories.start_eq (h : KeepsDirectories t t') (path : String) : t'.start path = t.start path := by
  rw [start, start, h.workingDirectory_eq]

theorem keepsDirectories_insert (hlocation : location ≠ []) (hentry : t.entry? location ≠ some .directory) :
    KeepsDirectories t (t.insert location entry) := by
  refine ⟨rfl, fun other hother => ?_⟩
  rw [entry?_insert hlocation, if_neg ?_]
  · exact hother
  · rintro rfl
    exact hentry hother

theorem follow_append (t : FileTree) (location : FileLocation) (names names' : List String) :
    t.follow location (names ++ names') = (t.follow location names).bind (t.follow · names') := by
  fun_induction follow t location names <;> simp_all [follow, Except.bind]

theorem follow_singleton {name : String} (hname : Path.IsFileName name) (hbytes : name.utf8ByteSize ≤ maxNameBytes)
    (hentry : t.entry? (location ++ [name]) = some .directory) :
    t.follow location [name] = .ok (location ++ [name]) := by
  rw [follow, if_neg hname.ne_dot, if_neg hname.ne_dots, if_neg (not_lt.mpr hbytes), hentry]
  rfl

/-- What is reached stays within reach as long as directories stay. -/
theorem KeepsDirectories.follow {names : List String} {place : FileLocation} (h : KeepsDirectories t t')
    (hfollow : t.follow location names = .ok place) : t'.follow location names = .ok place := by
  fun_induction FileTree.follow t location names with
  | case1 => exact hfollow
  | case2 location names ih =>
    rw [FileTree.follow, if_pos rfl]
    exact ih hfollow
  | case3 location names hdot ih =>
    rw [FileTree.follow, if_neg hdot, if_pos rfl]
    exact ih hfollow
  | case4 | case5 | case6 => cases hfollow
  | case7 location name names hdot hdots hsize hentry ih =>
    rw [FileTree.follow, if_neg hdot, if_neg hdots, if_neg hsize, h.directory _ hentry]
    exact ih hfollow

/-- A path that leads to a directory. -/
def LeadsTo (t : FileTree) (path : String) (location : FileLocation) : Prop :=
  path ≠ "" ∧ t.follow (t.start path) (Path.steps path) = .ok location

theorem KeepsDirectories.leadsTo {path : String} (h : KeepsDirectories t t') (hpath : t.LeadsTo path location) :
    t'.LeadsTo path location := by
  refine ⟨hpath.1, ?_⟩
  rw [h.start_eq]
  exact h.follow hpath.2

theorem LeadsTo.eq {path : String} {place : FileLocation} (h : t.LeadsTo path location)
    (h' : t.LeadsTo path place) : location = place :=
  Except.ok.inj (h.2.symm.trans h'.2)

/-! ## Where a path leads -/

section Targets

theorem exists_of_bind_eq_ok {α β : Type} {x : Except FileError α} {f : α → Except FileError β} {b : β}
    (h : x.bind f = .ok b) : ∃ a, x = .ok a ∧ f a = .ok b := by
  cases x with
  | error e => cases h
  | ok a => exact ⟨a, rfl, h⟩

variable {path last : String} {names : List String} {target : Target}

theorem target_of_steps_eq_nil (hempty : path ≠ "") (hsize : path.utf8ByteSize ≤ maxPathBytes)
    (hsteps : Path.steps path = []) : t.target path = .ok (.directory (t.start path)) := by
  rw [FileTree.target, if_neg hempty, if_neg (not_lt.mpr hsize), hsteps]
  rfl

theorem target_of_steps_eq_concat (hempty : path ≠ "") (hsize : path.utf8ByteSize ≤ maxPathBytes)
    (hsteps : Path.steps path = names ++ [last]) :
    t.target path = (t.follow (t.start path) names).bind fun parent =>
      if last = "." then .ok (.directory parent)
      else if last = ".." then .ok (.directory parent.dropLast)
      else if maxNameBytes < last.utf8ByteSize then .error .nameTooLong
      else .ok (.name (parent ++ [last])) := by
  rw [FileTree.target, if_neg hempty, if_neg (not_lt.mpr hsize), hsteps]
  simp only [List.getLast?_concat, List.dropLast_concat]
  rfl

/-- A path leads to a directory, or to a name that a file can have. -/
theorem target_eq_ok (h : t.target path = .ok target) :
    path ≠ "" ∧ path.utf8ByteSize ≤ maxPathBytes ∧
      ((∃ location, target = .directory location ∧ t.follow (t.start path) (Path.steps path) = .ok location) ∨
        ∃ names last location, target = .name (location ++ [last]) ∧ Path.steps path = names ++ [last] ∧
          t.follow (t.start path) names = .ok location ∧ Path.IsFileName last ∧
          last.utf8ByteSize ≤ maxNameBytes) := by
  have hempty : path ≠ "" := by
    rintro rfl
    cases h
  have hsize : path.utf8ByteSize ≤ maxPathBytes := by
    by_contra hsize
    rw [FileTree.target, if_neg hempty, if_pos (not_le.mp hsize)] at h
    cases h
  refine ⟨hempty, hsize, ?_⟩
  rcases List.eq_nil_or_concat' (Path.steps path) with hsteps | ⟨names, last, hsteps⟩
  · rw [target_of_steps_eq_nil hempty hsize hsteps] at h
    cases h
    rw [hsteps]
    exact .inl ⟨_, rfl, rfl⟩
  · rw [target_of_steps_eq_concat hempty hsize hsteps] at h
    obtain ⟨parent, hparent, h⟩ := exists_of_bind_eq_ok h
    rw [hsteps, follow_append, hparent]
    split at h
    case isTrue hdot =>
      cases h
      rw [hdot]
      exact .inl ⟨_, rfl, rfl⟩
    case isFalse hdot =>
    split at h
    case isTrue hdots =>
      cases h
      rw [hdots]
      exact .inl ⟨_, rfl, rfl⟩
    case isFalse hdots =>
    split at h
    case isTrue => cases h
    case isFalse hlast =>
      cases h
      have hmem : last ∈ Path.steps path := by
        rw [hsteps]
        exact List.mem_concat_self
      obtain ⟨hne, hslash⟩ := Path.ne_empty_and_slash_notMem_of_mem_steps hmem
      exact .inr ⟨names, last, parent, rfl, rfl, hparent, ⟨hne, hslash, hdot, hdots⟩, not_lt.mp hlast⟩

end Targets

/-! ## Steps as computations -/

theorem bind_apply {σ α β : Type} (x : StateM σ α) (f : α → StateM σ β) (s : σ) :
    (x >>= f) s = f (x s).1 (x s).2 := rfl

theorem access_read (path : String) (t : FileTree) : access.read path t = (t.read path, t) := rfl

theorem access_write (path text : String) (t : FileTree) :
    access.write path text t = step (·.write path text) t := rfl

theorem access_makeDirectory (path : String) (t : FileTree) :
    access.makeDirectory path t = step (·.makeDirectory path) t := rfl

theorem step_of_ok {f : FileTree → Except FileError FileTree} (h : f t = .ok t') : step f t = (.ok (), t') := by
  rw [step, h]

theorem step_of_error {f : FileTree → Except FileError FileTree} {e : FileError} (h : f t = .error e) :
    step f t = (.error e, t) := by
  rw [step, h]

/-! ## Reading and writing -/

section Files

variable {path directory name text : String}

/-- The path of a file that can be read ends in the name of the file. -/
theorem isFileName_fileName_of_read {content : ByteArray} (h : t.read path = .ok content) :
    Path.IsFileName (Path.fileName path) := by
  obtain ⟨target, htarget, h⟩ := exists_of_bind_eq_ok h
  obtain ⟨-, -, ⟨location, rfl, -⟩ | ⟨names, last, location, rfl, hsteps, -, hlast, -⟩⟩ := target_eq_ok htarget
  · cases h
  rw [Path.fileName_eq_of_steps_eq hsteps hlast]
  exact hlast

theorem access_readText (path : String) (t : FileTree) : access.readText path t =
    ((t.read path).bind fun bytes => (String.fromUTF8? bytes).elim (.error .notText) .ok, t) := by
  rw [FileAccess.readText, bind_apply, access_read]
  cases t.read path with
  | error e => rfl
  | ok bytes =>
    cases htext : String.fromUTF8? bytes with
    | none => simp only [htext, Except.bind]; rfl
    | some text => simp only [htext, Except.bind]; rfl

theorem readText_of_read (h : t.read path = .ok text.toUTF8) :
    (access.readText path t).1 = .ok text := by
  have htext : String.fromUTF8? text.toUTF8 = some text := dif_pos text.isValidUTF8
  rw [access_readText, h, Except.bind, htext]
  rfl

theorem readText_snd (path : String) (t : FileTree) : (access.readText path t).2 = t := by
  rw [access_readText]

theorem isFileName_fileName_of_readText (h : (access.readText path t).1 = .ok text) :
    Path.IsFileName (Path.fileName path) := by
  rw [access_readText] at h
  obtain ⟨bytes, hbytes, -⟩ := exists_of_bind_eq_ok h
  exact isFileName_fileName_of_read hbytes

/-- Writing a file in a directory changes what its name stands for. -/
theorem write_join_eq_ok_iff (hdirectory : directory ≠ "") (hname : Path.IsFileName name) :
    t.write (Path.join directory name) text = .ok t' ↔
      ((Path.join directory name).utf8ByteSize ≤ maxPathBytes ∧ name.utf8ByteSize ≤ maxNameBytes) ∧
        ∃ location, t.LeadsTo directory location ∧ t.entry? (location ++ [name]) ≠ some .directory ∧
          t' = t.insert (location ++ [name]) (.file text.toUTF8) := by
  have hstart : t.start (Path.join directory name) = t.start directory := by
    rw [start, start, Path.isAbsolute_join hdirectory]
  have hsteps := Path.steps_join directory hname
  constructor
  · intro h
    obtain ⟨target, htarget, h⟩ := exists_of_bind_eq_ok h
    obtain ⟨-, hsize, ⟨location, rfl, -⟩ | ⟨names, last, location, rfl, hlast, hfollow, -, hbytes⟩⟩ :=
      target_eq_ok htarget
    · cases h
    obtain ⟨hnames, heq⟩ := List.append_inj' (hsteps.symm.trans hlast) rfl
    cases heq
    rw [hstart, ← hnames] at hfollow
    simp only [Path.endsInSlash_join hname, Bool.false_eq_true, if_false] at h
    refine ⟨⟨hsize, hbytes⟩, location, ⟨hdirectory, hfollow⟩, ?_⟩
    split at h
    case h_1 => cases h
    case h_2 hentry =>
      cases h
      exact ⟨hentry, rfl⟩
  · rintro ⟨⟨hsize, hbytes⟩, location, ⟨-, hfollow⟩, hentry, rfl⟩
    have htarget : t.target (Path.join directory name) = .ok (.name (location ++ [name])) := by
      rw [target_of_steps_eq_concat (Path.join_ne_empty hname) hsize hsteps, hstart, hfollow]
      simp only [Except.bind, if_neg hname.ne_dot, if_neg hname.ne_dots, if_neg (not_lt.mpr hbytes)]
    rw [FileTree.write, htarget]
    simp only [bind, Except.bind, Path.endsInSlash_join hname, Bool.false_eq_true, if_false]
    rfl

theorem exists_of_isOk_write (h : (t.write path text).isOk) : ∃ t', t.write path text = .ok t' := by
  cases hwrite : t.write path text with
  | ok t' => exact ⟨t', rfl⟩
  | error e =>
    rw [hwrite] at h
    cases h

theorem access_write_join (hlocation : t.LeadsTo directory location) (hname : Path.IsFileName name)
    (hwrite : (t.write (Path.join directory name) text).isOk) :
    access.write (Path.join directory name) text t =
      (.ok (), t.insert (location ++ [name]) (.file text.toUTF8)) := by
  obtain ⟨written, hwritten⟩ := exists_of_isOk_write hwrite
  obtain ⟨-, place, hplace, -, rfl⟩ := (write_join_eq_ok_iff hlocation.1 hname).mp hwritten
  rw [access_write, step_of_ok hwritten, hplace.eq hlocation]

theorem keepsDirectories_of_write_join (hlocation : t.LeadsTo directory location) (hname : Path.IsFileName name)
    (hwrite : (t.write (Path.join directory name) text).isOk) :
    KeepsDirectories t (t.insert (location ++ [name]) (.file text.toUTF8)) := by
  obtain ⟨written, hwritten⟩ := exists_of_isOk_write hwrite
  obtain ⟨-, place, hplace, hentry, -⟩ := (write_join_eq_ok_iff hlocation.1 hname).mp hwritten
  rw [hplace.eq hlocation] at hentry
  exact keepsDirectories_insert (List.concat_ne_nil _ _) hentry

/-- A file that can be written can still be written after another one of its directory was. -/
theorem isOk_write_join_insert {other text' : String} (hlocation : t.LeadsTo directory location)
    (hname : Path.IsFileName name) (hwrite : (t.write (Path.join directory name) text).isOk)
    (hother : Path.IsFileName other) (hne : other ≠ name)
    (hwrite' : (t.write (Path.join directory other) text').isOk) :
    ((t.insert (location ++ [name]) (.file text.toUTF8)).write (Path.join directory other) text').isOk := by
  obtain ⟨written, hwritten⟩ := exists_of_isOk_write hwrite'
  obtain ⟨hsizes, place, hplace, hentry, -⟩ := (write_join_eq_ok_iff hlocation.1 hother).mp hwritten
  rw [hplace.eq hlocation] at hentry
  have hleads := (keepsDirectories_of_write_join hlocation hname hwrite).leadsTo hlocation
  have hunchanged : FileTree.entry? (t.insert (location ++ [name]) (.file text.toUTF8)) (location ++ [other])
      = t.entry? (location ++ [other]) := by
    rw [entry?_insert (List.concat_ne_nil _ _), if_neg]
    intro heq
    exact hne (List.singleton_inj.mp (List.append_cancel_left heq))
  rw [(write_join_eq_ok_iff hlocation.1 hother).mpr ⟨hsizes, location, hleads, hunchanged ▸ hentry, rfl⟩]
  rfl

end Files

/-! ## Making directories -/

section Directories

variable {path : String}

theorem makeDirectory_eq_ok (h : t.makeDirectory path = .ok t') :
    AddsDirectories t t' ∧ ∃ location, t'.LeadsTo path location := by
  obtain ⟨target, htarget, h⟩ := exists_of_bind_eq_ok h
  obtain ⟨hempty, -, ⟨location, rfl, -⟩ | ⟨names, last, location, rfl, hsteps, hfollow, hlast, hbytes⟩⟩ :=
    target_eq_ok htarget
  · cases h
  have hne : location ++ [last] ≠ [] := List.concat_ne_nil _ _
  dsimp only at h
  split at h
  case isTrue => cases h
  case isFalse hnone =>
    cases h
    rw [Bool.not_eq_true, Option.isSome_eq_false_iff, Option.isNone_iff_eq_none] at hnone
    refine ⟨⟨rfl, fun other => ?_⟩, location ++ [last], hempty, ?_⟩
    · rw [entry?_insert hne]
      split
      case isTrue heq =>
        rw [heq]
        exact .inr ⟨hnone, rfl⟩
      case isFalse => exact .inl rfl
    · have hkeeps : KeepsDirectories t (t.insert (location ++ [last]) .directory) :=
        keepsDirectories_insert hne (by simp [hnone])
      have hmade : FileTree.entry? (t.insert (location ++ [last]) .directory) (location ++ [last])
          = some .directory := by
        rw [entry?_insert hne, if_pos rfl]
      rw [hkeeps.start_eq, hsteps, follow_append, hkeeps.follow hfollow, Except.bind,
        follow_singleton hlast hbytes hmade]

theorem exists_leadsTo_of_isDirectory (h : t.isDirectory path = true) : ∃ location, t.LeadsTo path location := by
  unfold isDirectory at h
  cases htarget : t.target path with
  | error e =>
    rw [htarget] at h
    cases h
  | ok target =>
    rw [htarget] at h
    obtain ⟨hempty, -, ⟨location, rfl, hfollow⟩ | ⟨names, last, location, rfl, hsteps, hfollow, hlast, hbytes⟩⟩ :=
      target_eq_ok htarget
    · exact ⟨location, hempty, hfollow⟩
    dsimp only at h
    split at h
    case h_1 hentry =>
      refine ⟨location ++ [last], hempty, ?_⟩
      rw [hsteps, follow_append, hfollow, Except.bind, follow_singleton hlast hbytes hentry]
    case h_2 => cases h

/-- Directories are all that is added, and what is asked for is there in the end. -/
structure Provides (path : String) (t : FileTree) (made : Except FileError Unit × FileTree) : Prop where
  adds : AddsDirectories t made.2
  leadsTo : made.1 = .ok () → ∃ location, made.2.LeadsTo path location

theorem provides_of_error (path : String) {e : FileError} (h : AddsDirectories t t') :
    Provides path t (.error e, t') :=
  ⟨h, fun h => by cases h⟩

theorem provides_ensureDirectory (path : String) (t : FileTree) :
    Provides path t (access.ensureDirectory path t) := by
  rw [FileAccess.ensureDirectory, bind_apply, access_makeDirectory]
  cases hmade : t.makeDirectory path with
  | ok t' =>
    obtain ⟨hadds, hleads⟩ := makeDirectory_eq_ok hmade
    rw [step_of_ok hmade]
    exact ⟨hadds, fun _ => hleads⟩
  | error e =>
    rw [step_of_error hmade]
    cases e with
    | alreadyExists =>
      simp only [bind_apply]
      by_cases hdirectory : (access.isDirectory path t).1 = true
      · rw [if_pos hdirectory]
        exact ⟨.refl t, fun _ => exists_leadsTo_of_isDirectory hdirectory⟩
      · rw [if_neg hdirectory]
        exact provides_of_error path (.refl t)
    | _ => exact provides_of_error path (.refl t)

/-- The directories above come first, as far as they are missing. -/
theorem provides_ensureDirectoryBelow (path : String) (parents : List String) (t : FileTree) :
    Provides path t (access.ensureDirectoryBelow path parents t) := by
  induction parents generalizing path t with
  | nil => exact provides_ensureDirectory path t
  | cons parent parents ih =>
    rw [FileAccess.ensureDirectoryBelow, bind_apply]
    obtain ⟨hadds, hleads⟩ := provides_ensureDirectory path t
    generalize access.ensureDirectory path t = first at hadds hleads
    rcases hfirst : first.1 with e | ⟨⟨⟩⟩
    · cases e with
      | notFound =>
        simp only [bind_apply]
        obtain ⟨haddsAbove, -⟩ := ih parent first.2
        generalize access.ensureDirectoryBelow parent parents first.2 = above at haddsAbove
        rcases habove : above.1 with e | ⟨⟨⟩⟩
        · exact provides_of_error path (hadds.trans haddsAbove)
        · obtain ⟨haddsLast, hleadsLast⟩ := provides_ensureDirectory path above.2
          exact ⟨(hadds.trans haddsAbove).trans haddsLast, hleadsLast⟩
      | _ => exact provides_of_error path hadds
    · exact ⟨hadds, fun _ => hleads hfirst⟩

end Directories

end FileTree

end Smalltalk
