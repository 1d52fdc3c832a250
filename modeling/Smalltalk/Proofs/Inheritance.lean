import Mathlib
import Smalltalk.Proofs.ScopeTable
import Smalltalk.Proofs.Translation

/-!
# Chains of superclasses

Classes extend each other by name, so nothing prevents a chain of superclasses from returning to where
it started. If no class inherits from itself, all chains end, no class occurs twice in one, and the
place of a field in an instance can be read off the fields of the classes of the chain.
-/

namespace Smalltalk.ScopeTable

variable {t : ScopeTable} {c d : ScopeId} {rest : List ScopeId}

/-! ## Steps towards the root -/

/-- The class so many steps above a class, as far as the unit has them. -/
def stepsUp (t : ScopeTable) : Nat → ScopeId → Option ScopeId
  | 0, c => some c
  | n + 1, c => (t.superclassScope c).bind (t.stepsUp n)

theorem stepsUp_add (t : ScopeTable) (m n : Nat) (c : ScopeId) :
    t.stepsUp (m + n) c = (t.stepsUp m c).bind (t.stepsUp n) := by
  induction m generalizing c with
  | zero => simp [stepsUp]
  | succ m ih =>
    rw [Nat.add_right_comm, stepsUp, stepsUp, Option.bind_assoc]
    congr 1
    funext d
    exact ih d

theorem stepsUp_one (t : ScopeTable) (c : ScopeId) : t.stepsUp 1 c = t.superclassScope c := by
  simp [stepsUp]

theorem Valid.superclassScope_lt (ht : t.Valid) (h : t.superclassScope c = some d) :
    d < t.scopeCount := by
  obtain ⟨x, -, hx⟩ := Option.bind_eq_some_iff.mp h
  obtain ⟨y, hy, heq⟩ := List.mem_map.mp (ht.lookupClass_eq_some_iff.mp hx)
  obtain ⟨i, -, rfl⟩ := List.mem_map.mp (List.mem_of_mem_filter hy)
  exact ht.defines_lt i d (congrArg Prod.snd heq)

theorem Valid.stepsUp_lt (ht : t.Valid) {n : Nat} (h : t.stepsUp (n + 1) c = some d) :
    d < t.scopeCount := by
  rw [stepsUp_add, Option.bind_eq_some_iff] at h
  obtain ⟨e, -, he⟩ := h
  exact ht.superclassScope_lt (t.stepsUp_one e ▸ he)

/-- Whoever goes up more often than there are scopes comes to some class twice. -/
theorem Valid.exists_repeat (ht : t.Valid) {n : Nat} (hn : t.scopeCount < n)
    (h : ∀ j < n, (t.stepsUp (j + 1) c).isSome) :
    ∃ i j e, i < j ∧ j < n ∧ t.stepsUp (i + 1) c = some e ∧ t.stepsUp (j + 1) c = some e := by
  have hsome : ∀ j < n, t.stepsUp (j + 1) c = some ((t.stepsUp (j + 1) c).getD 0) := by
    intro j hj
    obtain ⟨e, he⟩ := Option.isSome_iff_exists.mp (h j hj)
    rw [he]
    rfl
  obtain ⟨i, hi, j, hj, hne, heq⟩ := Finset.exists_ne_map_eq_of_card_lt_of_maps_to
    (s := Finset.range n) (t := Finset.range t.scopeCount)
    (f := fun j => (t.stepsUp (j + 1) c).getD 0) (by simpa using hn)
    (fun j hj => by
      have hlt := ht.stepsUp_lt (hsome j (by simpa using hj))
      simpa using hlt)
  rw [Finset.mem_range] at hi hj
  rcases Nat.lt_or_gt_of_ne hne with hlt | hlt
  · exact ⟨i, j, _, hlt, hj, hsome i hi, heq ▸ hsome j hj⟩
  · exact ⟨j, i, _, hlt, hi, hsome j hj, heq ▸ hsome i hi⟩

/-! ## Classes that inherit from themselves -/

/-- A chain that leads to `goal` is followed to its end, unless a class on the way has been seen or
the limit is too low. -/
theorem reaches_of_stepsUp {goal id : ScopeId} {m fuel : Nat} {seen : List ScopeId}
    (hgoal : t.stepsUp m id = some goal) (hfirst : ∀ j < m, t.stepsUp j id ≠ some goal)
    (hseen : ∀ j < m, ∀ e ∈ seen, t.stepsUp j id ≠ some e) (hfuel : m < fuel) :
    t.reaches goal fuel seen (some id) = true := by
  obtain ⟨fuel, rfl⟩ := Nat.exists_eq_add_of_lt (Nat.zero_lt_of_lt hfuel)
  induction m generalizing id fuel seen with
  | zero => simp [reaches, Option.some.inj hgoal]
  | succ m ih =>
    have hne : id ≠ goal := fun h => hfirst 0 m.succ_pos (congrArg some h)
    have hnot : seen.contains id = false := by
      rw [← Bool.not_eq_true, List.contains_iff_mem]
      exact fun h => hseen 0 m.succ_pos id h rfl
    obtain ⟨next, hnext, hrest⟩ := Option.bind_eq_some_iff.mp hgoal
    have hshift : ∀ j, t.stepsUp (j + 1) id = t.stepsUp j next := fun j => by
      rw [stepsUp, hnext, Option.bind_some]
    have hfuel' : m < 0 + (fuel - 1) + 1 := by omega
    have hlimit : 0 + fuel = 0 + (fuel - 1) + 1 := by omega
    rw [reaches, if_neg hne, hnot, if_neg Bool.false_ne_true, hnext, hlimit]
    refine ih hrest (fun j hj => ?_) (fun j hj e he => ?_) (fuel - 1) hfuel'
    · rw [← hshift]
      exact hfirst (j + 1) (Nat.succ_lt_succ hj)
    · rw [← hshift]
      rcases List.mem_cons.mp he with rfl | he
      · -- coming back to the start would make the way to the goal shorter
        intro hback
        refine hfirst (m - j) (by omega) ?_
        have hsplit : m + 1 = (j + 1) + (m - j) := by omega
        rw [hsplit, stepsUp_add, hback, Option.bind_some] at hgoal
        exact hgoal
      · exact hseen (j + 1) (Nat.succ_lt_succ hj) e he

/-- Following superclasses is found out to lead back to a class. -/
theorem Valid.inheritsFromItself_of_stepsUp (ht : t.Valid) {n : Nat}
    (h : t.stepsUp (n + 1) c = some c) : t.inheritsFromItself c = true := by
  classical
  have hback : ∃ n, t.stepsUp (n + 1) c = some c := ⟨n, h⟩
  obtain ⟨m, hm, hfirst⟩ : ∃ m, t.stepsUp (m + 1) c = some c ∧
      ∀ j < m, t.stepsUp (j + 1) c ≠ some c :=
    ⟨Nat.find hback, Nat.find_spec hback, fun j hj => Nat.find_min hback hj⟩
  obtain ⟨next, hnext, hrest⟩ := Option.bind_eq_some_iff.mp hm
  have hshift : ∀ j, t.stepsUp (j + 1) c = t.stepsUp j next := fun j => by
    rw [stepsUp, hnext, Option.bind_some]
  have hlimit : m < t.scopeCount + 1 := by
    by_contra hlt
    -- otherwise the shortest way back would have a detour in it
    have hsome : ∀ j < m, (t.stepsUp (j + 1) c).isSome := by
      intro j hj
      have hsplit : m + 1 = (j + 1) + (m - j) := by omega
      rw [hsplit, stepsUp_add] at hm
      obtain ⟨e, he, -⟩ := Option.bind_eq_some_iff.mp hm
      rw [he]
      rfl
    obtain ⟨i, j, e, hij, hj, hi, hej⟩ := ht.exists_repeat (by omega) hsome
    refine hfirst (i + (m - j)) (by omega) ?_
    have hsplit : m + 1 = (j + 1) + (m - j) := by omega
    have hshort : i + (m - j) + 1 = (i + 1) + (m - j) := by omega
    rw [hshort, stepsUp_add, hi, ← hej, ← stepsUp_add, ← hsplit]
    exact hm
  rw [inheritsFromItself, hnext]
  refine reaches_of_stepsUp hrest (fun j hj => ?_) (fun j hj e he => ?_) hlimit
  · rw [← hshift]
    exact hfirst j hj
  · exact absurd he List.not_mem_nil

/-- What is found by following a chain is on it. -/
theorem stepsUp_of_reaches {goal id : ScopeId} {fuel : Nat} {seen : List ScopeId}
    (h : t.reaches goal fuel seen (some id) = true) : ∃ m, t.stepsUp m id = some goal := by
  induction fuel generalizing id seen with
  | zero => cases h
  | succ fuel ih =>
    rw [reaches] at h
    split at h
    · next heq => exact ⟨0, congrArg some heq⟩
    · split at h
      · cases h
      · cases hnext : t.superclassScope id with
        | none =>
          rw [hnext] at h
          cases fuel <;> cases h
        | some next =>
          rw [hnext] at h
          obtain ⟨m, hm⟩ := ih h
          refine ⟨m + 1, ?_⟩
          rw [stepsUp, hnext, Option.bind_some, hm]

/-- A class that is found out to inherit from itself does. -/
theorem stepsUp_of_inheritsFromItself (h : t.inheritsFromItself c = true) :
    ∃ n, t.stepsUp (n + 1) c = some c := by
  rw [inheritsFromItself] at h
  cases hnext : t.superclassScope c with
  | none =>
    rw [hnext] at h
    cases h
  | some next =>
    rw [hnext] at h
    obtain ⟨m, hm⟩ := stepsUp_of_reaches h
    refine ⟨m, ?_⟩
    rw [stepsUp, hnext, Option.bind_some, hm]

/-- If a class is on a cycle, so is the one above it. -/
theorem stepsUp_superclass_self {n : Nat} (h : t.stepsUp (n + 1) c = some c)
    (hd : t.superclassScope c = some d) : t.stepsUp (n + 1) d = some d := by
  have hback : t.stepsUp n d = some c := by
    rw [stepsUp, hd, Option.bind_some] at h
    exact h
  rw [stepsUp_add, hback, Option.bind_some, stepsUp_one, hd]

/-! ## Chains that end -/

/-- The classes above a class, up to one that has no superclass in the unit. -/
inductive Chain (t : ScopeTable) : ScopeId → List ScopeId → Prop where
  | last {c : ScopeId} : t.superclassScope c = none → Chain t c []
  | step {c d : ScopeId} {rest : List ScopeId} :
    t.superclassScope c = some d → Chain t d rest → Chain t c (d :: rest)

/-- Without cycles every chain ends. -/
theorem Valid.exists_chain (ht : t.Valid) (hacyclic : ∀ c n, t.stepsUp (n + 1) c ≠ some c)
    (c : ScopeId) : ∃ rest, Chain t c rest := by
  by_contra hnone
  have hsome : ∀ n c, (¬ ∃ rest, Chain t c rest) → (t.stepsUp n c).isSome := by
    intro n
    induction n with
    | zero => exact fun _ _ => rfl
    | succ n ih =>
      intro c hc
      cases hd : t.superclassScope c with
      | none => exact absurd ⟨[], .last hd⟩ hc
      | some d =>
        rw [stepsUp, hd, Option.bind_some]
        exact ih d fun ⟨rest, hrest⟩ => hc ⟨d :: rest, .step hd hrest⟩
  obtain ⟨i, j, e, hij, -, hi, hj⟩ := ht.exists_repeat (c := c) (Nat.lt_succ_self t.scopeCount)
    fun j _ => hsome (j + 1) c hnone
  have hsplit : j + 1 = (i + 1) + ((j - i - 1) + 1) := by omega
  rw [hsplit, stepsUp_add, hi, Option.bind_some] at hj
  exact hacyclic e _ hj

namespace Chain

theorem eq_of_chain {rest' : List ScopeId} (h : Chain t c rest) (h' : Chain t c rest') :
    rest = rest' := by
  induction h generalizing rest' with
  | last hnone =>
    cases h' with
    | last _ => rfl
    | step hsome _ =>
      rw [hnone] at hsome
      cases hsome
  | step hsome _ ih =>
    cases h' with
    | last hnone =>
      rw [hnone] at hsome
      cases hsome
    | step hsome' hrest' =>
      rw [hsome] at hsome'
      cases hsome'
      rw [ih hrest']

theorem exists_of_mem (h : Chain t c rest) (hd : d ∈ rest) :
    ∃ rest', Chain t d rest' ∧ rest'.length < rest.length := by
  induction h with
  | last _ => cases hd
  | step _ hrest ih =>
    rcases List.mem_cons.mp hd with rfl | hd
    · exact ⟨_, hrest, Nat.lt_succ_self _⟩
    · obtain ⟨rest', hchain, hlt⟩ := ih hd
      exact ⟨rest', hchain, Nat.lt_succ_of_lt hlt⟩

theorem not_mem (h : Chain t c rest) : c ∉ rest := by
  intro hc
  obtain ⟨rest', hchain, hlt⟩ := h.exists_of_mem hc
  rw [h.eq_of_chain hchain] at hlt
  exact Nat.lt_irrefl _ hlt

theorem nodup (h : Chain t c rest) : rest.Nodup := by
  induction h with
  | last _ => exact List.nodup_nil
  | step _ hrest ih => exact List.nodup_cons.mpr ⟨hrest.not_mem, ih⟩

theorem lt_scopeCount (ht : t.Valid) (h : Chain t c rest) : ∀ d ∈ rest, d < t.scopeCount := by
  induction h with
  | last _ => exact fun _ hd => absurd hd List.not_mem_nil
  | step hsome _ ih => exact List.forall_mem_cons.mpr ⟨ht.superclassScope_lt hsome, ih⟩

theorem chainFrom_eq {fuel : Nat} {seen : List ScopeId} (h : Chain t c rest)
    (hseen : ∀ d ∈ rest, d ∉ seen) (hfuel : rest.length ≤ fuel) :
    t.chainFrom fuel seen (t.superclassScope c) = rest := by
  induction h generalizing fuel seen with
  | last hnone =>
    rw [hnone]
    cases fuel <;> rfl
  | @step c d rest hsome hrest ih =>
    cases fuel with
    | zero => cases hfuel
    | succ fuel =>
      have hnot : seen.contains d = false := by
        rw [← Bool.not_eq_true, List.contains_iff_mem]
        exact hseen d List.mem_cons_self
      rw [hsome, chainFrom, hnot, if_neg Bool.false_ne_true]
      congr 1
      refine ih (fun e he hmem => ?_) (Nat.le_of_succ_le_succ hfuel)
      rcases List.mem_cons.mp hmem with rfl | hmem
      · exact hrest.not_mem he
      · exact hseen e (List.mem_cons_of_mem _ he) hmem

/-- The ancestors of a class are all classes above it. -/
theorem ancestors_eq (ht : t.Valid) (h : Chain t c rest) : t.ancestors c = rest := by
  refine h.chainFrom_eq (fun d hd hmem => ?_) ?_
  · rw [List.mem_singleton] at hmem
    exact h.not_mem (hmem ▸ hd)
  · have hsub : rest ⊆ List.range t.scopeCount :=
      fun d hd => List.mem_range.mpr (h.lt_scopeCount ht d hd)
    have hle := (h.nodup.subperm hsub).length_le
    rwa [List.length_range] at hle

end Chain

/-! ## Fields -/

/-- The class at a scope declares the given fields, and nothing else that a name could refer to. -/
def HasFields (t : ScopeTable) (c : ScopeId) (layer : List String) : Prop :=
  t.variablesOf c = layer.map fun x => (.field, x)

theorem kind_eq_field_iff {kind : SymbolKind} : kind = .field ↔ kind.counter = .fields := by
  cases kind <;> decide

namespace HasFields

variable {layer : List String}

theorem counter_eq (h : t.HasFields c layer) : ∀ v ∈ t.variablesOf c, v.1.counter = .fields := by
  intro v hv
  rw [h] at hv
  obtain ⟨x, -, rfl⟩ := List.mem_map.mp hv
  rfl

theorem map_snd_variablesOf (h : t.HasFields c layer) : (t.variablesOf c).map (·.2) = layer := by
  rw [h, List.map_map]
  exact List.map_id layer

theorem isVariable_of_counter {kind : SymbolKind} (h : kind.counter = .fields) : kind.isVariable := by
  cases kind <;> first | rfl | cases h

theorem map_name (h : t.HasFields c layer) :
    ((t.symbolsOf c).filter (·.kind = .field)).map (·.name) = layer := by
  have hfilter := filter_isVariable_eq h.counter_eq fun _ => isVariable_of_counter
  rw [← h.map_snd_variablesOf, variablesOf, hfilter, List.map_map]
  simp only [kind_eq_field_iff]
  rfl

theorem fieldCount_eq (ht : t.Valid) (h : t.HasFields c layer) : t.fieldCount c = layer.length := by
  have hlength := ht.counters_get_eq_length h.counter_eq fun _ => isVariable_of_counter
  rw [h, List.length_map] at hlength
  exact hlength

end HasFields

variable {layer : List String} {layers : List (List String)} {x : String} {i : Nat}

theorem Chain.inheritedFieldCount_eq (ht : t.Valid) (h : Chain t c rest)
    (hlayers : List.Forall₂ t.HasFields rest layers) :
    t.inheritedFieldCount c = fieldTotal layers := by
  rw [inheritedFieldCount, h.ancestors_eq ht]
  clear h
  induction hlayers with
  | nil => rfl
  | cons hlayer _ ih => rw [List.foldr_cons, ih, hlayer.fieldCount_eq ht, fieldTotal]

/-- A field that a class declares itself comes after all fields of the classes above. -/
theorem Chain.lookupVariable_of_idxOf? (ht : t.Valid) (h : Chain t c rest)
    (hlayer : t.HasFields c layer) (hlayers : List.Forall₂ t.HasFields rest layers)
    (hi : layer.idxOf? x = some i) :
    ∃ y, t.lookupVariable c x = some y ∧ t.fieldIndex y = fieldTotal layers + i ∧
      (t.symbol y).kind.counter = .fields := by
  rw [← hlayer.map_snd_variablesOf] at hi
  obtain ⟨y, hy, hindex, hscope, hcounter⟩ := ht.lookupVariable_of_idxOf? hlayer.counter_eq
    (fun _ => HasFields.isVariable_of_counter) hi
  refine ⟨y, hy, ?_, hcounter⟩
  rw [fieldIndex, hscope, hindex, h.inheritedFieldCount_eq ht hlayers]

/-- The field that a name refers to is found in the nearest class that has it. -/
theorem Chain.findSome?_of_findField (ht : t.Valid) (h : Chain t c rest)
    (hlayers : List.Forall₂ t.HasFields (c :: rest) layers) (hi : findField layers x = some i) :
    ∃ y, (c :: rest).findSome? (t.lookupVariable · x) = some y ∧ t.fieldIndex y = i ∧
      (t.symbol y).kind.counter = .fields := by
  induction layers generalizing c rest with
  | nil => cases hlayers
  | cons layer above ih =>
    obtain ⟨hlayer, habove⟩ := List.forall₂_cons.mp hlayers
    rw [findField] at hi
    split at hi
    · next j hj =>
      obtain ⟨y, hy, hindex, hcounter⟩ := h.lookupVariable_of_idxOf? ht hlayer habove hj
      exact ⟨y, by rw [List.findSome?_cons, hy], by rw [hindex, Option.some.inj hi], hcounter⟩
    · next hj =>
      rw [← hlayer.map_snd_variablesOf] at hj
      rw [List.findSome?_cons, ht.lookupVariable_eq_none hj]
      cases h with
      | last _ =>
        obtain rfl := List.forall₂_nil_left_iff.mp habove
        cases hi
      | step _ hrest => exact ih hrest habove hi

theorem findSome?_eq_none_of_findField (ht : t.Valid) {scopes : List ScopeId}
    (hlayers : List.Forall₂ t.HasFields scopes layers) (hnone : findField layers x = none) :
    scopes.findSome? (t.lookupVariable · x) = none := by
  induction hlayers with
  | nil => rfl
  | cons hlayer _ ih =>
    rw [findField] at hnone
    split at hnone
    · cases hnone
    · next hx =>
      rw [← hlayer.map_snd_variablesOf] at hx
      rw [List.findSome?_cons, ht.lookupVariable_eq_none hx]
      exact ih hnone

/-! ## The classes of a unit -/

/-- The scope of a class says what its header says. -/
structure IsClassScope (t : ScopeTable) (s : ScopeId) (c : ClassHeader) : Prop where
  kind_eq : (t.scope s).kind = .classDef
  name_eq : (t.scope s).name = c.name
  parent_eq : (t.scope s).parent = some unitScope
  superclass_eq : (t.scope s).superclass = c.superclass
  hasFields : t.HasFields s c.fields

/-- A table knows exactly the given classes, each with a scope of its own. -/
structure HoldsClasses (t : ScopeTable) (entries : List (ScopeId × ClassHeader)) : Prop where
  classesOf_eq : t.classesOf = entries.map fun entry => (entry.2.name, some entry.1)
  nodup_scopes : (entries.map (·.1)).Nodup
  isClassScope : ∀ entry ∈ entries, t.IsClassScope entry.1 entry.2

namespace HoldsClasses

variable {entries : List (ScopeId × ClassHeader)} {a b : ClassHeader}

theorem lookupClass_eq_some_iff (ht : t.Valid) (h : t.HoldsClasses entries) :
    t.lookupClass x = some d ↔ ∃ a, (d, a) ∈ entries ∧ a.name = x := by
  rw [ht.lookupClass_eq_some_iff, h.classesOf_eq, List.mem_map]
  constructor
  · rintro ⟨⟨d', a⟩, hmem, heq⟩
    cases heq
    exact ⟨a, hmem, rfl⟩
  · rintro ⟨a, hmem, rfl⟩
    exact ⟨(d, a), hmem, rfl⟩

theorem eq_of_scope_eq (h : t.HoldsClasses entries) (ha : (d, a) ∈ entries) (hb : (d, b) ∈ entries) :
    a = b :=
  congrArg Prod.snd (List.inj_on_of_nodup_map h.nodup_scopes ha hb rfl)

theorem scope_eq_of_name_eq (ht : t.Valid) (h : t.HoldsClasses entries) (ha : (c, a) ∈ entries)
    (hb : (d, b) ∈ entries) (hname : a.name = b.name) : c = d := by
  have hc := (h.lookupClass_eq_some_iff ht).mpr ⟨a, ha, hname⟩
  have hd := (h.lookupClass_eq_some_iff ht).mpr ⟨b, hb, rfl⟩
  exact Option.some.inj (hc.symm.trans hd)

/-- A class is found by its name, also among fewer classes. -/
theorem find?_eq_some (ht : t.Valid) (h : t.HoldsClasses entries) {classes : List ClassHeader}
    (hclasses : classes ⊆ entries.map (·.2)) (ha : (d, a) ∈ entries) (hmem : a ∈ classes) :
    classes.find? (·.name = a.name) = some a := by
  have hsome : (classes.find? (·.name = a.name)).isSome :=
    List.find?_isSome.mpr ⟨a, hmem, decide_eq_true rfl⟩
  obtain ⟨b, hb⟩ := Option.isSome_iff_exists.mp hsome
  have hname : b.name = a.name := by simpa using List.find?_some hb
  obtain ⟨⟨e, b'⟩, he, rfl⟩ := List.mem_map.mp (hclasses (List.mem_of_find?_eq_some hb))
  have hscope := h.scope_eq_of_name_eq ht he ha hname
  subst hscope
  rw [hb, h.eq_of_scope_eq he ha]

/-- If no class but that of the main program can inherit from itself, nothing is on a cycle: the class of
the main program is not the one that it extends. -/
theorem acyclic (ht : t.Valid) (h : t.HoldsClasses entries)
    (hcycles : ∀ s a, (s, a) ∈ entries → t.inheritsFromItself s = false ∨
      a.name = mainClassName ∧ a.superclass = some mainSuperclassName) :
    ∀ c n, t.stepsUp (n + 1) c ≠ some c := by
  have hcases : ∀ s a n, (s, a) ∈ entries → t.stepsUp (n + 1) s = some s →
      a.name = mainClassName ∧ a.superclass = some mainSuperclassName := by
    intro s a n hmem hs
    refine (hcycles s a hmem).resolve_left fun hself => ?_
    rw [ht.inheritsFromItself_of_stepsUp hs] at hself
    cases hself
  have hup : ∀ c n, t.stepsUp (n + 1) c = some c → ∃ d a, t.stepsUp (n + 1) d = some d ∧
      (d, a) ∈ entries ∧ (t.scope c).superclass = some a.name := by
    intro c n hc
    obtain ⟨d, hd, -⟩ := Option.bind_eq_some_iff.mp hc
    obtain ⟨x, hx, hlookup⟩ := Option.bind_eq_some_iff.mp hd
    obtain ⟨a, ha, rfl⟩ := (h.lookupClass_eq_some_iff ht).mp hlookup
    exact ⟨d, a, stepsUp_superclass_self hc hd, ha, hx⟩
  intro c n hc
  obtain ⟨d, a, hd, ha, -⟩ := hup c n hc
  obtain ⟨e, b, he, hb, hname⟩ := hup d n hd
  rw [(h.isClassScope _ ha).superclass_eq, (hcases d a n ha hd).2, (hcases e b n hb he).1,
    Option.some_inj] at hname
  exact absurd hname (by decide)

end HoldsClasses

end Smalltalk.ScopeTable

namespace Smalltalk

theorem ancestry_of_find?_eq_some {classes : List ClassHeader} {x : String} {c : ClassHeader}
    (h : classes.find? (·.name = x) = some c) :
    ancestry classes (some x) = c :: ancestry (without classes x) c.superclass := by
  rw [ancestry]
  split
  · next hnone =>
    rw [hnone] at h
    cases h
  · next hsome =>
    rw [hsome] at h
    cases h
    rfl

theorem ancestry_of_find?_eq_none {classes : List ClassHeader} {x : String}
    (h : classes.find? (·.name = x) = none) : ancestry classes (some x) = [] := by
  rw [ancestry]
  split
  · rfl
  · next hsome =>
    rw [hsome] at h
    cases h

end Smalltalk

namespace Smalltalk.ScopeTable

variable {t : ScopeTable} {c d : ScopeId} {rest : List ScopeId}
  {entries : List (ScopeId × ClassHeader)} {a : ClassHeader}

/-- A class above another one has another name. -/
theorem HoldsClasses.mem_without (ht : t.Valid) (h : t.HoldsClasses entries)
    (hchain : Chain t c rest) (ha : (c, a) ∈ entries) {classes : List ClassHeader} {b : ClassHeader}
    (hb : (d, b) ∈ entries) (hd : d ∈ rest) (hmem : b ∈ classes) : b ∈ without classes a.name := by
  have hne : b.name ≠ a.name := by
    intro hname
    have hdc : d = c := h.scope_eq_of_name_eq ht hb ha hname
    exact hchain.not_mem (hdc ▸ hd)
  exact List.mem_filter.mpr ⟨hmem, by simpa using hne⟩

/-- The chain above a class is the ancestry of its header. Classes that do not occur in the chain
may be missing. -/
theorem HoldsClasses.forall₂_ancestry (ht : t.Valid) (h : t.HoldsClasses entries)
    (hchain : Chain t c rest) {classes : List ClassHeader} (hclasses : classes ⊆ entries.map (·.2))
    (ha : (c, a) ∈ entries) (hrest : ∀ entry ∈ entries, entry.1 ∈ rest → entry.2 ∈ classes) :
    List.Forall₂ (fun s b => (s, b) ∈ entries) rest (ancestry classes a.superclass) := by
  induction hchain generalizing classes a with
  | @last c hnone =>
    rw [superclassScope, (h.isClassScope _ ha).superclass_eq] at hnone
    cases hx : a.superclass with
    | none =>
      rw [ancestry]
      exact .nil
    | some x =>
      rw [hx, Option.bind_some] at hnone
      rw [ancestry_of_find?_eq_none]
      · exact .nil
      · rw [List.find?_eq_none]
        intro b hb hname
        obtain ⟨⟨d, b'⟩, hd, rfl⟩ := List.mem_map.mp (hclasses hb)
        have hlookup := (h.lookupClass_eq_some_iff ht (x := x)).mpr ⟨b', hd, by simpa using hname⟩
        rw [hnone] at hlookup
        cases hlookup
  | @step c d rest hsome hchain ih =>
    rw [superclassScope, (h.isClassScope _ ha).superclass_eq] at hsome
    obtain ⟨x, hx, hlookup⟩ := Option.bind_eq_some_iff.mp hsome
    obtain ⟨b, hb, rfl⟩ := (h.lookupClass_eq_some_iff ht).mp hlookup
    have hmem := hrest _ hb List.mem_cons_self
    rw [hx, ancestry_of_find?_eq_some (h.find?_eq_some ht hclasses hb hmem)]
    refine .cons hb (ih (fun e he => hclasses (List.mem_of_mem_filter he)) hb ?_)
    rintro ⟨e, b'⟩ he hin
    exact h.mem_without ht hchain hb he hin (hrest _ he (List.mem_cons_of_mem _ hin))

/-- The fields of a class and of those above it are the layers of its header. -/
theorem HoldsClasses.forall₂_layers (ht : t.Valid) (h : t.HoldsClasses entries)
    (hchain : Chain t c rest) (ha : (c, a) ∈ entries) :
    List.Forall₂ t.HasFields (c :: rest) (a.layers (entries.map (·.2))) := by
  rw [ClassHeader.layers, List.map_cons]
  refine .cons (h.isClassScope _ ha).hasFields ?_
  rw [List.forall₂_map_right_iff]
  have hsub : without (entries.map (·.2)) a.name ⊆ entries.map (·.2) :=
    fun _ hb => List.mem_of_mem_filter hb
  have hother : ∀ entry ∈ entries, entry.1 ∈ rest →
      entry.2 ∈ without (entries.map (·.2)) a.name := by
    rintro ⟨e, b⟩ he hin
    exact h.mem_without ht hchain ha he hin (List.mem_map_of_mem he)
  exact (h.forall₂_ancestry ht hchain hsub ha hother).imp fun _ _ hb => (h.isClassScope _ hb).hasFields

end Smalltalk.ScopeTable
