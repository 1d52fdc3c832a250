import Mathlib
import Smalltalk.Compiler.Binding
import Smalltalk.Proofs.Inheritance

/-!
# Names in nested scopes

The scopes of a method and of the blocks in it mirror the surroundings that a direct translation
carries along: each scope adds a frame and a name. So looking up a name in the table finds what the
surroundings say that it refers to.
-/

namespace Smalltalk.ScopeTable

variable {t : ScopeTable} {s owner p : ScopeId} {x : String}

theorem Valid.outward_of_parent (ht : t.Valid) (h : (t.scope s).parent = some p) :
    t.outward s = s :: t.outward p := by
  rw [outward, h]
  simp only
  rw [if_pos (ht.parent_lt s p h)]

theorem outward_of_root (h : (t.scope s).parent = none) : t.outward s = [s] := by
  rw [outward, h]

/-! ## Frames -/

/-- A method or block declares the given arguments and locals. -/
def HasSlots (t : ScopeTable) (s : ScopeId) (params locals : List String) : Prop :=
  t.variablesOf s = params.map (fun x => (.argument, x)) ++ locals.map fun x => (.localVar, x)

namespace HasSlots

variable {params locals : List String}

theorem counter_eq (h : t.HasSlots s params locals) : ∀ v ∈ t.variablesOf s, v.1.counter = .slots := by
  intro v hv
  rw [h, List.mem_append] at hv
  rcases hv with hv | hv <;> obtain ⟨x, -, rfl⟩ := List.mem_map.mp hv <;> rfl

theorem isVariable_of_counter {kind : SymbolKind} (h : kind.counter = .slots) : kind.isVariable := by
  cases kind <;> first | rfl | cases h

theorem map_snd_variablesOf (h : t.HasSlots s params locals) :
    (t.variablesOf s).map (·.2) = params ++ locals := by
  rw [h, List.map_append, List.map_map, List.map_map]
  exact congrArg₂ _ (List.map_id params) (List.map_id locals)

/-- A frame has no more variables than a counter can number. -/
theorem length_le (ht : t.Valid) (h : t.HasSlots s params locals) :
    (params ++ locals).length ≤ counterLimit := by
  have hlength := ht.counters_get_eq_length h.counter_eq fun _ => isVariable_of_counter
  rw [← h.map_snd_variablesOf, List.length_map, ← hlength]
  exact ht.counted s .slots

end HasSlots

theorem countOf_eq_length (t : ScopeTable) (s : ScopeId) (kind : SymbolKind) :
    t.countOf s kind = ((t.symbolsOf s).filter (·.kind = kind)).length := by
  have hfold : ∀ (ids : List SymbolId) (n : Nat),
      ids.foldl (fun n i => if (t.symbol i).kind = kind then n + 1 else n) n
        = n + ((ids.map t.symbol).filter (·.kind = kind)).length := by
    intro ids
    induction ids with
    | nil => simp
    | cons i ids ih =>
      intro n
      rw [List.foldl_cons, ih, List.map_cons, List.filter_cons]
      by_cases hi : (t.symbol i).kind = kind
      · simp only [hi, if_pos, decide_true, List.length_cons]
        omega
      · simp [hi]
  rw [countOf, ← Array.foldl_toList, hfold, Nat.zero_add]
  rfl

/-- Variables of one kind can be counted among all variables. -/
theorem countOf_eq_count (t : ScopeTable) (s : ScopeId) {kind : SymbolKind} (hkind : kind.isVariable) :
    t.countOf s kind = ((t.variablesOf s).filter (·.1 = kind)).length := by
  rw [countOf_eq_length, variablesOf, List.filter_map, List.length_map, List.filter_filter]
  congr 1
  apply List.filter_congr
  intro y _
  by_cases hy : y.kind = kind <;> simp [hy, hkind]

theorem HasSlots.frameSize_eq {params locals : List String} (h : t.HasSlots s params locals) :
    t.frameSize s = (params.length, locals.length) := by
  have hcount : ∀ kind kind' : SymbolKind, ∀ names : List String,
      ((names.map fun x => (kind', x)).filter fun v => decide (v.1 = kind)).length
        = if kind' = kind then names.length else 0 := by
    intro kind kind' names
    rw [List.filter_map, List.length_map]
    by_cases hkind : kind' = kind
    · simp [hkind, Function.comp_def]
    · simp [hkind, Function.comp_def]
  rw [frameSize, countOf_eq_count t s rfl, countOf_eq_count t s rfl, h]
  simp only [List.filter_append, List.length_append, hcount]
  simp

section OneScope

variable {params locals : List String} (ht : t.Valid) (hslots : t.HasSlots s params locals)
  (hkind : (t.scope s).kind = .method ∨ (t.scope s).kind = .block)

include ht hslots hkind

/-- A search ends in the first method or block that declares the name. -/
theorem resolveAlong_of_idxOf? {i : Nat} (hi : (params ++ locals).idxOf? x = some i) (depth : UInt16)
    (rest : List ScopeId) :
    ∃ y, t.resolveAlong x depth (s :: rest) = some (y, depth) ∧ (t.symbol y).index = i ∧
      i < counterLimit ∧ (t.symbol y).kind.counter = .slots := by
  have hlt : i < counterLimit :=
    (List.idxOf?_eq_some_iff.mp hi).1.trans_le (hslots.length_le ht)
  rw [← hslots.map_snd_variablesOf] at hi
  obtain ⟨y, hy, hindex, -, hcounter⟩ := ht.lookupVariable_of_idxOf? hslots.counter_eq
    (fun _ => HasSlots.isVariable_of_counter) hi
  refine ⟨y, ?_, hindex, hlt, hcounter⟩
  rcases hkind with hkind | hkind <;> rw [resolveAlong, hkind] <;> simp only [hy]

/-- A search goes on outside a method or block that does not declare the name. -/
theorem resolveAlong_of_idxOf?_eq_none (hi : (params ++ locals).idxOf? x = none) (depth : UInt16)
    (rest : List ScopeId) :
    t.resolveAlong x depth (s :: rest) = t.resolveAlong x (depth + 1) rest := by
  rw [← hslots.map_snd_variablesOf] at hi
  have hnone := ht.lookupVariable_eq_none hi
  rcases hkind with hkind | hkind <;> rw [resolveAlong, hkind] <;> simp only [hnone]

end OneScope

/-! ## Scopes and surroundings -/

/-- The scope of a method of the class at `owner`, or of a block in it, has the given surroundings. -/
inductive Stands (t : ScopeTable) (owner : ScopeId) : ScopeId → Surroundings → Prop where
  | method {s : ScopeId} {around : Surroundings} {params locals : List String} :
    (t.scope s).kind = .method → (t.scope s).parent = some owner → t.HasSlots s params locals →
    around.frames = [params ++ locals] → around.method = (t.scope s).name →
    around.path = [(t.scope owner).name, (t.scope s).name] → Stands t owner s around
  | block {s outer : ScopeId} {around : Surroundings} {k : Nat} {params locals : List String} :
    (t.scope s).kind = .block → (t.scope s).parent = some outer → t.HasSlots s params locals →
    (t.scope s).name = around.blockName k → Stands t owner outer around →
    Stands t owner s (around.enter k (params ++ locals))

namespace Stands

variable {around : Surroundings}

/-- The qualified name of a scope joins the names of the path. -/
theorem qualifiedName_eq (ht : t.Valid) (hkind : (t.scope owner).kind = .classDef)
    (howner : (t.scope owner).parent = some unitScope) (hunit : (t.scope unitScope).kind = .unit)
    (h : Stands t owner s around) : t.qualifiedName s = String.intercalate ">>" around.path := by
  have hpath : (((t.outward s).takeWhile fun s => (t.scope s).kind ≠ .unit).map
      fun s => (t.scope s).name).reverse = around.path := by
    induction h with
    | @method s around params locals hmethod hparent _ _ _ hpath =>
      have hsecond : t.outward s = s :: owner :: t.outward unitScope := by
        rw [ht.outward_of_parent hparent, ht.outward_of_parent howner]
      have hthird : ∃ rest, t.outward unitScope = unitScope :: rest := by
        rw [outward]
        split
        · split <;> exact ⟨_, rfl⟩
        · exact ⟨_, rfl⟩
      obtain ⟨rest, hrest⟩ := hthird
      rw [hsecond, hrest, hpath]
      simp [hmethod, hkind, hunit]
    | @block s outer around k params locals hblock hparent _ hname _ ih =>
      rw [ht.outward_of_parent hparent, List.takeWhile_cons, hblock]
      simp only [ne_eq, reduceCtorEq, not_false_eq_true, decide_true, if_true, List.map_cons,
        List.reverse_cons, hname]
      exact congrArg (· ++ [around.blockName k]) ih
  exact congrArg (String.intercalate ">>") hpath

/-- A variable of the bodies around is found in the nearest frame that has it. -/
theorem resolveAlong_of_findSlot (ht : t.Valid) (h : Stands t owner s around) {n i : Nat}
    (hfind : findSlot around.frames x = some (n, i)) (depth : UInt16) :
    ∃ y, t.resolveAlong x depth (t.outward s) = some (y, depth + UInt16.ofNat n) ∧
      (t.symbol y).index = i ∧ i < counterLimit ∧ (t.symbol y).kind.counter = .slots := by
  induction h generalizing n depth with
  | @method s around params locals hmethod hparent hslots hframes _ _ =>
    rw [hframes, findSlot] at hfind
    rw [ht.outward_of_parent hparent]
    split at hfind
    · next j hj =>
      cases hfind
      rw [show depth + UInt16.ofNat 0 = depth from UInt16.add_zero depth]
      exact resolveAlong_of_idxOf? ht hslots (.inl hmethod) hj depth _
    · cases hfind
  | @block s outer around k params locals hblock hparent hslots _ _ ih =>
    rw [show (around.enter k (params ++ locals)).frames = (params ++ locals) :: around.frames from rfl,
      findSlot] at hfind
    rw [ht.outward_of_parent hparent]
    split at hfind
    · next j hj =>
      cases hfind
      rw [show depth + UInt16.ofNat 0 = depth from UInt16.add_zero depth]
      exact resolveAlong_of_idxOf? ht hslots (.inr hblock) hj depth _
    · next hj =>
      obtain ⟨⟨m, j⟩, hm, heq⟩ := Option.map_eq_some_iff.mp hfind
      cases heq
      rw [resolveAlong_of_idxOf?_eq_none ht hslots (.inr hblock) hj]
      have hdepth : depth + UInt16.ofNat (m + 1) = depth + 1 + UInt16.ofNat m := by
        rw [UInt16.ofNat_add, UInt16.add_assoc, UInt16.add_comm (UInt16.ofNat m)]
        rfl
      rw [hdepth]
      exact ih hm (depth + 1)

/-- What the bodies around do not declare is searched among the fields. -/
theorem resolveAlong_of_findSlot_eq_none (ht : t.Valid) (hkind : (t.scope owner).kind = .classDef)
    (howner : (t.scope owner).parent = some unitScope) (h : Stands t owner s around)
    (hfind : findSlot around.frames x = none) (depth : UInt16) :
    ∃ depth', t.resolveAlong x depth (t.outward s)
      = (t.lookupField owner x).map fun y => (y, depth') := by
  induction h generalizing depth with
  | @method s around params locals hmethod hparent hslots hframes _ _ =>
    rw [hframes, findSlot] at hfind
    split at hfind
    · cases hfind
    · next hj =>
      refine ⟨depth + 1, ?_⟩
      rw [ht.outward_of_parent hparent, resolveAlong_of_idxOf?_eq_none ht hslots (.inl hmethod) hj,
        ht.outward_of_parent howner, resolveAlong, hkind]
  | @block s outer around k params locals hblock hparent hslots _ _ ih =>
    rw [show (around.enter k (params ++ locals)).frames = (params ++ locals) :: around.frames from rfl,
      findSlot] at hfind
    split at hfind
    · cases hfind
    · next hj =>
      rw [Option.map_eq_none_iff] at hfind
      rw [ht.outward_of_parent hparent, resolveAlong_of_idxOf?_eq_none ht hslots (.inr hblock) hj]
      exact ih hfind (depth + 1)

end Stands

/-! ## Bindings -/

theorem findSlot_lt {frames : List (List String)} {n i : Nat} (h : findSlot frames x = some (n, i)) :
    n < frames.length := by
  induction frames generalizing n with
  | nil => cases h
  | cons frame frames ih =>
    rw [findSlot] at h
    split at h
    · cases h
      exact Nat.zero_lt_succ _
    · obtain ⟨⟨m, j⟩, hm, heq⟩ := Option.map_eq_some_iff.mp h
      cases heq
      exact Nat.succ_lt_succ (ih hm)

/-- A binding and a reference mean the same variable. -/
def Denotes (t : ScopeTable) : Binding → Reference → Prop
  | .slot y depth, .slot n i => depth.toNat = n ∧ (t.symbol y).index = i ∧ i < counterLimit
  | .field y, .field i => t.fieldIndex y = i
  | .global, .global => True
  | _, _ => False

/-- What a name is bound to is what it refers to in the surroundings of its scope. -/
theorem Stands.denotes_bindingOf (ht : t.Valid) {rest : List ScopeId} {around : Surroundings}
    (hkind : (t.scope owner).kind = .classDef) (howner : (t.scope owner).parent = some unitScope)
    (hchain : Chain t owner rest)
    (hlayers : List.Forall₂ t.HasFields (owner :: rest) around.layers)
    (hframes : around.frames.length ≤ counterLimit + 1) (h : Stands t owner s around) (x : String) :
    t.Denotes (t.bindingOf s x) (around.refer x) := by
  unfold bindingOf resolve Surroundings.refer
  cases hfind : findSlot around.frames x with
  | some found =>
    obtain ⟨n, i⟩ := found
    obtain ⟨y, hy, hindex, hlt, hcounter⟩ := h.resolveAlong_of_findSlot ht hfind 0
    have hfield : (t.symbol y).kind ≠ .field := by
      rw [Ne, kind_eq_field_iff, hcounter]
      decide
    have hn : n < 65536 := (findSlot_lt hfind).trans_le hframes
    rw [hy]
    simp only [if_neg hfield]
    refine ⟨?_, hindex, hlt⟩
    rw [UInt16.zero_add]
    exact UInt16.toNat_ofNat_of_lt' hn
  | none =>
    obtain ⟨depth, hresolve⟩ := h.resolveAlong_of_findSlot_eq_none ht hkind howner hfind 0
    rw [hresolve, lookupField, hchain.ancestors_eq ht]
    cases hfield : findField around.layers x with
    | some i =>
      obtain ⟨y, hy, hindex, hcounter⟩ := hchain.findSome?_of_findField ht hlayers hfield
      rw [hy]
      simp only [Option.map_some, if_pos (kind_eq_field_iff.mpr hcounter)]
      exact hindex
    | none =>
      rw [findSome?_eq_none_of_findField ht hlayers hfield]
      exact trivial

end Smalltalk.ScopeTable
