import Mathlib
import Smalltalk.Proofs.TableCalls

/-!
# The nearest variable

A name is searched from the inside out, through the methods and blocks around its use and then among the fields of
the class, and each method or block that is left counts as one activation. Here the search is first described as a
loop that follows the scopes outward and counts in 16 bits (`Searches`). If there are not too many methods and
blocks around a scope, the loop ends without an overflow, and it finds the variable that is declared nearest, with
the exact number of activations between.
-/

namespace Smalltalk.ScopeTable

variable {t : ScopeTable} {s p b c : ScopeId} {x : String} {i j : SymbolId} {frames scopes : List ScopeId}
  {depth d : UInt16} {result : Option (SymbolId × UInt16)}

/-! ## Scopes around a scope -/

/-- Whether a scope is that of a method or a block. -/
def IsFrame (t : ScopeTable) (s : ScopeId) : Prop := (t.scope s).kind = .method ∨ (t.scope s).kind = .block

/-- The methods and blocks around a scope, itself included, from the inside out, and the scope around all of
them. -/
inductive LeadsOut (t : ScopeTable) : ScopeId → List ScopeId → ScopeId → Prop where
  | out {s : ScopeId} : ¬ t.IsFrame s → LeadsOut t s [] s
  | frame {s p c : ScopeId} {frames : List ScopeId} :
    t.IsFrame s → (t.scope s).parent = some p → LeadsOut t p frames c → LeadsOut t s (s :: frames) c

/-- Only the scope of a unit has none around it. -/
def Rooted (t : ScopeTable) : Prop := ∀ s, (t.scope s).parent = none → (t.scope s).kind = .unit

/-- There are only so many methods and blocks around a scope, and a class or a unit around them. -/
theorem Valid.exists_leadsOut (ht : t.Valid) (hroot : t.Rooted) (s : ScopeId) :
    ∃ frames c, t.LeadsOut s frames c := by
  induction s using Nat.strong_induction_on with
  | _ s ih =>
    by_cases hframe : t.IsFrame s
    · cases hparent : (t.scope s).parent with
      | none => rcases hframe with h | h <;> rw [hroot s hparent] at h <;> cases h
      | some p =>
        obtain ⟨frames, c, h⟩ := ih p (ht.parent_lt s p hparent)
        exact ⟨s :: frames, c, .frame hframe hparent h⟩
    · exact ⟨[], s, .out hframe⟩

/-- What is not the scope of a method or block is that of a class or a unit. -/
theorem kind_of_not_isFrame (h : ¬ t.IsFrame s) : (t.scope s).kind = .classDef ∨ (t.scope s).kind = .unit := by
  unfold IsFrame at h
  cases hkind : (t.scope s).kind with
  | method => exact absurd (.inl hkind) h
  | block => exact absurd (.inr hkind) h
  | classDef => exact .inl rfl
  | unit => exact .inr rfl

/-! ## The search as a loop -/

/-- The search that goes on with the scope `next`, `depth` activations out. It does not go further out than 16 bits
can count. -/
inductive Searches (t : ScopeTable) (x : String) :
    UInt16 → Option ScopeId → Option (SymbolId × UInt16) → Prop where
  | top {depth : UInt16} : Searches t x depth none none
  | found {depth : UInt16} {s : ScopeId} {i : SymbolId} :
    t.IsFrame s → t.lookupVariable s x = some i → Searches t x depth (some s) (some (i, depth))
  | outward {depth : UInt16} {s : ScopeId} {result : Option (SymbolId × UInt16)} :
    t.IsFrame s → t.lookupVariable s x = none → depth.toNat + 1 < UInt16.size →
    Searches t x (depth + 1) (t.scope s).parent result → Searches t x depth (some s) result
  | inClass {depth : UInt16} {s : ScopeId} :
    (t.scope s).kind = .classDef → Searches t x depth (some s) ((t.lookupField s x).map fun i => (i, depth))
  | inUnit {depth : UInt16} {s : ScopeId} : (t.scope s).kind = .unit → Searches t x depth (some s) none

theorem exists_outward_eq_cons (t : ScopeTable) (s : ScopeId) : ∃ rest, t.outward s = s :: rest := by
  rw [outward]
  split
  · split <;> exact ⟨_, rfl⟩
  · exact ⟨_, rfl⟩

section OneFrame

variable (hframe : t.IsFrame s) (depth : UInt16) (rest : List ScopeId)

include hframe

theorem resolveAlong_of_lookup_some (h : t.lookupVariable s x = some i) :
    t.resolveAlong x depth (s :: rest) = some (i, depth) := by
  rcases hframe with hkind | hkind <;> rw [resolveAlong, hkind] <;> simp only [h]

theorem resolveAlong_of_lookup_none (h : t.lookupVariable s x = none) :
    t.resolveAlong x depth (s :: rest) = t.resolveAlong x (depth + 1) rest := by
  rcases hframe with hkind | hkind <;> rw [resolveAlong, hkind] <;> simp only [h]

end OneFrame

/-- The list of the scopes around a scope is searched as the loop does it, as long as 16 bits can count them. -/
theorem LeadsOut.searches (ht : t.Valid) (h : t.LeadsOut s frames c) (x : String)
    (hroom : depth.toNat + frames.length < UInt16.size) :
    Searches t x depth (some s) (t.resolveAlong x depth (t.outward s)) := by
  induction h generalizing depth with
  | @out s hs =>
    obtain ⟨rest, hrest⟩ := t.exists_outward_eq_cons s
    rw [hrest, resolveAlong]
    rcases kind_of_not_isFrame hs with hkind | hkind <;> rw [hkind]
    · exact .inClass hkind
    · exact .inUnit hkind
  | @frame s p c frames hframe hparent _ ih =>
    rw [List.length_cons] at hroom
    have hnext : depth.toNat + 1 < UInt16.size := by omega
    have hdepth : (depth + 1).toNat = depth.toNat + 1 := Nat.mod_eq_of_lt hnext
    rw [ht.outward_of_parent hparent]
    cases hlookup : t.lookupVariable s x with
    | some i =>
      rw [resolveAlong_of_lookup_some hframe depth _ hlookup]
      exact .found hframe hlookup
    | none =>
      rw [resolveAlong_of_lookup_none hframe depth _ hlookup]
      refine .outward hframe hlookup hnext ?_
      rw [hparent]
      exact ih (by omega)

/-! ## Declarations -/

/-- A scope itself declares a variable. -/
structure DeclaresVariable (t : ScopeTable) (s : ScopeId) (x : String) (i : SymbolId) : Prop where
  exists_symbol : i < t.symbols.size
  scope_eq : (t.symbol i).scope = s
  name_eq : (t.symbol i).name = x
  kind_mem : (t.symbol i).kind ∈ [SymbolKind.argument, .localVar, .field]

/-- Of several scopes, the one at place `n` is the first to declare a variable of a given name. -/
def FirstDeclares (t : ScopeTable) (scopes : List ScopeId) (x : String) (n : Nat) (i : SymbolId) : Prop :=
  (∃ s, scopes[n]? = some s ∧ t.DeclaresVariable s x i) ∧
    ∀ m < n, ∀ s, scopes[m]? = some s → ∀ j, ¬ t.DeclaresVariable s x j

/-- None of several scopes declares a variable of a given name. -/
def NoneDeclares (t : ScopeTable) (scopes : List ScopeId) (x : String) : Prop :=
  ∀ s ∈ scopes, ∀ i, ¬ t.DeclaresVariable s x i

theorem isVariable_iff (kind : SymbolKind) :
    kind.isVariable = true ↔ kind ∈ [SymbolKind.argument, .localVar, .field] := by
  cases kind <;> decide

theorem noneDeclares_cons :
    t.NoneDeclares (s :: scopes) x ↔ (∀ j, ¬ t.DeclaresVariable s x j) ∧ t.NoneDeclares scopes x :=
  List.forall_mem_cons

theorem not_firstDeclares_nil (n : Nat) : ¬ t.FirstDeclares [] x n i := fun h => by
  obtain ⟨⟨s, hs, -⟩, -⟩ := h
  cases hs

theorem firstDeclares_zero : t.FirstDeclares (s :: scopes) x 0 i ↔ t.DeclaresVariable s x i := by
  constructor
  · rintro ⟨⟨s', hs', hdeclares⟩, -⟩
    cases hs'
    exact hdeclares
  · exact fun h => ⟨⟨s, rfl, h⟩, fun m hm => absurd hm (Nat.not_lt_zero m)⟩

theorem firstDeclares_succ {n : Nat} : t.FirstDeclares (s :: scopes) x (n + 1) i ↔
    (∀ j, ¬ t.DeclaresVariable s x j) ∧ t.FirstDeclares scopes x n i := by
  constructor
  · rintro ⟨hfound, hbefore⟩
    exact ⟨hbefore 0 (Nat.zero_lt_succ n) s rfl, hfound, fun m hm => hbefore (m + 1) (Nat.succ_lt_succ hm)⟩
  · rintro ⟨hs, hfound, hbefore⟩
    refine ⟨hfound, fun m hm => ?_⟩
    cases m with
    | zero => exact fun s' hs' => Option.some.inj hs' ▸ hs
    | succ m => exact hbefore m (Nat.lt_of_succ_lt_succ hm)

/-- Where the first scope declares the name, no later place counts. -/
theorem firstDeclares_of_declares (h : t.DeclaresVariable s x j) {n : Nat} :
    t.FirstDeclares (s :: scopes) x n i ↔ n = 0 ∧ t.DeclaresVariable s x i := by
  cases n with
  | zero => rw [firstDeclares_zero, and_iff_right rfl]
  | succ n =>
    rw [firstDeclares_succ]
    exact iff_of_false (fun hfirst => hfirst.1 j h) fun hn => Nat.succ_ne_zero n hn.1

section Listed

variable (ht : t.Valid) (hlisted : t.Listed)

include ht hlisted

/-- Looking up a variable in a scope finds what the scope declares, and no classes, methods or blocks. -/
theorem Valid.lookupVariable_iff : t.lookupVariable s x = some i ↔ t.DeclaresVariable s x i := by
  rw [ht.lookupVariable_eq_some_iff, hlisted.mem_iff, isVariable_iff]
  exact ⟨fun h => ⟨h.1.1, h.1.2, h.2.1, h.2.2⟩, fun h => ⟨⟨h.1, h.2⟩, h.3, h.4⟩⟩

theorem Valid.lookupVariable_none_iff : t.lookupVariable s x = none ↔ ∀ i, ¬ t.DeclaresVariable s x i := by
  rw [Option.eq_none_iff_forall_ne_some]
  exact forall_congr' fun i => not_congr (ht.lookupVariable_iff hlisted)

/-- A scope declares no two variables of one name. -/
theorem Valid.declaresVariable_unique (hi : t.DeclaresVariable s x i) (hj : t.DeclaresVariable s x j) : i = j := by
  rw [← ht.lookupVariable_iff hlisted] at hi hj
  exact Option.some.inj (hi.symm.trans hj)

/-- Searching scopes one after the other finds the first declaration. -/
theorem Valid.findSome?_lookupVariable_iff (scopes : List ScopeId) :
    (scopes.findSome? fun s => t.lookupVariable s x) = some i ↔ ∃ n, t.FirstDeclares scopes x n i := by
  induction scopes with
  | nil => exact iff_of_false (by simp) fun hfirst => hfirst.elim not_firstDeclares_nil
  | cons s scopes ih =>
    rw [List.findSome?_cons]
    cases hlookup : t.lookupVariable s x with
    | some k =>
      have hk := (ht.lookupVariable_iff hlisted).mp hlookup
      simp only [firstDeclares_of_declares hk, exists_eq_left, Option.some.injEq]
      exact ⟨fun h => h ▸ hk, fun h => ht.declaresVariable_unique hlisted hk h⟩
    | none =>
      have hnone := (ht.lookupVariable_none_iff hlisted).mp hlookup
      rw [ih]
      constructor
      · rintro ⟨n, hn⟩
        exact ⟨n + 1, firstDeclares_succ.mpr ⟨hnone, hn⟩⟩
      · rintro ⟨n, hn⟩
        cases n with
        | zero => exact absurd (firstDeclares_zero.mp hn) (hnone i)
        | succ n => exact ⟨n, (firstDeclares_succ.mp hn).2⟩

theorem Valid.findSome?_lookupVariable_none_iff (scopes : List ScopeId) :
    (scopes.findSome? fun s => t.lookupVariable s x) = none ↔ t.NoneDeclares scopes x := by
  rw [List.findSome?_eq_none_iff]
  exact forall₂_congr fun s _ => ht.lookupVariable_none_iff hlisted

/-! ## What a search finds -/

/-- A variable is the nearest one of its name: the first that the methods and blocks declare, or else the first
that the class around them declares or inherits. `depth` counts the methods and blocks before it. -/
def IsNearest (t : ScopeTable) (frames : List ScopeId) (c : ScopeId) (x : String) (i : SymbolId) (depth : Nat) :
    Prop :=
  t.FirstDeclares frames x depth i ∨
    t.NoneDeclares frames x ∧ depth = frames.length ∧ (t.scope c).kind = .classDef ∧
      ∃ n, t.FirstDeclares (c :: t.ancestors c) x n i

omit ht hlisted in
/-- Below a method or block that does not declare the name, everything is one activation further out. -/
theorem isNearest_cons (hs : ∀ j, ¬ t.DeclaresVariable s x j) {n : Nat} :
    t.IsNearest (s :: frames) c x i n ↔ ∃ m, n = m + 1 ∧ t.IsNearest frames c x i m := by
  unfold IsNearest
  rw [noneDeclares_cons, and_iff_right hs, List.length_cons]
  cases n with
  | zero =>
    rw [firstDeclares_zero, or_iff_right (hs i)]
    constructor
    · rintro ⟨-, hlength, -⟩
      cases hlength
    · rintro ⟨m, hm, -⟩
      cases hm
  | succ n =>
    rw [firstDeclares_succ, and_iff_right hs, Nat.succ_inj]
    constructor
    · exact fun h => ⟨n, rfl, h⟩
    · rintro ⟨m, hm, h⟩
      exact Nat.succ.inj hm ▸ h

/-- What a search finds is the nearest variable, and how far out it is. -/
theorem Searches.eq_some_iff (hout : t.LeadsOut s frames c) (h : Searches t x depth (some s) result) :
    result = some (i, d) ↔ ∃ n, d.toNat = depth.toNat + n ∧ t.IsNearest frames c x i n := by
  induction hout generalizing depth with
  | @out s hs =>
    cases h with
    | found hframe _ => exact absurd hframe hs
    | outward hframe _ _ _ => exact absurd hframe hs
    | inUnit hkind =>
      refine iff_of_false (by simp) ?_
      rintro ⟨n, -, hfirst | ⟨-, -, hclass, -⟩⟩
      · exact not_firstDeclares_nil n hfirst
      · rw [hkind] at hclass
        cases hclass
    | inClass hkind =>
      have hfield := ht.findSome?_lookupVariable_iff hlisted (x := x) (i := i) (s :: t.ancestors s)
      rw [Option.map_eq_some_iff]
      constructor
      · rintro ⟨j, hj, heq⟩
        cases heq
        exact ⟨0, rfl, .inr ⟨fun _ hs => absurd hs List.not_mem_nil, rfl, hkind, hfield.mp hj⟩⟩
      · rintro ⟨n, hn, hfirst | ⟨-, rfl, -, hfirst⟩⟩
        · exact absurd hfirst (not_firstDeclares_nil n)
        · exact ⟨i, hfield.mpr hfirst, by rw [UInt16.toNat_inj.mp hn]⟩
  | @frame s p c frames hframe hparent _ ih =>
    cases h with
    | inClass hkind => rcases hframe with hframe | hframe <;> rw [hkind] at hframe <;> cases hframe
    | inUnit hkind => rcases hframe with hframe | hframe <;> rw [hkind] at hframe <;> cases hframe
    | @found _ _ k _ hlookup =>
      have hk := (ht.lookupVariable_iff hlisted).mp hlookup
      have hnone : ¬ t.NoneDeclares (s :: frames) x := fun hnone => (noneDeclares_cons.mp hnone).1 k hk
      simp only [IsNearest, firstDeclares_of_declares hk, hnone, false_and, or_false]
      constructor
      · intro heq
        cases heq
        exact ⟨0, rfl, rfl, hk⟩
      · rintro ⟨n, hn, rfl, hi⟩
        rw [ht.declaresVariable_unique hlisted hk hi, UInt16.toNat_inj.mp hn.symm]
    | outward _ hlookup hnext hrest =>
      rw [hparent] at hrest
      have hnone := (ht.lookupVariable_none_iff hlisted).mp hlookup
      have hdepth : (depth + 1).toNat = depth.toNat + 1 := Nat.mod_eq_of_lt hnext
      rw [ih hrest]
      simp only [isNearest_cons hnone, hdepth]
      constructor
      · rintro ⟨n, hn, h⟩
        exact ⟨n + 1, by omega, n, rfl, h⟩
      · rintro ⟨_, hn, m, rfl, h⟩
        exact ⟨m, by omega, h⟩

theorem Searches.eq_none_iff (hout : t.LeadsOut s frames c) (h : Searches t x depth (some s) result) :
    result = none ↔ t.NoneDeclares frames x ∧
      ((t.scope c).kind = .classDef → t.NoneDeclares (c :: t.ancestors c) x) := by
  induction hout generalizing depth with
  | @out s hs =>
    have hnil : t.NoneDeclares [] x := fun _ hs => absurd hs List.not_mem_nil
    rw [and_iff_right hnil]
    cases h with
    | found hframe _ => exact absurd hframe hs
    | outward hframe _ _ _ => exact absurd hframe hs
    | inUnit hkind => exact iff_of_true rfl fun hclass => by rw [hkind] at hclass; cases hclass
    | inClass hkind =>
      rw [Option.map_eq_none_iff, forall_prop_of_true hkind]
      exact ht.findSome?_lookupVariable_none_iff hlisted (s :: t.ancestors s)
  | @frame s p c frames hframe hparent _ ih =>
    rw [noneDeclares_cons]
    cases h with
    | inClass hkind => rcases hframe with hframe | hframe <;> rw [hkind] at hframe <;> cases hframe
    | inUnit hkind => rcases hframe with hframe | hframe <;> rw [hkind] at hframe <;> cases hframe
    | @found _ _ k _ hlookup =>
      exact iff_of_false (by simp) fun hnone => hnone.1.1 k ((ht.lookupVariable_iff hlisted).mp hlookup)
    | outward _ hlookup _ hrest =>
      rw [hparent] at hrest
      rw [ih hrest, and_iff_right ((ht.lookupVariable_none_iff hlisted).mp hlookup)]

end Listed

/-- A name is resolved as it should be in a scope with the given methods and blocks around it, and `c` around
these. -/
structure ResolvesNearest (t : ScopeTable) (s : ScopeId) (frames : List ScopeId) (c : ScopeId) (x : String) :
    Prop where
  /-- The loop ends, and the depth is never counted beyond 16 bits. -/
  searches : Searches t x 0 (some s) (t.resolve s x)
  /-- It finds the nearest variable, with the number of activations out to it. -/
  eq_some_iff : ∀ i d, t.resolve s x = some (i, d) ↔ t.IsNearest frames c x i d.toNat
  /-- It finds nothing only if there is nothing to find. -/
  eq_none_iff : t.resolve s x = none ↔ t.NoneDeclares frames x ∧
    ((t.scope c).kind = .classDef → t.NoneDeclares (c :: t.ancestors c) x)
  /-- It finds no class, and nothing else but variables. -/
  kind_mem : ∀ i d, t.resolve s x = some (i, d) → (t.symbol i).kind ∈ [SymbolKind.argument, .localVar, .field]

theorem Valid.resolvesNearest (ht : t.Valid) (hlisted : t.Listed) (hout : t.LeadsOut s frames c)
    (hroom : frames.length ≤ counterLimit) (x : String) : t.ResolvesNearest s frames c x := by
  have hsearches : Searches t x 0 (some s) (t.resolve s x) :=
    hout.searches ht x (by rw [UInt16.toNat_zero, Nat.zero_add]; exact Nat.lt_succ_of_le hroom)
  have hsome : ∀ i d, t.resolve s x = some (i, d) ↔ t.IsNearest frames c x i d.toNat := fun i d => by
    simp [hsearches.eq_some_iff ht hlisted hout]
  refine ⟨hsearches, hsome, hsearches.eq_none_iff ht hlisted hout, fun i d h => ?_⟩
  rcases (hsome i d).mp h with hfirst | ⟨-, -, -, n, hfirst⟩
  · obtain ⟨⟨b, -, hdeclares⟩, -⟩ := hfirst
    exact hdeclares.kind_mem
  · obtain ⟨⟨b, -, hdeclares⟩, -⟩ := hfirst
    exact hdeclares.kind_mem

end Smalltalk.ScopeTable

/-! ## Tables that calls make -/

namespace Smalltalk.TableCall

open ScopeTable

variable {t : ScopeTable}

/-- No call takes away the scope around a scope. -/
theorem rooted_apply (ht : t.Rooted) (call : TableCall) : (call.apply t).2.Rooted := by
  have hmodify : ∀ {id : ScopeId} {f : Scope → Scope}, (∀ s, (f s).parent = s.parent) →
      (∀ s, (f s).kind = s.kind) → (t.modifyScope id f).Rooted := fun hparent hkind s => by
    rw [t.scope_field_modifyScope Scope.parent fun _ => hparent _,
      t.scope_field_modifyScope Scope.kind fun _ => hkind _]
    exact ht s
  cases call with
  | push kind name parent span =>
    intro s
    show ((t.push _).scope s).parent = none → ((t.push _).scope s).kind = .unit
    rw [scope_push]
    split
    · intro hnone
      cases hnone
    · exact ht s
  | setSuperclass id name => exact hmodify (fun _ => rfl) fun _ => rfl
  | setClassSide id classSide => exact hmodify (fun _ => rfl) fun _ => rfl
  | declare id kind name defines =>
    simp only [TableCall.apply, ScopeTable.declare]
    split
    · exact ht
    · split
      · exact ht
      · exact hmodify (fun _ => rfl) fun _ => rfl
  | setNestedBlocks id count => exact ht
  | nextBlockIndex method =>
    simp only [TableCall.apply, ScopeTable.nextBlockIndex]
    split
    · exact ht
    · exact hmodify (fun _ => rfl) fun _ => rfl

theorem rooted_run (calls : List TableCall) : (run .empty calls).2.Rooted := by
  suffices hrun : ∀ t, t.Rooted → (run t calls).2.Rooted by
    refine hrun .empty fun s _ => ?_
    rw [scope_eq]
    cases s <;> rfl
  induction calls with
  | nil => exact fun t ht => ht
  | cons call calls ih => exact fun t ht => ih _ (rooted_apply ht call)

/-- A name is resolved to the nearest variable. In every table that calls can make, going outward from a scope
passes some methods and blocks and comes to a class or a unit. Unless 16 bits cannot count these methods and
blocks, searching a name from the scope ends without an overflow. It finds the variable that the nearest of them
declares, and how many are before that one; or, if none does, the variable that the class declares or else the
nearest of its ancestors, and how many methods and blocks there are; and nothing exactly if there is none of
these. What it finds is an argument, a local or a field, and never a class. -/
theorem resolvesNearest_of_run {calls : List TableCall} (h : AllAllowed .empty calls) (s : ScopeId) (x : String) :
    (∃ frames c, (run .empty calls).2.LeadsOut s frames c) ∧
      ∀ frames c, (run .empty calls).2.LeadsOut s frames c → frames.length ≤ counterLimit →
        (run .empty calls).2.ResolvesNearest s frames c x := by
  obtain ⟨hvalid, hlisted⟩ := valid_listed_run h
  exact ⟨hvalid.exists_leadsOut (rooted_run calls) s,
    fun frames c hout hroom => hvalid.resolvesNearest hlisted hout hroom x⟩

/-- A block inside a block of a method, in a class on a circle of two. An argument of the method is found although
the inner block has a class of that name; so is a field of the other class on the circle, but not a class. -/
theorem resolvesNearest_of_run_circle : ∃ calls, AllAllowed .empty calls ∧
    (run .empty calls).2.LeadsOut 5 [5, 4, 3] 1 ∧
    (∀ x ∈ ["n", "g", "B"], (run .empty calls).2.ResolvesNearest 5 [5, 4, 3] 1 x) ∧
    (run .empty calls).2.resolve 5 "n" = some (4, 2) ∧ (run .empty calls).2.resolve 5 "g" = some (2, 3) ∧
    (run .empty calls).2.resolve 5 "B" = none := by
  have hallowed : AllAllowed .empty [
      push .classDef "A" 0 {}, setSuperclass 1 (some "B"), declare 0 .classDef ⟨"A", {}⟩ (some 1),
      push .classDef "B" 0 {}, setSuperclass 2 (some "A"), declare 0 .classDef ⟨"B", {}⟩ (some 2),
      declare 2 .field ⟨"g", {}⟩ none, push .method "run:" 1 {}, declare 1 .method ⟨"run:", {}⟩ (some 3),
      declare 3 .argument ⟨"n", {}⟩ none, push .block "run:-block0" 3 {}, push .block "run:-block1" 4 {},
      declare 5 .classDef ⟨"n", {}⟩ (some 1)] := by
    decide +kernel
  refine ⟨_, hallowed, ?out, fun x _ => (resolvesNearest_of_run hallowed 5 x).2 _ _ ?out (by decide),
    by decide +kernel, by decide +kernel, by decide +kernel⟩
  exact .frame (.inr (by decide +kernel)) (by decide +kernel) <|
    .frame (.inr (by decide +kernel)) (by decide +kernel) <|
    .frame (.inl (by decide +kernel)) (by decide +kernel) <| .out (by unfold IsFrame; decide +kernel)

end Smalltalk.TableCall
