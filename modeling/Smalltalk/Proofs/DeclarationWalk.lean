import Mathlib
import Smalltalk.Proofs.UnitReports

/-!
# The walk through the declarations of a unit

A unit is walked through once, from its first class to its main program. The walk comes to one site after
the other: a name that is declared, or a block that is met. All that is kept on the way is a registry of
the names that have been accepted, each with the place that it belongs to, and of the blocks that have
been numbered. What is reported at a site depends on the registry alone, and what is refused leaves no
trace in it.

So the reports about a unit are one list over its sites. The parts of a unit do not get in each other's
way: as far as a single class, method or block is concerned, the registry of the whole unit holds what
this part has registered, and nothing else.
-/

namespace Smalltalk

open Registration

/-! ## Sites -/

/-- A method of a unit. -/
structure MethodKey where
  /-- The number of its class. -/
  owner : Nat
  /-- Its own number in the class. -/
  index : Nat
  deriving DecidableEq

/-- What a name belongs to. -/
inductive Home where
  /-- The unit. -/
  | unit
  /-- A class, by its number. -/
  | ofClass (c : Nat)
  /-- A method. -/
  | ofMethod (m : MethodKey)
  /-- The block of a method before which `k` others begin. -/
  | ofBlock (m : MethodKey) (k : Nat)
  deriving DecidableEq

namespace Home

/-- The method that a home is or is in. -/
def method? : Home → Option MethodKey
  | unit | ofClass _ => none
  | ofMethod m | ofBlock m _ => some m

/-- The number of the class that a home is or is in. -/
def class? : Home → Option Nat
  | unit => none
  | ofClass c => some c
  | ofMethod m | ofBlock m _ => some m.owner

theorem class?_of_method? {home : Home} {m : MethodKey} (h : home.method? = some m) :
    home.class? = some m.owner := by
  cases home with
  | unit | ofClass => cases h
  | ofMethod | ofBlock =>
    cases h
    rfl

end Home

/-- Where the walk through a unit may find something wrong. -/
inductive DeclarationSite where
  /-- A name is declared in a home that messages call `place`. -/
  | name (home : Home) (place : String) (new : Registration) (span : Span)
  /-- A block of a method is met in the code of `home`; before it, `k` others begin. -/
  | block (home : Home) (m : MethodKey) (k : Nat) (span : Span)

namespace DeclarationSite

/-- What a site is in. -/
def home : DeclarationSite → Home
  | name home _ _ _ | block home _ _ _ => home

/-- What something can be registered for at a site: a block is numbered for its method. -/
def target : DeclarationSite → Home
  | name home _ _ _ => home
  | block _ m _ _ => .ofMethod m

end DeclarationSite

/-- Several names that are declared in one home. -/
def nameSites (home : Home) (place : String) (news : List (Registration × Span)) : List DeclarationSite :=
  news.map fun new => .name home place new.1 new.2

namespace Expr

section Sites

variable (m : MethodKey) (method : String)

mutual

/-- The sites of an expression of a method, in the order of the walk. The expression is in the code of
`home`, the names around it are `path`, and `k` blocks of the method begin before it. -/
def sites (home : Home) (path : List String) (k : Nat) : Expr → List DeclarationSite
  | atom _ _ | name _ _ => []
  | array _ items => sitesOfAll home path k items
  | block info params locals statements _ =>
    .block home m k info.span
      :: nameSites (.ofBlock m k) (String.intercalate ">>" (path ++ [nameOfBlock method k]))
          (slotRegistrations params locals)
      ++ sitesOfAll (.ofBlock m k) (path ++ [nameOfBlock method k]) (k + 1) statements
  | send _ receiver _ arguments =>
    receiver.sites home path k ++ sitesOfAll home path (k + receiver.blockCount) arguments
  | superSend _ _ arguments => sitesOfAll home path k arguments
  | assign _ target value =>
    target.sites home path k ++ value.sites home path (k + target.blockCount)
  | ret _ value => value.sites home path k

/-- The sites of several expressions. -/
def sitesOfAll (home : Home) (path : List String) (k : Nat) : List Expr → List DeclarationSite
  | [] => []
  | e :: es => e.sites home path k ++ sitesOfAll home path (k + e.blockCount) es

end

end Sites

theorem sites_eq_children {m : MethodKey} {method : String} {home : Home} {path : List String} {k : Nat}
    {e : Expr} (he : e.isBlock = false) :
    e.sites m method home path k = sitesOfAll m method home path k e.children := by
  cases e with
  | block info params locals statements close => cases he
  | atom | name | array | send | superSend | assign | ret => simp [sites, sitesOfAll, children]

end Expr

/-- The sites of a method: its selector, its variables, and those of its statements. -/
def MethodDef.sites (owner : String) (key : MethodKey) (m : MethodDef) : List DeclarationSite :=
  .name (.ofClass key.owner) owner m.registration.1 m.registration.2
    :: nameSites (.ofMethod key) (String.intercalate ">>" [owner, m.selector.name])
        (slotRegistrations m.params m.body.locals)
    ++ Expr.sitesOfAll key m.selector.name (.ofMethod key) [owner, m.selector.name] 0 m.body.statements

/-- The sites of the methods of a class, which are numbered from `i` on. -/
def sitesOfMethods (owner : String) (c : Nat) : Nat → List MethodDef → List DeclarationSite
  | _, [] => []
  | i, m :: ms => m.sites owner ⟨c, i⟩ ++ sitesOfMethods owner c (i + 1) ms

/-- The sites of a class: its name, its fields, and those of its methods. -/
def ClassDef.sites (c : Nat) (d : ClassDef) : List DeclarationSite :=
  .name .unit "global scope" d.registration.1 d.registration.2
    :: nameSites (.ofClass c) d.name.name d.fieldRegistrations
    ++ sitesOfMethods d.name.name c 0 d.methods

/-- The sites of classes, which are numbered from `c` on. -/
def sitesOfClasses : Nat → List ClassDef → List DeclarationSite
  | _, [] => []
  | c, d :: ds => d.sites c ++ sitesOfClasses (c + 1) ds

/-- The sites of a unit, in the order of the walk; those of a main program are the last. -/
def SourceUnit.sites (u : SourceUnit) : List DeclarationSite := sitesOfClasses 0 u.declaredClasses

/-! ## The registry -/

/-- The values that a list of entries has for a key, in their order. -/
def valuesAt {α β : Type} [DecidableEq α] (key : α) (entries : List (α × β)) : List β :=
  (entries.filter (·.1 = key)).map (·.2)

theorem valuesAt_append_singleton {α β : Type} [DecidableEq α] (key : α) (entries : List (α × β))
    (new : α × β) :
    valuesAt key (entries ++ [new])
      = if new.1 = key then valuesAt key entries ++ [new.2] else valuesAt key entries := by
  rw [valuesAt, List.filter_append, List.map_append]
  split
  · next h => simp [valuesAt, h]
  · next h => simp [valuesAt, h]

/-- What has been accepted so far. -/
structure Registry where
  /-- The names that have been registered, each with its home. -/
  names : List (Home × Registration) := []
  /-- The blocks that have been numbered, each with its method. -/
  blocks : List (MethodKey × Nat) := []

namespace Registry

/-- The names that have been registered in a home. -/
def registeredAt (r : Registry) (home : Home) : List Registration := valuesAt home r.names

/-- The blocks of a method that have been numbered. -/
def numberedIn (r : Registry) (m : MethodKey) : List Nat := valuesAt m r.blocks

/-- Whether the walk goes into a home: it stays outside of blocks that have no number. -/
def reaches (r : Registry) : Home → Bool
  | .ofBlock m k => k ∈ r.numberedIn m
  | _ => true

theorem reaches_ofBlock_iff {r : Registry} {m : MethodKey} {k : Nat} :
    r.reaches (.ofBlock m k) = true ↔ k ∈ r.numberedIn m := decide_eq_true_iff

end Registry

/-- What is wrong at a site. Nothing is wrong where the walk does not come to. A name must not clash with a
registered one of the same home, and there must be room for it on its counter there; and there must be
room for a block among those of its method. -/
def DeclarationSite.complaints (r : Registry) (s : DeclarationSite) : List Diagnostic :=
  if r.reaches s.home then
    match s with
    | name home place new span => new.complaints place (r.registeredAt home) span
    | block _ m _ span =>
      if counterLimit ≤ (r.numberedIn m).length then [.limitExceeded (.counted .blocks) span] else []
  else []

namespace Registry

/-- What a site adds to the registry if nothing is wrong there. -/
def add (r : Registry) : DeclarationSite → Registry
  | .name home _ new _ => { r with names := r.names ++ [(home, new)] }
  | .block _ m k _ => { r with blocks := r.blocks ++ [(m, k)] }

/-- The registry after a site. What is refused, or not even come to, is not registered. -/
def after (r : Registry) (s : DeclarationSite) : Registry :=
  if r.reaches s.home then if s.complaints r = [] then r.add s else r else r

/-- The registry after several sites. -/
def afterAll (r : Registry) (ss : List DeclarationSite) : Registry := ss.foldl after r

theorem afterAll_append (r : Registry) (ss ss' : List DeclarationSite) :
    r.afterAll (ss ++ ss') = (r.afterAll ss).afterAll ss' := List.foldl_append

end Registry

/-- What is wrong at several sites that the walk comes to one after the other. -/
def reportsAt : Registry → List DeclarationSite → List Diagnostic
  | _, [] => []
  | r, s :: ss => s.complaints r ++ reportsAt (r.after s) ss

theorem reportsAt_append (r : Registry) (ss ss' : List DeclarationSite) :
    reportsAt r (ss ++ ss') = reportsAt r ss ++ reportsAt (r.afterAll ss) ss' := by
  induction ss generalizing r with
  | nil => rfl
  | cons s ss ih =>
    rw [List.cons_append, reportsAt, reportsAt, ih, List.append_assoc]
    rfl

/-! ## What a walk changes -/

namespace Registry

variable {r : Registry} {s : DeclarationSite} {ss : List DeclarationSite}

/-- Only a name that is declared in a home changes what is registered there. -/
theorem registeredAt_after (r : Registry) {home : Home}
    (hs : ∀ place new span, s ≠ .name home place new span) :
    (r.after s).registeredAt home = r.registeredAt home := by
  have hadd : (r.add s).registeredAt home = r.registeredAt home := by
    cases s with
    | block => rfl
    | name home' place new span =>
      have hne : home' ≠ home := fun h => hs place new span (by rw [h])
      rw [registeredAt, add, valuesAt_append_singleton, if_neg hne, registeredAt]
  unfold after
  split
  · split
    · exact hadd
    · rfl
  · rfl

/-- Only a block of a method changes which blocks of the method have numbers. -/
theorem numberedIn_after (r : Registry) {m : MethodKey} (hs : ∀ home k span, s ≠ .block home m k span) :
    (r.after s).numberedIn m = r.numberedIn m := by
  have hadd : (r.add s).numberedIn m = r.numberedIn m := by
    cases s with
    | name => rfl
    | block home m' k span =>
      have hne : m' ≠ m := fun h => hs home k span (by rw [h])
      rw [numberedIn, add, valuesAt_append_singleton, if_neg hne, numberedIn]
  unfold after
  split
  · split
    · exact hadd
    · rfl
  · rfl

theorem registeredAt_afterAll (r : Registry) {home : Home}
    (hss : ∀ s ∈ ss, ∀ place new span, s ≠ .name home place new span) :
    (r.afterAll ss).registeredAt home = r.registeredAt home := by
  induction ss generalizing r with
  | nil => rfl
  | cons s ss ih =>
    obtain ⟨hs, hss⟩ := List.forall_mem_cons.mp hss
    exact (ih (r.after s) hss).trans (r.registeredAt_after hs)

theorem numberedIn_afterAll (r : Registry) {m : MethodKey}
    (hss : ∀ s ∈ ss, ∀ home k span, s ≠ .block home m k span) :
    (r.afterAll ss).numberedIn m = r.numberedIn m := by
  induction ss generalizing r with
  | nil => rfl
  | cons s ss ih =>
    obtain ⟨hs, hss⟩ := List.forall_mem_cons.mp hss
    exact (ih (r.after s) hss).trans (r.numberedIn_after hs)

/-- Nothing happens at sites that the walk does not come to. -/
theorem skips (hss : ∀ s ∈ ss, r.reaches s.home = false) : reportsAt r ss = [] ∧ r.afterAll ss = r := by
  induction ss with
  | nil => exact ⟨rfl, rfl⟩
  | cons s ss ih =>
    obtain ⟨hs, hss⟩ := List.forall_mem_cons.mp hss
    have hafter : r.after s = r := by rw [after, hs, if_neg Bool.false_ne_true]
    obtain ⟨hreports, hrest⟩ := ih hss
    refine ⟨?_, ?_⟩
    · rw [reportsAt, hafter, hreports, DeclarationSite.complaints.eq_def, hs, if_neg Bool.false_ne_true]
      rfl
    · show (r.after s).afterAll ss = r
      rw [hafter, hrest]

/-- A declared name is complained about, or registered. -/
theorem register_eq (place : String) (old : List Registration) (new : Registration) (span : Span) :
    register old new = if new.complaints place old span = [] then old ++ [new] else old := by
  unfold register complaints
  split_ifs <;> simp_all

theorem registeredAt_after_name {home : Home} (hreach : r.reaches home = true) (place : String)
    (new : Registration) (span : Span) :
    (r.after (.name home place new span)).registeredAt home = register (r.registeredAt home) new := by
  have hcomplaints : (DeclarationSite.name home place new span).complaints r
      = new.complaints place (r.registeredAt home) span := if_pos hreach
  rw [after, DeclarationSite.home, if_pos hreach, hcomplaints, register_eq place _ _ span]
  split
  · rw [registeredAt, add, valuesAt_append_singleton, if_pos rfl]
    rfl
  · rfl

/-- What names that are declared in one home leave behind. -/
structure Fills (home : Home) (news : List (Registration × Span)) (r r' : Registry) : Prop where
  registeredAt_self : r'.registeredAt home = registerAll (r.registeredAt home) news
  registeredAt_other : ∀ home' ≠ home, r'.registeredAt home' = r.registeredAt home'
  numberedIn_eq : ∀ m, r'.numberedIn m = r.numberedIn m

theorem Fills.reaches_eq {home home' : Home} {news : List (Registration × Span)} {r' : Registry}
    (h : Fills home news r r') : r'.reaches home' = r.reaches home' := by
  cases home' with
  | unit | ofClass | ofMethod => rfl
  | ofBlock m k => rw [reaches, reaches, h.numberedIn_eq]

theorem fills_nameSites {home : Home} (hreach : r.reaches home = true) (place : String)
    (news : List (Registration × Span)) :
    Fills home news r (r.afterAll (nameSites home place news)) := by
  have hsites : ∀ s ∈ nameSites home place news, ∃ new span, s = .name home place new span := by
    intro s hs
    obtain ⟨new, -, rfl⟩ := List.mem_map.mp hs
    exact ⟨new.1, new.2, rfl⟩
  refine ⟨?_, fun home' hne => ?_, fun m => ?_⟩
  · clear hsites
    induction news generalizing r with
    | nil => rfl
    | cons new news ih =>
      have hreach' : (r.after (.name home place new.1 new.2)).reaches home = true := by
        cases home with
        | unit | ofClass | ofMethod => rfl
        | ofBlock m k =>
          rw [reaches, numberedIn_after r fun _ _ _ => DeclarationSite.noConfusion]
          exact hreach
      refine (ih hreach').trans ?_
      rw [registeredAt_after_name hreach]
      rfl
  · refine r.registeredAt_afterAll fun s hs place' new' span' heq => ?_
    obtain ⟨new, span, rfl⟩ := hsites s hs
    cases heq
    exact hne rfl
  · refine r.numberedIn_afterAll fun s hs home' k span' heq => ?_
    obtain ⟨new, span, rfl⟩ := hsites s hs
    cases heq

theorem reportsAt_nameSites {home : Home} (hreach : r.reaches home = true) (place : String)
    (news : List (Registration × Span)) :
    reportsAt r (nameSites home place news) = complaintsOfAll place (r.registeredAt home) news := by
  induction news generalizing r with
  | nil => rfl
  | cons new news ih =>
    have hfirst := fills_nameSites hreach place [new]
    have hrest := ih (r := r.after (.name home place new.1 new.2)) (hfirst.reaches_eq.trans hreach)
    have hcomplaints : (DeclarationSite.name home place new.1 new.2).complaints r
        = new.1.complaints place (r.registeredAt home) new.2 := if_pos hreach
    rw [registeredAt_after_name hreach] at hrest
    rw [complaintsOfAll, ← hcomplaints, ← hrest]
    rfl

end Registry

/-! ## Bodies -/

/-- A site belongs to expressions with `n` blocks, before which `k` others of the method begin: it is in the
body that the expressions are in, or in one of their blocks. -/
structure DeclarationSite.IsWithin (m : MethodKey) (home : Home) (k n : Nat) (s : DeclarationSite) : Prop where
  target_eq : s.target.method? = some m
  home_cases : s.home = home ∨ ∃ j, k ≤ j ∧ j < k + n ∧ s.home = .ofBlock m j

theorem DeclarationSite.IsWithin.mono {m : MethodKey} {home : Home} {k k' n n' : Nat} {s : DeclarationSite}
    (h : s.IsWithin m home k n) (hk : k' ≤ k) (hn : k + n ≤ k' + n') : s.IsWithin m home k' n' := by
  refine ⟨h.target_eq, ?_⟩
  rcases h.home_cases with hhome | ⟨j, hle, hlt, hhome⟩
  · exact .inl hhome
  · exact .inr ⟨j, hk.trans hle, hlt.trans_le hn, hhome⟩

namespace Expr

open Registry

variable {m : MethodKey} {method : String} {home : Home} {path : List String} {k : Nat} {r : Registry}

theorem isWithin_sitesOfAll {es : List Expr}
    (h : ∀ e ∈ es, ∀ home path k, ∀ s ∈ e.sites m method home path k, s.IsWithin m home k e.blockCount) :
    ∀ s ∈ sitesOfAll m method home path k es, s.IsWithin m home k (blockCountOfAll es) := by
  induction es generalizing k with
  | nil => exact fun s hs => absurd hs (by simp [sitesOfAll])
  | cons e es ih =>
    obtain ⟨he, hes⟩ := List.forall_mem_cons.mp h
    rw [sitesOfAll, blockCountOfAll, List.forall_mem_append]
    exact ⟨fun s hs => (he home path k s hs).mono le_rfl (by omega),
      fun s hs => (ih hes s hs).mono (by omega) (by omega)⟩

theorem isWithin_sites (e : Expr) : ∀ home path k,
    ∀ s ∈ e.sites m method home path k, s.IsWithin m home k e.blockCount := by
  induction e using children_induction with
  | block info params locals statements close ih =>
    intro home path k
    have hinner : ∀ s : DeclarationSite, s.IsWithin m (.ofBlock m k) (k + 1) (blockCountOfAll statements) →
        s.IsWithin m home k (1 + blockCountOfAll statements) := by
      intro s hs
      refine ⟨hs.target_eq, .inr ?_⟩
      rcases hs.home_cases with hhome | ⟨j, hle, hlt, hhome⟩
      · exact ⟨k, le_rfl, by omega, hhome⟩
      · exact ⟨j, by omega, by omega, hhome⟩
    rw [sites, blockCount, List.cons_append, List.forall_mem_cons, List.forall_mem_append]
    refine ⟨⟨rfl, .inl rfl⟩, fun s hs => ?_, fun s hs => hinner s (isWithin_sitesOfAll ih s hs)⟩
    obtain ⟨new, -, rfl⟩ := List.mem_map.mp hs
    exact hinner _ ⟨rfl, .inl rfl⟩
  | other e he ih =>
    intro home path k
    rw [sites_eq_children he, blockCount_eq_children he]
    exact isWithin_sitesOfAll ih

end Expr

namespace Registry

/-- The walk is in a body of a method, before the block number `k`. -/
structure InBody (m : MethodKey) (home : Home) (k : Nat) (r : Registry) : Prop where
  reaches_home : r.reaches home = true
  numberedIn_eq : r.numberedIn m = List.range (min counterLimit k)
  registeredAt_eq : ∀ j, k ≤ j → r.registeredAt (.ofBlock m j) = []

namespace InBody

variable {m : MethodKey} {home : Home} {k n : Nat} {r r' : Registry} {ss : List DeclarationSite}

/-- Blocks that are still to come are not reached yet. -/
theorem reaches_ofBlock (h : r.InBody m home k) {j : Nat} (hj : min counterLimit k ≤ j) :
    r.reaches (.ofBlock m j) = false := by
  rw [Bool.eq_false_iff, ne_eq, reaches_ofBlock_iff, h.numberedIn_eq, List.mem_range, Nat.not_lt]
  exact hj

theorem home_ne (h : r.InBody m home k) {j : Nat} (hj : k ≤ j) : home ≠ .ofBlock m j := by
  rintro rfl
  have hfalse := h.reaches_ofBlock (j := j) (by omega)
  rw [h.reaches_home] at hfalse
  cases hfalse

/-- After the sites of some expressions, the walk is in the same body. -/
theorem afterAll (h : r.InBody m home k) (hss : ∀ s ∈ ss, s.IsWithin m home k n)
    (hnumbered : (r.afterAll ss).numberedIn m = List.range (min counterLimit (k + n))) :
    (r.afterAll ss).InBody m home (k + n) := by
  refine ⟨?_, hnumbered, fun j hj => ?_⟩
  · cases hhome : home with
    | unit | ofClass | ofMethod => rfl
    | ofBlock m' j =>
      have hreach := h.reaches_home
      rw [hhome, reaches_ofBlock_iff] at hreach
      rw [reaches_ofBlock_iff]
      by_cases hm : m' = m
      · subst hm
        rw [h.numberedIn_eq, List.mem_range] at hreach
        rw [hnumbered, List.mem_range]
        omega
      · rwa [r.numberedIn_afterAll]
        rintro s hs home' k' span rfl
        exact hm (Option.some.inj (hss _ hs).target_eq)
  · refine (r.registeredAt_afterAll ?_).trans (h.registeredAt_eq j (by omega))
    rintro s hs place new span rfl
    rcases (hss _ hs).home_cases with hhome | ⟨i, -, hlt, hhome⟩
    · exact h.home_ne (j := j) (by omega) hhome.symm
    · cases hhome
      omega

/-- The walk does not go into a block for which there is no number. -/
theorem unnumbered (h : r.InBody m home k) (hk : counterLimit ≤ k) (span : Span)
    (hss : ∀ s ∈ ss, s.IsWithin m (.ofBlock m k) (k + 1) n) :
    reportsAt r (.block home m k span :: ss) = [.limitExceeded (.counted .blocks) span] ∧
      (r.afterAll (.block home m k span :: ss)).numberedIn m = r.numberedIn m := by
  have hlength : (r.numberedIn m).length = counterLimit := by
    rw [h.numberedIn_eq, List.length_range, Nat.min_eq_left hk]
  have hcomplaints : (DeclarationSite.block home m k span).complaints r =
      [.limitExceeded (.counted .blocks) span] :=
    (if_pos h.reaches_home).trans (if_pos hlength.ge)
  have hafter : r.after (.block home m k span) = r := by
    rw [after, hcomplaints, if_neg (List.cons_ne_nil _ _), ite_self]
  have hunreached : ∀ s ∈ ss, r.reaches s.home = false := by
    intro s hs
    rcases (hss s hs).home_cases with hhome | ⟨j, hle, -, hhome⟩
    · rw [hhome]
      exact h.reaches_ofBlock (by omega)
    · rw [hhome]
      exact h.reaches_ofBlock (by omega)
  obtain ⟨hreports, hrest⟩ := skips hunreached
  refine ⟨?_, ?_⟩
  · rw [reportsAt, hafter, hcomplaints, hreports]
    rfl
  · show ((r.after _).afterAll ss).numberedIn m = _
    rw [hafter, hrest]

/-- The next block gets the next number, if there is one. -/
theorem numbered (h : r.InBody m home k) (hk : k < counterLimit) (span : Span) :
    (DeclarationSite.block home m k span).complaints r = [] ∧
      (r.after (.block home m k span)).numberedIn m = List.range (k + 1) ∧
      ∀ j, k ≤ j → (r.after (.block home m k span)).registeredAt (.ofBlock m j) = [] := by
  have hnumbered : r.numberedIn m = List.range k := by
    rw [h.numberedIn_eq, Nat.min_eq_right (Nat.le_of_lt hk)]
  have hroom : ¬ counterLimit ≤ (r.numberedIn m).length := by
    rw [hnumbered, List.length_range]
    exact Nat.not_le_of_lt hk
  have hcomplaints : (DeclarationSite.block home m k span).complaints r = [] :=
    (if_pos h.reaches_home).trans (if_neg hroom)
  have hafter : r.after (.block home m k span) = r.add (.block home m k span) := by
    rw [after, DeclarationSite.home, if_pos h.reaches_home, if_pos hcomplaints]
  refine ⟨hcomplaints, ?_, fun j hj => ?_⟩
  · rw [hafter, numberedIn, add, valuesAt_append_singleton, if_pos rfl, List.range_succ, ← hnumbered]
    rfl
  · rw [hafter]
    exact h.registeredAt_eq j hj

end InBody

end Registry

namespace Expr

open Registry

variable {m : MethodKey} {method : String} {home : Home} {path : List String} {k : Nat} {r : Registry}

/-- The sites of expressions report what is wrong with the declarations in them, and blocks get numbers as
long as there are any. -/
structure Follows (m : MethodKey) (method : String) (home : Home) (path : List String) (k : Nat)
    (es : List Expr) (r : Registry) : Prop where
  reportsAt_eq : reportsAt r (sitesOfAll m method home path k es) = declarationErrorsOfAll method path k es
  numberedIn_eq : (r.afterAll (sitesOfAll m method home path k es)).numberedIn m
    = List.range (min counterLimit (k + blockCountOfAll es))

theorem follows_all {es : List Expr}
    (h : ∀ e ∈ es, ∀ home path k r, InBody m home k r → Follows m method home path k [e] r)
    (hr : InBody m home k r) : Follows m method home path k es r := by
  induction es generalizing k r with
  | nil =>
    refine ⟨by simp [sitesOfAll, declarationErrorsOfAll, reportsAt], ?_⟩
    rw [sitesOfAll, blockCountOfAll]
    exact hr.numberedIn_eq
  | cons e es ih =>
    obtain ⟨he, hes⟩ := List.forall_mem_cons.mp h
    have hsingle : sitesOfAll m method home path k [e] = e.sites m method home path k := by
      rw [sitesOfAll, sitesOfAll, List.append_nil]
    obtain ⟨hreports, hnumbered⟩ := he home path k r hr
    rw [hsingle] at hreports hnumbered
    rw [blockCountOfAll, blockCountOfAll, Nat.add_zero] at hnumbered
    rw [declarationErrorsOfAll, declarationErrorsOfAll, List.append_nil] at hreports
    have hrest := ih hes (hr.afterAll (e.isWithin_sites home path k) hnumbered)
    refine ⟨?_, ?_⟩
    · rw [sitesOfAll, reportsAt_append, declarationErrorsOfAll, hreports, hrest.reportsAt_eq]
    · rw [sitesOfAll, afterAll_append, hrest.numberedIn_eq, blockCountOfAll, Nat.add_assoc]

theorem follows_block {info : NodeInfo} {params locals : List Ident} {statements : List Expr} {close : Span}
    (h : ∀ e ∈ statements, ∀ home path k r, InBody m home k r → Follows m method home path k [e] r)
    (hr : InBody m home k r) :
    Follows m method home path k [.block info params locals statements close] r := by
  generalize hnames : nameSites (.ofBlock m k) (String.intercalate ">>" (path ++ [nameOfBlock method k]))
    (slotRegistrations params locals) = names
  generalize hinner : sitesOfAll m method (.ofBlock m k) (path ++ [nameOfBlock method k]) (k + 1) statements
    = inner
  have hsites : sitesOfAll m method home path k [.block info params locals statements close]
      = .block home m k info.span :: (names ++ inner) := by
    rw [sitesOfAll, sitesOfAll, List.append_nil, sites, hnames, hinner, List.cons_append]
  have hcount : blockCountOfAll [Expr.block info params locals statements close]
      = 1 + blockCountOfAll statements := by
    rw [blockCountOfAll, blockCount, blockCountOfAll, Nat.add_zero]
  have hwithin : ∀ s ∈ names ++ inner, s.IsWithin m (.ofBlock m k) (k + 1) (blockCountOfAll statements) := by
    rw [List.forall_mem_append, ← hnames, ← hinner]
    refine ⟨fun s hs => ?_, isWithin_sitesOfAll fun e _ => e.isWithin_sites⟩
    obtain ⟨new, -, rfl⟩ := List.mem_map.mp hs
    exact ⟨rfl, .inl rfl⟩
  by_cases hk : counterLimit ≤ k
  · obtain ⟨hreports, hnumbered⟩ := hr.unnumbered hk info.span hwithin
    refine ⟨?_, ?_⟩
    · rw [hsites, hreports, declarationErrorsOfAll, declarationErrorsOfAll, declarationErrors, if_pos hk]
      rfl
    · rw [hsites, hnumbered, hr.numberedIn_eq, Nat.min_eq_left hk, Nat.min_eq_left (by omega)]
  · obtain ⟨hcomplaints, hnumbered, hregistered⟩ := hr.numbered (Nat.lt_of_not_le hk) info.span
    have hreach : (r.after (.block home m k info.span)).reaches (.ofBlock m k) = true := by
      rw [reaches_ofBlock_iff, hnumbered, List.mem_range]
      exact Nat.lt_succ_self k
    have hfills := fills_nameSites hreach (String.intercalate ">>" (path ++ [nameOfBlock method k]))
      (slotRegistrations params locals)
    have hreports := reportsAt_nameSites hreach (String.intercalate ">>" (path ++ [nameOfBlock method k]))
      (slotRegistrations params locals)
    rw [hnames] at hfills hreports
    have hbody : InBody m (.ofBlock m k) (k + 1)
        ((r.after (.block home m k info.span)).afterAll names) := by
      refine ⟨hfills.reaches_eq.trans hreach, ?_, fun j hj => ?_⟩
      · rw [hfills.numberedIn_eq, hnumbered, Nat.min_eq_right (by omega)]
      · rw [hfills.registeredAt_other _ (by rintro ⟨⟩; omega), hregistered j (by omega)]
    rw [hregistered k le_rfl] at hreports
    obtain ⟨hreports', hnumbered'⟩ : Follows m method (.ofBlock m k) (path ++ [nameOfBlock method k]) (k + 1)
      statements ((r.after (.block home m k info.span)).afterAll names) := follows_all h hbody
    rw [hinner] at hreports' hnumbered'
    refine ⟨?_, ?_⟩
    · rw [hsites, reportsAt, hcomplaints, reportsAt_append, hreports, hreports', declarationErrorsOfAll,
        declarationErrorsOfAll, declarationErrors, if_neg hk, List.append_nil, List.nil_append]
    · rw [hsites, hcount, ← Nat.add_assoc, ← hnumbered', ← afterAll_append]
      rfl

/-- The sites of an expression report what is wrong with the declarations in it. -/
theorem follows (e : Expr) : ∀ home path k r, InBody m home k r → Follows m method home path k [e] r := by
  induction e using children_induction with
  | block info params locals statements close ih => exact fun home path k r hr => follows_block ih hr
  | other e he ih =>
    intro home path k r hr
    obtain ⟨hreports, hnumbered⟩ := follows_all ih hr
    refine ⟨?_, ?_⟩
    · rw [sitesOfAll, sitesOfAll, sites_eq_children he, declarationErrorsOfAll, declarationErrorsOfAll,
        declarationErrors_eq_children he, List.append_nil, List.append_nil, hreports]
    · rw [sitesOfAll, sitesOfAll, sites_eq_children he, List.append_nil, hnumbered, blockCountOfAll,
        blockCountOfAll, blockCount_eq_children he, Nat.add_zero]

end Expr

/-! ## Definitions -/

namespace Registry

/-- Nothing has been registered in some homes yet. -/
structure Lacks (P : Home → Prop) (r : Registry) : Prop where
  registeredAt_eq : ∀ home, P home → r.registeredAt home = []
  numberedIn_eq : ∀ m, P (.ofMethod m) → r.numberedIn m = []

variable {P : Home → Prop} {r : Registry} {ss : List DeclarationSite}

theorem Lacks.mono (h : r.Lacks P) {Q : Home → Prop} (hQ : ∀ home, Q home → P home) : r.Lacks Q :=
  ⟨fun home hhome => h.registeredAt_eq home (hQ home hhome), fun m hm => h.numberedIn_eq m (hQ _ hm)⟩

theorem Lacks.afterAll (h : r.Lacks P) (hss : ∀ s ∈ ss, ¬ P s.target) : (r.afterAll ss).Lacks P := by
  refine ⟨fun home hhome => ?_, fun m hm => ?_⟩
  · refine (r.registeredAt_afterAll ?_).trans (h.registeredAt_eq home hhome)
    rintro s hs place new span rfl
    exact hss _ hs hhome
  · refine (r.numberedIn_afterAll ?_).trans (h.numberedIn_eq m hm)
    rintro s hs home k span rfl
    exact hss _ hs hm

theorem Lacks.after (h : r.Lacks P) {s : DeclarationSite} (hs : ¬ P s.target) : (r.after s).Lacks P :=
  @Lacks.afterAll P r [s] h (List.forall_mem_singleton.mpr hs)

/-- Names that are declared elsewhere do not matter to a home. -/
theorem registeredAt_afterAll_of_target (r : Registry) {home : Home} (hss : ∀ s ∈ ss, s.target ≠ home) :
    (r.afterAll ss).registeredAt home = r.registeredAt home := by
  refine r.registeredAt_afterAll ?_
  rintro s hs place new span rfl
  exact hss _ hs rfl

end Registry

open Registry

section Methods

variable {owner : String} {key : MethodKey} {r : Registry}

theorem MethodDef.target_of_mem_sites {m : MethodDef} : ∀ s ∈ m.sites owner key,
    s.target = .ofClass key.owner ∨ s.target.method? = some key := by
  rw [MethodDef.sites, List.cons_append, List.forall_mem_cons, List.forall_mem_append]
  refine ⟨.inl rfl, fun s hs => ?_, fun s hs => ?_⟩
  · obtain ⟨new, -, rfl⟩ := List.mem_map.mp hs
    exact .inr rfl
  · exact .inr (Expr.isWithin_sitesOfAll (fun e _ => e.isWithin_sites) s hs).target_eq

/-- The sites of a method report whether it can be declared, and what is wrong inside. -/
theorem MethodDef.follows_sites (m : MethodDef) (hr : r.Lacks (·.method? = some key)) :
    reportsAt r (m.sites owner key)
        = m.registration.1.complaints owner (r.registeredAt (.ofClass key.owner)) m.registration.2
          ++ m.declarationErrors owner ∧
      (r.afterAll (m.sites owner key)).registeredAt (.ofClass key.owner)
        = register (r.registeredAt (.ofClass key.owner)) m.registration.1 := by
  generalize hfirst : DeclarationSite.name (.ofClass key.owner) owner m.registration.1 m.registration.2 = first
  generalize hnames : nameSites (.ofMethod key) (String.intercalate ">>" [owner, m.selector.name])
    (slotRegistrations m.params m.body.locals) = names
  generalize hinner : Expr.sitesOfAll key m.selector.name (.ofMethod key) [owner, m.selector.name] 0
    m.body.statements = inner
  have hsites : m.sites owner key = first :: (names ++ inner) := by
    rw [MethodDef.sites, hfirst, hnames, hinner, List.cons_append]
  have hcomplaints : first.complaints r
      = m.registration.1.complaints owner (r.registeredAt (.ofClass key.owner)) m.registration.2 := by
    rw [← hfirst]
    rfl
  have hlacks : (r.after first).Lacks (·.method? = some key) := by
    refine hr.after ?_
    rw [← hfirst]
    exact nofun
  have hreach : (r.after first).reaches (.ofMethod key) = true := rfl
  have hfills := fills_nameSites hreach (String.intercalate ">>" [owner, m.selector.name])
    (slotRegistrations m.params m.body.locals)
  have hreports := reportsAt_nameSites hreach (String.intercalate ">>" [owner, m.selector.name])
    (slotRegistrations m.params m.body.locals)
  rw [hnames] at hfills hreports
  rw [hlacks.registeredAt_eq _ rfl] at hreports
  have hbody : InBody key (.ofMethod key) 0 ((r.after first).afterAll names) := by
    refine ⟨rfl, ?_, fun j _ => ?_⟩
    · rw [hfills.numberedIn_eq, hlacks.numberedIn_eq key rfl]
      rfl
    · exact (hfills.registeredAt_other _ (by simp)).trans (hlacks.registeredAt_eq _ rfl)
  obtain ⟨hstatements, -⟩ : Expr.Follows key m.selector.name (.ofMethod key) [owner, m.selector.name] 0
    m.body.statements ((r.after first).afterAll names) := Expr.follows_all (fun e _ => e.follows) hbody
  rw [hinner] at hstatements
  refine ⟨?_, ?_⟩
  · rw [hsites, reportsAt, hcomplaints, reportsAt_append, hreports, hstatements]
    rfl
  · have hwithin : ∀ s ∈ names ++ inner, s.target ≠ .ofClass key.owner := by
      rw [List.forall_mem_append, ← hnames, ← hinner]
      refine ⟨fun s hs => ?_, fun s hs htarget => ?_⟩
      · obtain ⟨new, -, rfl⟩ := List.mem_map.mp hs
        exact nofun
      · have hmethod := (Expr.isWithin_sitesOfAll (fun e _ => e.isWithin_sites) s hs).target_eq
        rw [htarget] at hmethod
        cases hmethod
    rw [hsites]
    refine ((r.after first).registeredAt_afterAll_of_target hwithin).trans ?_
    rw [← hfirst, registeredAt_after_name rfl]

theorem target_of_mem_sitesOfMethods {c : Nat} (ms : List MethodDef) (i : Nat) :
    ∀ s ∈ sitesOfMethods owner c i ms,
      s.target = .ofClass c ∨ ∃ j, i ≤ j ∧ s.target.method? = some ⟨c, j⟩ := by
  induction ms generalizing i with
  | nil => exact fun s hs => absurd hs List.not_mem_nil
  | cons m ms ih =>
    rw [sitesOfMethods, List.forall_mem_append]
    refine ⟨fun s hs => ?_, fun s hs => ?_⟩
    · exact (MethodDef.target_of_mem_sites s hs).imp_right fun h => ⟨i, le_rfl, h⟩
    · rcases ih (i + 1) s hs with htarget | ⟨j, hj, htarget⟩
      · exact .inl htarget
      · exact .inr ⟨j, by omega, htarget⟩

theorem reportsAt_sitesOfMethods {c : Nat} (ms : List MethodDef) (i : Nat)
    (hr : r.Lacks fun home => ∃ j, i ≤ j ∧ home.method? = some ⟨c, j⟩) :
    reportsAt r (sitesOfMethods owner c i ms)
      = reportsOfAll owner (r.registeredAt (.ofClass c)) (methodReports owner ms) := by
  induction ms generalizing i r with
  | nil => rfl
  | cons m ms ih =>
    obtain ⟨hreports, hregistered⟩ := @MethodDef.follows_sites owner ⟨c, i⟩ r m
      (hr.mono fun home hhome => ⟨i, le_rfl, hhome⟩)
    have hlacks : (r.afterAll (m.sites owner ⟨c, i⟩)).Lacks
        fun home => ∃ j, i + 1 ≤ j ∧ home.method? = some ⟨c, j⟩ := by
      refine (hr.mono fun home => ?_).afterAll fun s hs => ?_
      · rintro ⟨j, hj, hhome⟩
        exact ⟨j, by omega, hhome⟩
      · rintro ⟨j, hj, hmethod⟩
        rcases MethodDef.target_of_mem_sites s hs with htarget | htarget
        · rw [htarget] at hmethod
          cases hmethod
        · rw [htarget] at hmethod
          cases hmethod
          omega
    rw [sitesOfMethods, reportsAt_append, hreports, ih (i + 1) hlacks, hregistered]
    rfl

end Methods

section Classes

variable {r : Registry}

theorem ClassDef.target_of_mem_sites {d : ClassDef} {c : Nat} : ∀ s ∈ d.sites c,
    s.target = .unit ∨ s.target.class? = some c := by
  rw [ClassDef.sites, List.cons_append, List.forall_mem_cons, List.forall_mem_append]
  refine ⟨.inl rfl, fun s hs => ?_, fun s hs => ?_⟩
  · obtain ⟨new, -, rfl⟩ := List.mem_map.mp hs
    exact .inr rfl
  · rcases target_of_mem_sitesOfMethods _ _ s hs with htarget | ⟨j, -, htarget⟩
    · exact .inr (by rw [htarget]; rfl)
    · exact .inr (Home.class?_of_method? htarget)

/-- The sites of a class report whether it can be declared, and what is wrong inside. -/
theorem ClassDef.follows_sites (d : ClassDef) {c : Nat} (hr : r.Lacks (·.class? = some c)) :
    reportsAt r (d.sites c)
        = d.registration.1.complaints "global scope" (r.registeredAt .unit) d.registration.2
          ++ d.declarationErrors ∧
      (r.afterAll (d.sites c)).registeredAt .unit = register (r.registeredAt .unit) d.registration.1 := by
  generalize hfirst : DeclarationSite.name .unit "global scope" d.registration.1 d.registration.2 = first
  generalize hnames : nameSites (.ofClass c) d.name.name d.fieldRegistrations = names
  have hsites : d.sites c = first :: (names ++ sitesOfMethods d.name.name c 0 d.methods) := by
    rw [ClassDef.sites, hfirst, hnames, List.cons_append]
  have hcomplaints : first.complaints r
      = d.registration.1.complaints "global scope" (r.registeredAt .unit) d.registration.2 := by
    rw [← hfirst]
    rfl
  have hlacks : (r.after first).Lacks (·.class? = some c) := by
    refine hr.after ?_
    rw [← hfirst]
    exact nofun
  have hreach : (r.after first).reaches (.ofClass c) = true := rfl
  have hfills := fills_nameSites hreach d.name.name d.fieldRegistrations
  have hreports := reportsAt_nameSites hreach d.name.name d.fieldRegistrations
  rw [hnames] at hfills hreports
  rw [hlacks.registeredAt_eq _ rfl] at hreports
  have hself := hfills.registeredAt_self
  rw [hlacks.registeredAt_eq _ rfl] at hself
  have hmembers : ((r.after first).afterAll names).Lacks
      fun home => ∃ j, 0 ≤ j ∧ home.method? = some ⟨c, j⟩ := by
    refine (hlacks.mono fun home => ?_).afterAll fun s hs => ?_
    · rintro ⟨j, -, hhome⟩
      exact Home.class?_of_method? hhome
    · rw [← hnames] at hs
      obtain ⟨new, -, rfl⟩ := List.mem_map.mp hs
      exact nofun
  refine ⟨?_, ?_⟩
  · rw [hsites, reportsAt, hcomplaints, reportsAt_append, hreports, reportsAt_sitesOfMethods _ _ hmembers,
      hself]
    rfl
  · have hinside : ∀ s ∈ names ++ sitesOfMethods d.name.name c 0 d.methods, s.target ≠ .unit := by
      rw [List.forall_mem_append, ← hnames]
      refine ⟨fun s hs => ?_, fun s hs htarget => ?_⟩
      · obtain ⟨new, -, rfl⟩ := List.mem_map.mp hs
        exact nofun
      · rcases target_of_mem_sitesOfMethods _ _ s hs with h | ⟨j, -, h⟩
        · rw [htarget] at h
          cases h
        · rw [htarget] at h
          cases h
    rw [hsites]
    refine ((r.after first).registeredAt_afterAll_of_target hinside).trans ?_
    rw [← hfirst, registeredAt_after_name rfl]

theorem reportsAt_sitesOfClasses (ds : List ClassDef) (c : Nat)
    (hr : r.Lacks fun home => ∃ i, c ≤ i ∧ home.class? = some i) :
    reportsAt r (sitesOfClasses c ds)
      = reportsOfAll "global scope" (r.registeredAt .unit) (classReports ds) := by
  induction ds generalizing c r with
  | nil => rfl
  | cons d ds ih =>
    obtain ⟨hreports, hregistered⟩ := d.follows_sites (c := c) (hr.mono fun home hhome => ⟨c, le_rfl, hhome⟩)
    have hlacks : (r.afterAll (d.sites c)).Lacks fun home => ∃ i, c + 1 ≤ i ∧ home.class? = some i := by
      refine (hr.mono fun home => ?_).afterAll fun s hs => ?_
      · rintro ⟨i, hi, hhome⟩
        exact ⟨i, by omega, hhome⟩
      · rintro ⟨i, hi, hclass⟩
        rcases ClassDef.target_of_mem_sites s hs with htarget | htarget
        · rw [htarget] at hclass
          cases hclass
        · rw [htarget] at hclass
          cases hclass
          omega
    rw [sitesOfClasses, reportsAt_append, hreports, ih (c + 1) hlacks, hregistered]
    rfl

end Classes

/-- Declaring a unit reports what is wrong at its sites, in the order of the walk, and nothing else: a name
that clashes with a registered one of its home, or else that comes when its counter there is full, and a
block that comes when all numbers of its method are taken. -/
theorem errors_declareUnit_eq_reportsAt (u : SourceUnit) :
    (declareUnit u).errors = reportsAt {} u.sites := by
  have hempty : (Registry.mk [] []).Lacks fun home => ∃ i, 0 ≤ i ∧ home.class? = some i :=
    ⟨fun _ _ => rfl, fun _ _ => rfl⟩
  rw [errors_declareUnit, SourceUnit.sites, reportsAt_sitesOfClasses _ _ hempty]
  rfl

end Smalltalk
