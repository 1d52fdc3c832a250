import Mathlib
import Smalltalk.Proofs.TableCalls

/-!
# Walks along superclasses

Nothing stops classes from extending each other in a circle, and a class may also lead into a circle that it is
not part of itself. The walks that look for the ancestors of a class, and for a class that inherits from itself,
remember what they have seen. Here they are first described as loops without any bound (`Climbs`, `Returns`):
since there are only so many scopes, the loops end, and the bounds of the functions play no part. Then it is
said how far they get.
-/

namespace Smalltalk.ScopeTable

variable {t : ScopeTable} {c d goal : ScopeId} {next : Option ScopeId} {seen chain : List ScopeId}

/-! ## The walks as loops -/

/-- The walk that goes on with `next` collects scopes until there is none, or one that it has seen. -/
inductive Climbs (t : ScopeTable) : List ScopeId → Option ScopeId → List ScopeId → Prop where
  | top {seen : List ScopeId} : Climbs t seen none []
  | again {seen : List ScopeId} {d : ScopeId} : d ∈ seen → Climbs t seen (some d) []
  | step {seen rest : List ScopeId} {d : ScopeId} :
    d ∉ seen → Climbs t (d :: seen) (t.superclassScope d) rest → Climbs t seen (some d) (d :: rest)

/-- The walk that goes on with `next` tells whether it comes to `goal`, unless there is no further scope, or it
has seen the next one. -/
inductive Returns (t : ScopeTable) (goal : ScopeId) : List ScopeId → Option ScopeId → Bool → Prop where
  | top {seen : List ScopeId} : Returns t goal seen none false
  | found {seen : List ScopeId} : Returns t goal seen (some goal) true
  | again {seen : List ScopeId} {d : ScopeId} : d ≠ goal → d ∈ seen → Returns t goal seen (some d) false
  | step {seen : List ScopeId} {d : ScopeId} {found : Bool} :
    d ≠ goal → d ∉ seen → Returns t goal (d :: seen) (t.superclassScope d) found →
    Returns t goal seen (some d) found

/-- The scopes that a walk has not seen yet. -/
def unseen (t : ScopeTable) (seen : List ScopeId) : Finset ScopeId :=
  (Finset.range t.scopeCount).filter (· ∉ seen)

theorem card_unseen_le (t : ScopeTable) (seen : List ScopeId) : (t.unseen seen).card ≤ t.scopeCount :=
  (Finset.card_filter_le _ _).trans_eq (Finset.card_range _)

theorem card_unseen_cons_lt (hd : d < t.scopeCount) (hseen : d ∉ seen) :
    (t.unseen (d :: seen)).card < (t.unseen seen).card := by
  apply Finset.card_lt_card
  refine Finset.ssubset_iff_of_subset (fun e he => ?_) |>.mpr ⟨d, ?_, ?_⟩
  · simp only [unseen, Finset.mem_filter, List.mem_cons, not_or] at he ⊢
    exact ⟨he.1, he.2.2⟩
  · simpa [unseen, hseen] using hd
  · simp [unseen]

section Bounds

variable (ht : t.Valid)

include ht

/-- A bound that leaves room for every unseen scope does not cut the walk short. -/
theorem Valid.climbs_chainFrom {fuel : Nat} (hnext : ∀ d ∈ next, d < t.scopeCount)
    (hfuel : (t.unseen seen).card ≤ fuel) : Climbs t seen next (t.chainFrom fuel seen next) := by
  induction fuel generalizing seen next with
  | zero =>
    cases next with
    | none => exact .top
    | some d =>
      refine .again (Classical.not_not.mp fun hseen => ?_)
      have hlt := card_unseen_cons_lt (hnext d rfl) hseen
      omega
  | succ fuel ih =>
    cases next with
    | none => exact .top
    | some d =>
      rw [chainFrom]
      split
      · next hseen => exact .again (List.contains_iff_mem.mp hseen)
      · next hseen =>
        have hnot : d ∉ seen := fun h => hseen (List.contains_iff_mem.mpr h)
        have hlt := card_unseen_cons_lt (hnext d rfl) hnot
        exact .step hnot (ih (fun e he => ht.superclassScope_lt he) (by omega))

theorem Valid.returns_reaches {fuel : Nat} (hnext : ∀ d ∈ next, d < t.scopeCount)
    (hfuel : (t.unseen seen).card < fuel) : Returns t goal seen next (t.reaches goal fuel seen next) := by
  induction fuel generalizing seen next with
  | zero => cases hfuel
  | succ fuel ih =>
    cases next with
    | none => exact .top
    | some d =>
      rw [reaches]
      split
      · next hgoal => exact hgoal ▸ .found
      · next hgoal =>
        split
        · next hseen => exact .again hgoal (List.contains_iff_mem.mp hseen)
        · next hseen =>
          have hnot : d ∉ seen := fun h => hseen (List.contains_iff_mem.mpr h)
          have hlt := card_unseen_cons_lt (hnext d rfl) hnot
          exact .step hgoal hnot (ih (fun e he => ht.superclassScope_lt he) (by omega))

theorem Valid.climbs_ancestors (c : ScopeId) : Climbs t [c] (t.superclassScope c) (t.ancestors c) :=
  ht.climbs_chainFrom (fun _ hd => ht.superclassScope_lt hd) (t.card_unseen_le [c])

theorem Valid.returns_inheritsFromItself (c : ScopeId) :
    Returns t c [] (t.superclassScope c) (t.inheritsFromItself c) :=
  ht.returns_reaches (fun _ hd => ht.superclassScope_lt hd) (Nat.lt_succ_of_le (t.card_unseen_le []))

end Bounds

/-! ## How far a walk gets -/

/-- The scopes above a class, one step after the other, as long as they are new: the step after the last one
leads nowhere, or to the class or one of them. -/
structure WalksUp (t : ScopeTable) (c : ScopeId) (chain : List ScopeId) : Prop where
  steps : ∀ n d, chain[n]? = some d → t.stepsUp (n + 1) c = some d
  nodup : (c :: chain).Nodup
  stops : ∀ e, t.stepsUp (chain.length + 1) c = some e → e ∈ c :: chain

namespace Climbs

/-- Each scope that a walk collects is one step above the one before. -/
theorem steps (h : Climbs t seen next chain) {n : Nat} (hn : chain[n]? = some d) :
    next.bind (t.stepsUp n) = some d := by
  induction h generalizing n with
  | top => cases hn
  | again _ => cases hn
  | step _ _ ih =>
    cases n with
    | zero => exact hn
    | succ n => exact ih hn

/-- A walk collects what it has not seen. -/
theorem not_mem_seen (h : Climbs t seen next chain) : ∀ d ∈ chain, d ∉ seen := by
  induction h with
  | top => exact fun d hd => absurd hd List.not_mem_nil
  | again _ => exact fun d hd => absurd hd List.not_mem_nil
  | step hd _ ih =>
    exact List.forall_mem_cons.mpr ⟨hd, fun e he => mt (List.mem_cons_of_mem _) (ih e he)⟩

theorem nodup (h : Climbs t seen next chain) : chain.Nodup := by
  induction h with
  | top => exact List.nodup_nil
  | again _ => exact List.nodup_nil
  | step _ hrest ih =>
    exact List.nodup_cons.mpr ⟨fun hd => hrest.not_mem_seen _ hd List.mem_cons_self, ih⟩

theorem stops (h : Climbs t seen next chain) (hnext : next.bind (t.stepsUp chain.length) = some d) :
    d ∈ seen ∨ d ∈ chain := by
  induction h with
  | top => cases hnext
  | again hseen => exact .inl (Option.some.inj hnext ▸ hseen)
  | step _ _ ih =>
    rcases ih hnext with hd | hd
    · rcases List.mem_cons.mp hd with rfl | hd
      · exact .inr List.mem_cons_self
      · exact .inl hd
    · exact .inr (List.mem_cons_of_mem _ hd)

theorem walksUp (h : Climbs t [c] (t.superclassScope c) chain) : WalksUp t c chain where
  steps _ _ hn := h.steps hn
  nodup := List.nodup_cons.mpr ⟨fun hc => h.not_mem_seen c hc List.mem_cons_self, h.nodup⟩
  stops e he := by
    rcases h.stops he with hmem | hmem
    · exact List.mem_singleton.mp hmem ▸ List.mem_cons_self
    · exact List.mem_cons_of_mem c hmem

end Climbs

namespace WalksUp

variable {chain' : List ScopeId}

/-- Of two walks from the same class, neither goes further than the other. -/
theorem length_le (h : WalksUp t c chain) (h' : WalksUp t c chain') : chain'.length ≤ chain.length := by
  by_contra hlt
  have hlt : chain.length < chain'.length := Nat.lt_of_not_le hlt
  have hlast : chain'[chain.length]? = some chain'[chain.length] := List.getElem?_eq_getElem hlt
  rcases List.mem_cons.mp (h.stops _ (h'.steps _ _ hlast)) with heq | hmem
  · -- the longer walk would come back to its start
    exact (List.nodup_cons.mp h'.nodup).1 (heq ▸ List.getElem_mem hlt)
  · obtain ⟨n, hn⟩ := List.mem_iff_getElem?.mp hmem
    have hn' : n < chain.length := (List.getElem?_eq_some_iff.mp hn).1
    have hagain : chain'[n]? = chain'[chain.length]? := by
      have hstep := h'.steps n _ (List.getElem?_eq_getElem (hn'.trans hlt))
      rw [h.steps n _ hn] at hstep
      rw [hlast, hstep, List.getElem?_eq_getElem (hn'.trans hlt)]
    exact hn'.ne ((List.getElem?_inj (hn'.trans hlt) (List.nodup_cons.mp h'.nodup).2).mp hagain)

/-- There is only one such walk. -/
theorem unique (h : WalksUp t c chain) (h' : WalksUp t c chain') : chain = chain' := by
  have hlength := le_antisymm (h'.length_le h) (h.length_le h')
  refine List.ext_getElem hlength fun n hn hn' => ?_
  have hstep := h.steps n _ (List.getElem?_eq_getElem hn)
  rw [h'.steps n _ (List.getElem?_eq_getElem hn')] at hstep
  exact (Option.some.inj hstep).symm

end WalksUp

/-! ## Tables with circles -/

/-- A class of whose superclasses no more is known than their names has the ancestors that it should have. -/
structure AncestryExact (t : ScopeTable) (c : ScopeId) : Prop where
  /-- A step leads to the class of the unit that has the name of the superclass. -/
  superclassScope_iff : ∀ d, t.superclassScope c = some d ↔
    ∃ x, (t.scope c).superclass = some x ∧ (x, some d) ∈ t.classesOf
  /-- Both walks end. -/
  climbs : Climbs t [c] (t.superclassScope c) (t.ancestors c)
  returns : Returns t c [] (t.superclassScope c) (t.inheritsFromItself c)
  /-- The ancestors are the scopes above the class, up to the first that is missing or comes again. -/
  ancestors_iff : ∀ chain, WalksUp t c chain ↔ chain = t.ancestors c
  ancestors_nodup : (t.ancestors c).Nodup
  not_mem_ancestors : c ∉ t.ancestors c
  /-- A class inherits from itself if some steps lead back to it. -/
  inheritsFromItself_iff : t.inheritsFromItself c = true ↔ ∃ n, t.stepsUp (n + 1) c = some c
  /-- A class that leads into a circle without being part of it does not. -/
  not_inheritsFromItself : ∀ m n d, t.stepsUp m c = some d → t.stepsUp (n + 1) d = some d →
    (∀ k, t.stepsUp k d ≠ some c) → t.inheritsFromItself c = false

/-- A class on a circle is reached again from every class that it leads to. -/
theorem exists_stepsUp_back {n m : Nat} (h : t.stepsUp (n + 1) c = some c) (hd : t.stepsUp m c = some d) :
    ∃ k, t.stepsUp k d = some c := by
  have hround : ∀ r, t.stepsUp (r * (n + 1)) c = some c := by
    intro r
    induction r with
    | zero => rw [Nat.zero_mul, stepsUp]
    | succ r ih => rw [Nat.succ_mul, stepsUp_add, ih, Option.bind_some, h]
  refine ⟨m * (n + 1) - m, ?_⟩
  have hle : m ≤ m * (n + 1) := Nat.le_mul_of_pos_right m n.succ_pos
  have hsplit := t.stepsUp_add m (m * (n + 1) - m) c
  rw [Nat.add_sub_cancel' hle, hround, hd, Option.bind_some] at hsplit
  exact hsplit.symm

theorem Valid.ancestryExact (ht : t.Valid) (c : ScopeId) : t.AncestryExact c := by
  have hwalks := (ht.climbs_ancestors c).walksUp
  have hiff : t.inheritsFromItself c = true ↔ ∃ n, t.stepsUp (n + 1) c = some c :=
    ⟨stepsUp_of_inheritsFromItself, fun h => h.elim fun _ hn => ht.inheritsFromItself_of_stepsUp hn⟩
  refine ⟨fun d => ?_, ht.climbs_ancestors c, ht.returns_inheritsFromItself c, fun chain => ?_,
    (List.nodup_cons.mp hwalks.nodup).2, (List.nodup_cons.mp hwalks.nodup).1, hiff, fun m n d hd _ hback => ?_⟩
  · simp only [superclassScope, Option.bind_eq_some_iff, ht.lookupClass_eq_some_iff]
  · exact ⟨fun h => h.unique hwalks, fun h => h ▸ hwalks⟩
  · rw [← Bool.not_eq_true, hiff]
    rintro ⟨r, hr⟩
    obtain ⟨k, hk⟩ := exists_stepsUp_back hr hd
    exact hback k hk

end Smalltalk.ScopeTable

namespace Smalltalk.TableCall

/-- Walks along superclasses end and are exact. In every table that calls can make, whatever names the classes in
it extend, the ancestors of a class are the scopes above it, one step after the other, up to the first step that
leads nowhere, back to the class or to one of them. So no ancestor occurs twice, and the class is none of them.
A class is said to inherit from itself exactly if one or more steps lead back to it, and not if it only leads
into a circle of others. -/
theorem ancestryExact_of_run {calls : List TableCall} (h : AllAllowed .empty calls) (c : ScopeId) :
    (run .empty calls).2.AncestryExact c :=
  (valid_listed_run h).1.ancestryExact c

/-- A class that leads into a circle of two others, of which the second is named before it exists. -/
theorem ancestryExact_of_run_tail : ∃ calls, AllAllowed .empty calls ∧ (run .empty calls).2.AncestryExact 1 ∧
    (run .empty calls).2.ancestors 1 = [2, 3] ∧ (run .empty calls).2.ancestors 2 = [3] ∧
    (run .empty calls).2.inheritsFromItself 1 = false ∧ (run .empty calls).2.inheritsFromItself 2 = true := by
  have hallowed : AllAllowed .empty [
      push .classDef "A" 0 {}, setSuperclass 1 (some "B"), declare 0 .classDef ⟨"A", {}⟩ (some 1),
      push .classDef "B" 0 {}, setSuperclass 2 (some "C"), declare 0 .classDef ⟨"B", {}⟩ (some 2),
      push .classDef "C" 0 {}, setSuperclass 3 (some "B"), declare 0 .classDef ⟨"C", {}⟩ (some 3)] := by
    decide +kernel
  exact ⟨_, hallowed, ancestryExact_of_run hallowed 1, by decide +kernel, by decide +kernel, by decide +kernel,
    by decide +kernel⟩

end Smalltalk.TableCall
