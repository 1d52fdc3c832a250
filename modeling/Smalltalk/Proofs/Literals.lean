import Mathlib
import Smalltalk.LiteralTable

/-!
# Literal tables keep every number they give out

Entering a string changes no number that is already in use, and the table never holds a string
twice. So its size is the number of different strings that have been entered.
-/

namespace Smalltalk.LiteralTable

theorem get?_eq_some_iff (t : LiteralTable) (s : String) (i : Nat) :
    t.get? i = some s ↔ t.indexOf? s = some i :=
  (t.index_eq_some_iff s i).symm

theorem mem_toList_iff (t : LiteralTable) (s : String) : s ∈ t.toList ↔ ∃ i, t.get? i = some s := by
  unfold toList get?
  rw [Array.mem_toList_iff, Array.mem_iff_getElem?]

theorem get?_eq_toList (t : LiteralTable) (i : Nat) : t.get? i = t.toList[i]? := by
  simp [get?, toList]

/-- No string has two numbers. -/
theorem nodup_toList (t : LiteralTable) : t.toList.Nodup := by
  rw [List.nodup_iff_getElem?_ne_getElem?]
  intro i j hij hj heq
  have hget : t.get? j = some t.toList[j] := by rw [get?_eq_toList, List.getElem?_eq_getElem hj]
  have hget' : t.get? i = some t.toList[j] := by rw [get?_eq_toList, heq, ← get?_eq_toList, hget]
  rw [get?_eq_some_iff] at hget hget'
  rw [hget] at hget'
  have := Option.some.inj hget'
  omega

/-- A string that is new gets the next number; any other keeps its own. -/
theorem intern_cases (t : LiteralTable) (s : String) :
    (t.get? (t.intern s).1 = some s ∧ (t.intern s).2 = t) ∨
    (s ∉ t.toList ∧ (t.intern s).1 = t.size ∧ (t.intern s).2.strings = t.strings.push s) := by
  unfold intern
  split
  · next i h => exact Or.inl ⟨(t.index_eq_some_iff s i).mp h, rfl⟩
  · next h =>
    refine Or.inr ⟨?_, rfl, rfl⟩
    rw [mem_toList_iff]
    rintro ⟨i, hi⟩
    have := (t.index_eq_some_iff s i).mpr hi
    rw [h] at this
    cases this

/-- The number that a string gets is that of the string. -/
theorem get?_intern (t : LiteralTable) (s : String) :
    (t.intern s).2.get? (t.intern s).1 = some s := by
  rcases t.intern_cases s with ⟨hget, htable⟩ | ⟨-, hindex, hstrings⟩
  · rw [htable]
    exact hget
  · simp [get?, hindex, hstrings, size]

/-- Numbers that are in use stay as they are. -/
theorem get?_intern_of_get? {t : LiteralTable} {i : Nat} {r : String} (h : t.get? i = some r)
    (s : String) : (t.intern s).2.get? i = some r := by
  rcases t.intern_cases s with ⟨-, htable⟩ | ⟨-, -, hstrings⟩
  · rw [htable]
    exact h
  · unfold get? at h ⊢
    rw [hstrings, Array.getElem?_push]
    have hi := (Array.getElem?_eq_some_iff.mp h).1
    rw [if_neg (by omega)]
    exact h

theorem toList_intern (t : LiteralTable) (s : String) :
    (t.intern s).2.toList = if s ∈ t.toList then t.toList else t.toList ++ [s] := by
  rcases t.intern_cases s with ⟨hget, htable⟩ | ⟨hnew, -, hstrings⟩
  · rw [if_pos ((t.mem_toList_iff s).mpr ⟨_, hget⟩), htable]
  · rw [if_neg hnew]
    simp [toList, hstrings]

theorem size_le_size_intern (t : LiteralTable) (s : String) : t.size ≤ (t.intern s).2.size := by
  rcases t.intern_cases s with ⟨-, htable⟩ | ⟨-, -, hstrings⟩
  · rw [htable]
  · simp [size, hstrings]

/-- As long as all numbers of a table have 16 bits, the number of a further string has 16 bits if and
only if all numbers still have. -/
theorem intern_fst_le_iff {t : LiteralTable} {n : Nat} (h : t.size ≤ n + 1) (s : String) :
    (t.intern s).1 ≤ n ↔ (t.intern s).2.size ≤ n + 1 := by
  rcases t.intern_cases s with ⟨hget, htable⟩ | ⟨-, hindex, hstrings⟩
  · rw [htable]
    have hlt : (t.intern s).1 < t.size := (Array.getElem?_eq_some_iff.mp hget).1
    omega
  · have hsize : (t.intern s).2.size = t.size + 1 := by simp [size, hstrings]
    omega

/-! ## Entering several strings -/

/-- The table after some strings have been entered one after the other. -/
def internAll (t : LiteralTable) (strings : List String) : LiteralTable :=
  strings.foldl (fun t s => (t.intern s).2) t

@[simp]
theorem internAll_nil (t : LiteralTable) : t.internAll [] = t := rfl

@[simp]
theorem internAll_cons (t : LiteralTable) (s : String) (strings : List String) :
    t.internAll (s :: strings) = (t.intern s).2.internAll strings := rfl

theorem internAll_append (t : LiteralTable) (l r : List String) :
    t.internAll (l ++ r) = (t.internAll l).internAll r := by
  simp [internAll, List.foldl_append]

theorem get?_internAll_of_get? {t : LiteralTable} {i : Nat} {r : String} (h : t.get? i = some r)
    (strings : List String) : (t.internAll strings).get? i = some r := by
  induction strings generalizing t with
  | nil => exact h
  | cons s strings ih => exact ih (get?_intern_of_get? h s)

theorem size_le_size_internAll (t : LiteralTable) (strings : List String) :
    t.size ≤ (t.internAll strings).size := by
  induction strings generalizing t with
  | nil => exact le_rfl
  | cons s strings ih => exact (t.size_le_size_intern s).trans (ih _)

/-- All strings keep their numbers from one table to another. -/
def Extends (t t' : LiteralTable) : Prop :=
  ∀ (i : Nat) (s : String), t.get? i = some s → t'.get? i = some s

theorem Extends.refl (t : LiteralTable) : t.Extends t := fun _ _ h => h

theorem Extends.trans {t t' t'' : LiteralTable} (h : t.Extends t') (h' : t'.Extends t'') :
    t.Extends t'' :=
  fun i s hs => h' i s (h i s hs)

theorem extends_internAll (t : LiteralTable) (strings : List String) : t.Extends (t.internAll strings) :=
  fun _ _ h => get?_internAll_of_get? h strings

/-- A string that has a number already changes nothing. -/
theorem intern_of_get? {t : LiteralTable} {i : Nat} {s : String} (h : t.get? i = some s) :
    t.intern s = (i, t) := by
  have hindex : t.index[s]? = some i := (t.index_eq_some_iff s i).mpr h
  unfold intern
  split
  · next j hj =>
    rw [hindex] at hj
    rw [Option.some.inj hj]
  · next hj =>
    rw [hindex] at hj
    cases hj

theorem toFinset_internAll (t : LiteralTable) (strings : List String) :
    (t.internAll strings).toList.toFinset = t.toList.toFinset ∪ strings.toFinset := by
  induction strings generalizing t with
  | nil => simp
  | cons s strings ih =>
    rw [internAll_cons, ih, toList_intern]
    split
    · next hmem =>
      ext r
      simp only [Finset.mem_union, List.mem_toFinset, List.mem_cons]
      constructor
      · rintro (h | h)
        · exact Or.inl h
        · exact Or.inr (Or.inr h)
      · rintro (h | rfl | h)
        · exact Or.inl h
        · exact Or.inl hmem
        · exact Or.inr h
    · ext r
      simp only [Finset.mem_union, List.mem_toFinset, List.mem_cons, List.mem_append,
        List.not_mem_nil, or_false]
      tauto

/-- A new table has as many strings as different ones have been entered. -/
theorem size_internAll_empty (strings : List String) :
    (empty.internAll strings).size = strings.dedup.length := by
  have hcard : (empty.internAll strings).toList.toFinset.card = (empty.internAll strings).size := by
    rw [List.toFinset_card_of_nodup (nodup_toList _)]
    simp [toList, size]
  rw [← hcard, toFinset_internAll, ← List.card_toFinset]
  simp [empty, toList]

end Smalltalk.LiteralTable
