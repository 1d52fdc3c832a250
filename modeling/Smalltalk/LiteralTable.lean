import Std.Data.TreeMap

/-!
# Literal tables

The code of a class refers to strings by number: selectors, string constants, names of globals and
of source files share one table. A string is entered when it is first used and keeps its number.
-/

namespace Smalltalk

/-- Strings numbered in the order of their first use. -/
structure LiteralTable where
  /-- The strings by number. -/
  strings : Array String
  /-- The numbers by string. -/
  index : Std.TreeMap String Nat
  /-- Each direction inverts the other. -/
  index_eq_some_iff : ∀ (s : String) (i : Nat), index[s]? = some i ↔ strings[i]? = some s

namespace LiteralTable

theorem index_empty_iff (s : String) (i : Nat) :
    (∅ : Std.TreeMap String Nat)[s]? = some i ↔ (#[] : Array String)[i]? = some s := by
  simp

/-- The table without strings. -/
def empty : LiteralTable := ⟨#[], ∅, index_empty_iff⟩

instance : Inhabited LiteralTable := ⟨empty⟩

/-- How many strings there are. -/
def size (t : LiteralTable) : Nat := t.strings.size

/-- The strings in the order of their numbers. -/
def toList (t : LiteralTable) : List String := t.strings.toList

/-- The number of a string. -/
def indexOf? (t : LiteralTable) (s : String) : Option Nat := t.index[s]?

/-- The string with a number. -/
def get? (t : LiteralTable) (i : Nat) : Option String := t.strings[i]?

/-- The number of a string, which is entered if it is new. -/
def intern (t : LiteralTable) (s : String) : Nat × LiteralTable :=
  match h : t.index[s]? with
  | some i => (i, t)
  | none =>
    (t.strings.size,
      { strings := t.strings.push s
        index := t.index.insert s t.strings.size
        index_eq_some_iff := by
          intro r i
          have hr := t.index_eq_some_iff r
          have hs := t.index_eq_some_iff s
          rw [Std.TreeMap.getElem?_insert, Array.getElem?_push]
          grind })

/-- The table with the given strings; repeats get no number of their own. -/
def ofList (strings : List String) : LiteralTable :=
  strings.foldl (fun t s => (t.intern s).2) empty

end LiteralTable

end Smalltalk
