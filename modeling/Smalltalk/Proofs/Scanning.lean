import Mathlib
import Smalltalk.Token.Tokens

/-!
# Tokens without their places

Where a token stands depends on all of the text before it, but what it is depends only on the text from
there on. So the tokens of a text, without their places, are described by cutting one token after the other
off its front (`Scans`).
-/

namespace Smalltalk

open Text

/-- A token without its place. -/
def Token.unplaced (t : Token) : Token := { t with span := {} }

/-- The tokens of a text without their places: blanks, then a token, and so on until only blanks are
left. -/
inductive Scans : List Char → List Token → Prop
  | finish {gap : List Char} (blank : ∀ d ∈ gap, isBlank d) : Scans gap [.finish {}]
  | token {gap cs : List Char} {c : Char} {ts : List Token} (blank : ∀ d ∈ gap, isBlank d)
    (start : ¬ isBlank c) (rest : Scans (scan c cs).rest ts) :
    Scans (gap ++ c :: cs) (⟨(scan c cs).kind, {}, String.ofList (scan c cs).text⟩ :: ts)

/-- A run of characters ends before the first one that does not belong to it. -/
theorem takeWhile_append_stop {p : Char → Bool} {run rest : List Char} (hrun : ∀ d ∈ run, p d)
    (hrest : ∀ d ∈ rest.head?, ¬ p d) : (run ++ rest).takeWhile p = run := by
  rw [List.takeWhile_append_of_pos hrun]
  cases rest with
  | nil => simp
  | cons d rest => simp [hrest d rfl]

theorem dropWhile_append_stop {p : Char → Bool} {run rest : List Char} (hrun : ∀ d ∈ run, p d)
    (hrest : ∀ d ∈ rest.head?, ¬ p d) : (run ++ rest).dropWhile p = rest := by
  rw [List.dropWhile_append_of_pos hrun]
  cases rest with
  | nil => simp
  | cons d rest => simp [hrest d rfl]

theorem head?_dropWhile_stop (p : Char → Bool) (cs : List Char) : ∀ d ∈ (cs.dropWhile p).head?, ¬ p d := by
  intro d hd
  have hnot := List.head?_dropWhile_not p cs
  rw [hd] at hnot
  simpa using hnot

theorem map_unplaced_tokensFrom {cs : List Char} {ts : List Token} (h : Scans cs ts) (done : Array Token)
    (p : Position) :
    (tokensFrom done p cs).toList.map Token.unplaced = done.toList.map Token.unplaced ++ ts := by
  induction h generalizing done p with
  | @finish gap blank =>
    have hrest : gap.dropWhile isBlank = [] := List.dropWhile_eq_nil_iff.mpr blank
    rw [tokensFrom]
    split
    · rw [Array.toList_push, List.map_append]
      rfl
    · next hcons => rw [hrest] at hcons; cases hcons
  | @token gap cs c ts blank start _ ih =>
    have hrest : (gap ++ c :: cs).dropWhile isBlank = c :: cs :=
      dropWhile_append_stop blank (by simpa using start)
    rw [tokensFrom]
    split
    · next hnil => rw [hrest] at hnil; cases hnil
    · next hcons =>
      rw [hrest] at hcons
      cases hcons
      rw [ih, Array.toList_push, List.map_append, List.append_assoc]
      rfl

theorem exists_scans (cs : List Char) : ∃ ts, Scans cs ts := by
  have hblank : ∀ d ∈ cs.takeWhile isBlank, isBlank d := fun d hd => List.mem_takeWhile_imp hd
  have hsplit := List.takeWhile_append_dropWhile (p := isBlank) (l := cs)
  cases hrest : cs.dropWhile isBlank with
  | nil =>
    rw [hrest, List.append_nil] at hsplit
    rw [hsplit] at hblank
    exact ⟨_, .finish hblank⟩
  | cons c rest =>
    have hlt := scan_rest_length_lt_of_dropWhile hrest
    have hstart : ¬ isBlank c := head?_dropWhile_stop isBlank cs c (by rw [hrest]; rfl)
    obtain ⟨ts, hts⟩ := exists_scans (scan c rest).rest
    rw [← hsplit, hrest]
    exact ⟨_, .token hblank hstart hts⟩
termination_by cs.length

/-- The tokens of a source without their places are what its text scans as. -/
theorem scans_iff {source : String} {ts : List Token} :
    Scans source.toList ts ↔ (tokens source).map Token.unplaced = ts := by
  have heq : ∀ {ts}, Scans source.toList ts → (tokens source).map Token.unplaced = ts := fun h => by
    rw [tokens, map_unplaced_tokensFrom h]
    rfl
  refine ⟨heq, ?_⟩
  rintro rfl
  obtain ⟨ts, hts⟩ := exists_scans source.toList
  rwa [heq hts]

/-- More blanks before the first token change nothing. -/
theorem Scans.blank_append {gap cs : List Char} {ts : List Token} (hgap : ∀ d ∈ gap, isBlank d)
    (h : Scans cs ts) : Scans (gap ++ cs) ts := by
  cases h with
  | finish blank => exact .finish (List.forall_mem_append.mpr ⟨hgap, blank⟩)
  | token blank start rest =>
    rw [← List.append_assoc]
    exact .token (List.forall_mem_append.mpr ⟨hgap, blank⟩) start rest

theorem Scans.space_cons {cs : List Char} {ts : List Token} (h : Scans cs ts) : Scans (' ' :: cs) ts :=
  h.blank_append (List.forall_mem_singleton.mpr (by decide))

end Smalltalk
