import Mathlib
import Smalltalk.Proofs.PairedReading

/-!
# Two runs abreast

Take two texts that are the same up to the bracket that closes some open ones, and differ after it.
Read from the start of both, a reader does the same in both: it opens and closes brackets in pairs, so
it never gets beyond that bracket, and it fails in both with the same error or in none. How many
nodes have been numbered, and how much fuel a loop was given, may differ between the runs; there is
enough of it in both.

So places in two such texts correspond, in the sense of two runs of a reader.
-/

namespace Smalltalk

namespace ReadM

/-- Where two texts part: what follows the last closing bracket in each, and where the tokens before
it stand. -/
structure Parting where
  left : List Token
  right : List Token
  place : Position → Prop

/-- Two texts are the same for at most `j` tokens, up to the bracket that closes the `d` open ones or
to the end of both. -/
inductive Abreast (F : Parting) : Nat → Nat → List Token → List Token → Prop
  | closed {j : Nat} : Abreast F 0 j F.left F.right
  | finish {t : Token} {ts : List Token} {d j : Nat} (kind : t.kind = .endOfInput)
    (place : F.place t.span.start) : Abreast F (d + 1) (j + 1) (t :: ts) (t :: ts)
  | token {t : Token} {xs ys : List Token} {d j : Nat} (kind : t.kind ≠ .endOfInput)
    (place : F.place t.span.start) (tail : Abreast F (bracketsAfter t.kind (d + 1)) j xs ys) :
    Abreast F (d + 1) (j + 1) (t :: xs) (t :: ys)

variable {F : Parting} {d i j : Nat} {x y xs ys : List Token} {t : Token} {c c' : Cursor}

namespace Abreast

/-- There may be fewer tokens to go than are allowed for. -/
theorem mono (h : Abreast F d i x y) (hij : i ≤ j) : Abreast F d j x y := by
  induction h generalizing j with
  | closed => exact .closed
  | finish kind place =>
    obtain ⟨j, rfl⟩ := Nat.exists_eq_add_of_le' hij
    exact .finish kind place
  | token kind place _ ih =>
    obtain ⟨j, rfl⟩ := Nat.exists_eq_succ_of_ne_zero (by omega : j ≠ 0)
    exact .token kind place (ih (by omega))

/-- Inside of brackets both texts go on, with the same token. -/
theorem exists_cons (h : Abreast F (d + 1) j x y) :
    ∃ t xs ys i, x = t :: xs ∧ y = t :: ys ∧ j = i + 1 ∧ F.place t.span.start := by
  cases h with
  | finish kind place => exact ⟨_, _, _, _, rfl, rfl, rfl, place⟩
  | token kind place tail => exact ⟨_, _, _, _, rfl, rfl, rfl, place⟩

theorem pos (h : Abreast F (d + 1) j x y) : 0 < j := by
  cases h <;> exact Nat.succ_pos _

/-- Inside of brackets there is a token to go. -/
theorem exists_succ (h : Abreast F (d + 1) j x y) : ∃ i, j = i + 1 :=
  Nat.exists_eq_succ_of_ne_zero h.pos.ne'

/-- After a token that both texts have, they are abreast inside of the brackets that are then open. -/
theorem tail {kind : TokenKind} (h : Abreast F (d + 1) (j + 1) (t :: xs) (t :: ys)) (ht : t.kind = kind)
    (hne : kind ≠ .endOfInput) : Abreast F (bracketsAfter kind (d + 1)) j xs ys := by
  cases h with
  | finish hkind place => exact absurd (ht.symm.trans hkind) hne
  | token hkind place tail => exact ht ▸ tail

/-- Outside of all brackets, each text goes on in its own way. -/
theorem eq_of_closed (h : Abreast F 0 j x y) : x = F.left ∧ y = F.right := by
  cases h
  exact ⟨rfl, rfl⟩

/-- Inside of brackets the current token is the same, and stands before the parting. -/
theorem current_eq (h : Abreast F (d + 1) j c.tokens c'.tokens) :
    c'.current = c.current ∧ F.place c.current.span.start := by
  obtain ⟨t, xs, ys, i, hx, hy, -, hplace⟩ := h.exists_cons
  rw [Cursor.current, Cursor.current, hx, hy]
  exact ⟨rfl, hplace⟩

/-- A step in both texts keeps them abreast. -/
theorem next (h : Abreast F (d + 1) (j + 1) c.tokens c'.tokens) (hne : c.current.kind ≠ .endOfInput) :
    Abreast F (bracketsAfter c.current.kind (d + 1)) j c.next.tokens c'.next.tokens := by
  have hcurrent := h.current_eq.1
  have htokens' : c'.tokens = c.current :: c'.next.tokens := hcurrent ▸ Cursor.tokens_eq_cons (hcurrent ▸ hne)
  rw [Cursor.tokens_eq_cons hne, htokens'] at h
  exact h.tail rfl hne

/-- The token after the current one is the same too, unless the current one closes the last bracket. -/
theorem following_eq (h : Abreast F (d + 1) j c.tokens c'.tokens)
    (hkind : c.current.kind ≠ .punctuation .rightBracket ∨ 0 < d) : c'.following = c.following := by
  obtain ⟨x, k⟩ := c
  obtain ⟨y, l⟩ := c'
  obtain ⟨t, xs, ys, i, rfl, rfl, rfl, -⟩ := Abreast.exists_cons h
  have ht : t.kind ≠ .punctuation .rightBracket ∨ 0 < d := hkind
  cases h with
  | finish kind place => rfl
  | token kind place tail =>
    obtain ⟨d', hd'⟩ : ∃ d', bracketsAfter t.kind (d + 1) = d' + 1 := by
      refine Nat.exists_eq_succ_of_ne_zero ?_
      unfold bracketsAfter
      split
      · omega
      · next hkind => rcases ht with ht | ht <;> [exact absurd hkind ht; omega]
      · omega
    rw [hd'] at tail
    obtain ⟨t', xs', ys', i, rfl, rfl, -⟩ := tail.exists_cons
    rfl

end Abreast

/-- Two texts are the same up to the first opening bracket, and from there on to the bracket that
closes it. -/
inductive BeforeBracket (F : Parting) : Nat → List Token → List Token → Prop
  | opening {t : Token} {xs ys : List Token} {j : Nat} (kind : t.kind = .punctuation .leftBracket)
    (place : F.place t.span.start) (inside : Abreast F 1 j xs ys) :
    BeforeBracket F (j + 1) (t :: xs) (t :: ys)
  | finish {t : Token} {ts : List Token} {j : Nat} (kind : t.kind = .endOfInput)
    (place : F.place t.span.start) : BeforeBracket F (j + 1) (t :: ts) (t :: ts)
  | token {t : Token} {xs ys : List Token} {j : Nat} (kind : t.kind ≠ .endOfInput)
    (bracket : t.kind ≠ .punctuation .leftBracket) (place : F.place t.span.start)
    (tail : BeforeBracket F j xs ys) : BeforeBracket F (j + 1) (t :: xs) (t :: ys)

namespace BeforeBracket

/-- Before the bracket of a class both texts go on, with the same token. -/
theorem exists_cons (h : BeforeBracket F j x y) :
    ∃ t xs ys i, x = t :: xs ∧ y = t :: ys ∧ j = i + 1 ∧ F.place t.span.start := by
  cases h with
  | opening _ place _ | finish _ place | token _ _ place _ =>
    exact ⟨_, _, _, _, rfl, rfl, rfl, place⟩

/-- The opening bracket leads to its inside, where the texts are abreast. -/
theorem inside (h : BeforeBracket F (j + 1) (t :: xs) (t :: ys))
    (ht : t.kind = .punctuation .leftBracket) : Abreast F 1 j xs ys := by
  cases h with
  | opening _ _ inside => exact inside
  | finish kind _ => simp [ht] at kind
  | token _ bracket _ _ => exact absurd ht bracket

/-- Any other token leads closer to the bracket. -/
theorem tail {kind : TokenKind} (h : BeforeBracket F (j + 1) (t :: xs) (t :: ys)) (ht : t.kind = kind)
    (hne : kind ≠ .endOfInput) (hbracket : kind ≠ .punctuation .leftBracket) :
    BeforeBracket F j xs ys := by
  cases h with
  | opening kind _ _ => exact absurd (ht.symm.trans kind) hbracket
  | finish kind _ => exact absurd (ht.symm.trans kind) hne
  | token _ _ _ tail => exact tail

theorem current_eq (h : BeforeBracket F j c.tokens c'.tokens) :
    c'.current = c.current ∧ F.place c.current.span.start := by
  obtain ⟨t, xs, ys, i, hx, hy, -, hplace⟩ := h.exists_cons
  rw [Cursor.current, Cursor.current, hx, hy]
  exact ⟨rfl, hplace⟩

theorem tokens_eq_cons (h : BeforeBracket F j c.tokens c'.tokens) (hne : c.current.kind ≠ .endOfInput) :
    c.tokens = c.current :: c.next.tokens ∧ c'.tokens = c.current :: c'.next.tokens := by
  have hcurrent := h.current_eq.1
  exact ⟨Cursor.tokens_eq_cons hne, hcurrent ▸ Cursor.tokens_eq_cons (hcurrent ▸ hne)⟩

end BeforeBracket

/-- A span that is merged from two before the parting starts before it. -/
theorem place_merge {s s' : Span} (h : F.place s.start) (h' : F.place s'.start) :
    F.place (s.merge s').start := by
  unfold Span.merge
  split
  · exact h'
  · exact h

/-- Places in two texts that part correspond if the texts are abreast from there on. -/
def Parting.pairing (F : Parting) : Pairing where
  spans s s' := s' = s ∧ F.place s.start
  counts _ _ := True
  cursors d j c c' := Abreast F d j c.tokens c'.tokens
  heads j c c' := BeforeBracket F j c.tokens c'.tokens
  spans_merge := by
    rintro s _ t _ ⟨rfl, hs⟩ ⟨rfl, ht⟩
    exact ⟨rfl, place_merge hs ht⟩
  mono h hij := h.mono hij
  numbered h := h
  counts_nodes _ := trivial
  exists_succ h := h.exists_succ
  current h := by
    obtain ⟨hcurrent, hplace⟩ := h.current_eq
    exact ⟨by rw [hcurrent], by rw [hcurrent], by rw [hcurrent], hplace⟩
  following h hkind := by rw [h.following_eq hkind]
  next h hne := h.next hne
  heads_counts_nodes _ := trivial
  heads_exists_succ h := by
    obtain ⟨t, xs, ys, i, -, -, hj, -⟩ := h.exists_cons
    exact ⟨i, hj⟩
  heads_current h := by
    obtain ⟨hcurrent, hplace⟩ := h.current_eq
    exact ⟨by rw [hcurrent], by rw [hcurrent], by rw [hcurrent], hplace⟩
  heads_next h hne hbracket := by
    obtain ⟨htokens, htokens'⟩ := h.tokens_eq_cons hne
    rw [htokens, htokens'] at h
    exact h.tail rfl hne hbracket
  heads_opening h hbracket := by
    obtain ⟨htokens, htokens'⟩ := h.tokens_eq_cons (hbracket ▸ TokenKind.noConfusion)
    rw [htokens, htokens'] at h
    exact h.inside hbracket

end ReadM

end Smalltalk
