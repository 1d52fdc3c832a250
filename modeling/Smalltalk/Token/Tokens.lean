import Smalltalk.Token.Scan

/-!
# The tokens of a text

Tokens follow each other with nothing but blanks between them. Here every token gets its place, and
the end of the text becomes a token of its own.
-/

namespace Smalltalk

open Text

theorem scan_rest_length_lt_of_dropWhile {cs rest : List Char} {c : Char}
    (h : cs.dropWhile isBlank = c :: rest) : (scan c rest).rest.length < cs.length := by
  have hscan := scan_rest_length_lt c rest
  have hdrop := (List.dropWhile_sublist isBlank (l := cs)).length_le
  rw [h] at hdrop
  exact Nat.lt_of_lt_of_le hscan hdrop

/-- The tokens of the text `cs` that starts at `p`, after those in `done`. -/
def tokensFrom (done : Array Token) (p : Position) (cs : List Char) : Array Token :=
  let start := p.advance (cs.takeWhile isBlank)
  match h : cs.dropWhile isBlank with
  | [] => done.push (.finish start)
  | c :: rest =>
    have := scan_rest_length_lt_of_dropWhile h
    let scanned := scan c rest
    let stop := start.advance scanned.text
    tokensFrom (done.push ⟨scanned.kind, ⟨start, stop⟩, String.ofList scanned.text⟩) stop
      scanned.rest
termination_by cs.length

/-- The tokens of a source text, with a token for its end as the last. -/
def tokens (source : String) : List Token :=
  (tokensFrom #[] {} source.toList).toList

end Smalltalk
