/-!
# Ranges of code points

A property of characters is a table: the code points that have it, as ascending ranges with both
ends included. Looking up a code point stops at the first range above it.
-/

namespace Smalltalk.Text

/-- Code points as ascending, disjoint ranges, both ends included. -/
abbrev CodeRanges := List (Nat × Nat)

/-- Whether some range of the table holds the code point `n`. -/
def CodeRanges.contains : CodeRanges → Nat → Bool
  | [], _ => false
  | (low, high) :: rest, n =>
    if n < low then false else if n ≤ high then true else CodeRanges.contains rest n

end Smalltalk.Text
