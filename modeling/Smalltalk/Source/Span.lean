/-!
# Positions and spans

A position is known in three ways at once: as a byte offset into the UTF-8 form of the text, and as
a line and a column for people. Only a line feed ends a line, and columns count characters.

A span is the half-open region between two positions. Messages name the place where it starts.
-/

namespace Smalltalk

/-- A place in a source text. -/
structure Position where
  /-- Bytes of the text before this place. -/
  offset : Nat := 0
  /-- Line number, from one. -/
  line : Nat := 1
  /-- Column number in characters, from one. -/
  column : Nat := 1
  deriving DecidableEq

namespace Position

instance : Inhabited Position := ⟨{}⟩

/-- The place just after the character `c` that stands at `p`. -/
def next (p : Position) (c : Char) : Position :=
  if c = '\n' then ⟨p.offset + c.utf8Size, p.line + 1, 1⟩
  else ⟨p.offset + c.utf8Size, p.line, p.column + 1⟩

/-- The place just after the text `cs` that starts at `p`. -/
def advance (p : Position) (cs : List Char) : Position :=
  cs.foldl next p

@[simp]
theorem advance_nil (p : Position) : p.advance [] = p := rfl

@[simp]
theorem advance_cons (p : Position) (c : Char) (cs : List Char) :
    p.advance (c :: cs) = (p.next c).advance cs := rfl

theorem advance_append (p : Position) (cs ds : List Char) :
    p.advance (cs ++ ds) = (p.advance cs).advance ds := by
  simp [advance, List.foldl_append]

/-- A position as messages write it: `line:column`. -/
def text (p : Position) : String :=
  toString p.line ++ ":" ++ toString p.column

end Position

/-- The region of a text from `start` up to, and without, `stop`. -/
structure Span where
  /-- Where the region begins. -/
  start : Position := {}
  /-- The first place after the region. -/
  stop : Position := {}
  deriving DecidableEq

namespace Span

instance : Inhabited Span := ⟨{}⟩

/-- The empty region at `p`. -/
def point (p : Position) : Span := ⟨p, p⟩

/-- The smallest region that covers both. Where the two agree on an end, that of `s` is kept. -/
def merge (s t : Span) : Span :=
  { start := if t.start.offset < s.start.offset then t.start else s.start
    stop := if s.stop.offset < t.stop.offset then t.stop else s.stop }

/-- A span as messages write it: the place where it starts. -/
def text (s : Span) : String := s.start.text

/-- The merged spans of a sequence, one after each further span. -/
def merges : List Span → List Span
  | [] => []
  | s :: rest => s :: go s rest
where
  /-- The merges of `acc` with growing parts of the list. -/
  go (acc : Span) : List Span → List Span
    | [] => []
    | t :: rest => acc.merge t :: go (acc.merge t) rest

end Span

end Smalltalk
