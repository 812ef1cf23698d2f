/-!
# Positions and spans

A position is a line and a column, both counted from one; a span is a pair of positions, both ends
included. Nodes that come from no text have the synthetic span, one line and one column wide.
-/

namespace CoolTypes

/-- A place in a text. -/
structure Position where
  line : Nat := 1
  col : Nat := 1
deriving DecidableEq

namespace Position

/-- The written form, line before column. -/
def text (p : Position) : String :=
  toString p.line ++ ":" ++ toString p.col

/-- Text order: by line, then by column. -/
def compare (p q : Position) : Ordering :=
  (Ord.compare p.line q.line).then (Ord.compare p.col q.col)

end Position

/-- A stretch of text from one position to another. -/
structure Span where
  start : Position
  stop : Position
deriving DecidableEq

namespace Span

/-- The span that holds a single position. -/
def point (line col : Nat) : Span := ⟨⟨line, col⟩, ⟨line, col⟩⟩

/-- The span of nodes that come from no text. -/
def synthetic : Span := point 1 1

/-- A span is shown by where it starts. -/
def text (s : Span) : String := s.start.text

end Span

end CoolTypes
