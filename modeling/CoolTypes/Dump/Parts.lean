import CoolTypes.Dump.Listing
import CoolTypes.Source.Span
import CoolTypes.Syntax.Ty

/-!
# Listings of symbols, spans and types

The parts that listings of programs and of diagnostics share.
-/

namespace CoolTypes

/-- The structure of a symbol. -/
def Symbol.toListing (s : Symbol) : Listing := .group "Symbol" [.nat s.index]

/-- The structure of a position. -/
def Position.toListing (p : Position) : Listing :=
  .record "Position" [("line", .nat p.line), ("col", .nat p.col)] false

/-- The structure of a span. -/
def Span.toListing (s : Span) : Listing :=
  .record "Span" [("start", s.start.toListing), ("end", s.stop.toListing)] false

/-- The structure of a static type. -/
def Ty.toListing : Ty → Listing
  | named c => .group "Class" [c.toListing]
  | selfType => .atom "SelfType"

end CoolTypes
