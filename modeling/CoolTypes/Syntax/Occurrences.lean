import CoolTypes.Diagnostics.Sink
import CoolTypes.Syntax.Walk

/-!
# Occurrences of symbols

A unit is sound if every symbol of its program has an entry in its own table. The check lists the
occurrences of symbols in the order of a walk and reports those without entry.
-/

namespace CoolTypes

/-- A symbol in a program, the table it belongs to, and where it stands. -/
structure Occurrence where
  table : TableKind
  symbol : Symbol
  span : Span
deriving DecidableEq

/-- The symbol that a node holds itself, if it holds one. -/
def Visit.occurrence? : Visit → Option Occurrence
  | .class file span => some ⟨.ids, file, span⟩
  | .expr (some (.named c)) span => some ⟨.ids, c, span⟩
  | .name n => some ⟨.ids, n.symbol, n.span⟩
  | .int v span => some ⟨.ints, v, span⟩
  | .string v span => some ⟨.strings, v, span⟩
  | _ => none

/-- The occurrences of symbols in a program. -/
def Program.occurrences (p : Program) : List Occurrence :=
  p.visits.filterMap Visit.occurrence?

/-- A table of a unit. -/
def SymbolTables.table (t : SymbolTables) : TableKind → Interner
  | .ids => t.ids
  | .strings => t.strings
  | .ints => t.ints

/-- What is wrong with an occurrence, if anything is. -/
def Occurrence.unknown? (t : SymbolTables) (o : Occurrence) : Option UnknownSymbol :=
  if (t.table o.table).contains o.symbol then none
  else some ⟨o.table, o.symbol.index, (t.table o.table).size, o.span⟩

/-- The occurrences without entry. -/
def CompilationUnit.unknownSymbols (u : CompilationUnit) : List UnknownSymbol :=
  u.program.occurrences.filterMap (·.unknown? u.tables)

end CoolTypes
