import CoolTypes.Symbol.Basic

/-!
# Faults

A fault is a broken obligation of a caller: an operation was used where it has no meaning. A run
stops at its first fault.
-/

namespace CoolTypes

/-- Why an operation has no result. -/
inductive Fault where
  /-- A symbol was looked up in a table that has no such entry. -/
  | foreignSymbol (symbol : Symbol)
  /-- The static type of an expression was asked for before it was checked. -/
  | uncheckedExpr
  /-- The outermost scope was closed. -/
  | outermostScope
  /-- A diagnostic was emitted without a message. -/
  | missingMessage
  /-- A table got more entries than there are symbols. -/
  | tableOverflow
deriving DecidableEq

/-- The text of a fault. -/
def Fault.message : Fault → String
  | .foreignSymbol s => "the symbol " ++ s.listing ++ " does not belong to this table"
  | .uncheckedExpr => "unwrap_ty called on an unchecked expression"
  | .outermostScope => "the outermost scope cannot be popped"
  | .missingMessage => "message must be set"
  | .tableOverflow => "the symbol table has overflown: TryFromIntError(())"

end CoolTypes
