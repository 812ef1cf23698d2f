/-!
# Symbols

A symbol stands for a text of a table by the text's position in it.
-/

namespace CoolTypes

/-- A position in a table of texts. It means something only together with its table. -/
structure Symbol where
  index : Nat
deriving DecidableEq

/-- The listing of a symbol. -/
def Symbol.listing (s : Symbol) : String :=
  "Symbol(" ++ toString s.index ++ ")"

end CoolTypes
