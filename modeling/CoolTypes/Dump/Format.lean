import CoolTypes.Dump.Outline
import CoolTypes.Dump.Program
import CoolTypes.Notation.Codec
import CoolTypes.Unit.Encode

/-!
# Dumps

A unit is dumped as an outline, as a listing of its program, or as a text that can be loaded again. The last
one is printed by a codec, which may refuse to.
-/

namespace CoolTypes

/-- The form of a dump. -/
inductive DumpFormat where
  | outline | listing | loadable
deriving DecidableEq

/-- The text of a unit that can be loaded again, or why there is none. -/
def Notation.Codec.dump (c : Codec) (u : CompilationUnit) : Except String String :=
  return (← c.print u.toValue) ++ "\n"

/-- A dump: its text, or why there is none. -/
def CompilationUnit.dump (c : Notation.Codec) (u : CompilationUnit) :
    DumpFormat → Except Fault (Except String String)
  | .outline => return .ok (← u.program.outline u.tables)
  | .listing => .ok (.ok (u.program.toListing.page 0 ++ "\n"))
  | .loadable => .ok (c.dump u)

end CoolTypes
