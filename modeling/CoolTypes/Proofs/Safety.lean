import CoolTypes.Notation.Standard
import CoolTypes.Proofs.Dump.Outline
import CoolTypes.Proofs.Room
import CoolTypes.Proofs.Syntax.Building
import CoolTypes.Proofs.Syntax.Visits
import CoolTypes.Proofs.Syntax.Walkers

/-!
# Units that pass the check of symbols

A unit that passes the check of symbols is analyzed and dumped without a fault as long as its tables have room
for the names of the basic classes, and it is symbol-valid afterwards. A builder makes symbol-valid programs, and
new texts and renaming keep them so (`symbol_check_suffices`).
-/

namespace CoolTypes

namespace CompilationUnit

variable {u : CompilationUnit}

/-- The analysis leaves a symbol-valid unit symbol-valid. -/
theorem SymbolValid.analyzed (h : u.SymbolValid) (stage : Stage) : (u.analyzed stage).SymbolValid := by
  have hu := h.installBasicClasses
  have henv : Env.SymbolValid u.installBasicClasses.tables fun _ => none :=
    fun _ _ hn => absurd hn (by simp)
  unfold CompilationUnit.analyzed
  split
  · exact (settingOf_symbolValid hu).annotateProgram henv hu
  · exact hu

/-- The analysis of a symbol-valid unit comes to an end without a fault and leaves it symbol-valid. -/
theorem SymbolValid.analyze (h : u.SymbolValid) (stage : Stage) (s : Sink) :
    ∃ a u' s', u.analyze stage s = .ok (a, u', s') ∧ u'.SymbolValid :=
  ⟨_, _, _, h.analyze_eq stage s, h.analyzed stage⟩

end CompilationUnit

end CoolTypes
