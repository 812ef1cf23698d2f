import CoolTypes.Classes.Basic
import CoolTypes.Syntax.Occurrences
import CoolTypes.Typing.Checker

/-!
# The analysis

The analysis puts the basic classes in front of a program, checks the inheritance relation and, if
that is well formed, collects the signatures and checks the types of all code. A run uses
`analyzeNarrow`, in which the names of the basic classes need symbols of 32 bits. Apart from that it
is `analyze`.
-/

namespace CoolTypes

/-- How far the analysis goes. -/
inductive Stage where
  | inheritance
  | typing
deriving DecidableEq

/-- Emits type errors. -/
def Sink.reportTypeErrors (s : Sink) (es : List (TypeError String String)) : Sink :=
  s.reportAll (es.map .typeError)

/-- Emits reports over the texts of their symbols. -/
def Sink.reportOver (s : Sink) (t : SymbolTables) (reports : List Report) : Except Fault Sink :=
  return s.reportTypeErrors (← reports.mapM (·.spell t))

/-- Reports every symbol that has no entry in its table; tells whether there was none. -/
def CompilationUnit.checkSymbols (u : CompilationUnit) (s : Sink) : Bool × Sink :=
  let unknown := u.unknownSymbols
  (unknown.isEmpty, s.reportAll (unknown.map .unknownSymbol))

/-- Checks the inheritance relation of a unit. -/
def CompilationUnit.validate (u : CompilationUnit) (s : Sink) :
    Except Fault (Inheritance × Sink) := do
  let i := checkInheritance u.tables u.program.classes
  return (i, s.reportTypeErrors (← i.spell u.tables))

/-- Collects the signatures of a unit over a graph and checks the types of its code. -/
def CompilationUnit.checkTypes (u : CompilationUnit) (g : InheritanceGraph) (s : Sink) :
    Except Fault (Signatures × CompilationUnit × Sink) := do
  let h := ClassHierarchy.ofGraph u.tables g
  let (signatures, signatureReports) := Signatures.collect u.tables h u.program.classes
  let s ← s.reportOver u.tables signatureReports
  let Γ : Setting := ⟨u.tables, h, signatures⟩
  let (program, reports) ← Γ.run (Γ.program u.program)
  let s ← s.reportOver u.tables reports
  return (signatures, { u with program := program }, s)

/-- The outcome of an analysis. The signatures are absent if the types were not checked. -/
structure Analysis where
  success : Bool
  graph : InheritanceGraph
  signatures : Option Signatures

/-- Analyses a unit that has the basic classes up to a stage. -/
def CompilationUnit.analyzeInstalled (stage : Stage) (u : CompilationUnit) (s : Sink) :
    Except Fault (Analysis × CompilationUnit × Sink) := do
  let before := s.count
  let (i, s) ← u.validate s
  if i.isValid && stage = .typing then
    let (signatures, u, s) ← u.checkTypes i.graph s
    return (⟨s.count == before, i.graph, some signatures⟩, u, s)
  else
    return (⟨s.count == before, i.graph, none⟩, u, s)

/-- Analyses a unit up to a stage. -/
def CompilationUnit.analyze (stage : Stage) (u : CompilationUnit) (s : Sink) :
    Except Fault (Analysis × CompilationUnit × Sink) :=
  u.installBasicClasses.analyzeInstalled stage s

/-- Analyses a unit up to a stage where a symbol has 32 bits. -/
def CompilationUnit.analyzeNarrow (stage : Stage) (u : CompilationUnit) (s : Sink) :
    Except Fault (Analysis × CompilationUnit × Sink) := do
  (← u.installNarrow).analyzeInstalled stage s

end CoolTypes
