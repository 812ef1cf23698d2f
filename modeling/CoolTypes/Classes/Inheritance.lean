import CoolTypes.Diagnostics.TypeError
import CoolTypes.Symbol.Map
import CoolTypes.Syntax.Tree

/-!
# Inheritance

The check of the classes records an edge from each class to its parent, unless the class breaks a
rule. The hierarchy is well formed if no rule is broken, a main class exists and the edges close no
cycle.
-/

namespace CoolTypes

/-- The parent of each class that has been accepted, in order of declaration. -/
abbrev InheritanceGraph := SymbolMap Symbol

/-! ## Rules for a single class -/

/-- What the check of one class finds. -/
structure ClassVerdict where
  parent : Symbol
  reports : List Report
  edge : Option (Symbol × Symbol)

/-- Inheriting from a primitive class is forbidden. -/
def checkParent (t : SymbolTables) (c : Class) : List Report :=
  match BuiltinClass.ofSymbol? t c.parent.symbol with
  | some b =>
    if b.isPrimitive then [(Violation.illegalParent c.name.symbol b).place c.parent.span] else []
  | none => []

/-- A class name can be defined once; `earlier` are the names defined so far. -/
def checkFresh (t : SymbolTables) (earlier : List Symbol) (c : Class) : List Report :=
  if c.name.symbol ∈ earlier then
    match BuiltinClass.ofSymbol? t c.name.symbol with
    | some b => [(Violation.builtinRedefined b).place c.name.span]
    | none => [(Violation.multipleClassDefinition c.name.symbol).place c.name.span]
  else []

/-- No class is called like the self type. -/
def checkClassName (t : SymbolTables) (c : Class) : List Report :=
  if c.name.symbol = t.known .selfType then
    [(Violation.illegalSelfType .className).place c.name.span]
  else []

/-- Every class but the root has a parent among the declared classes. -/
def checkDeclaredParent (t : SymbolTables) (declared : List Symbol) (c : Class) : List Report :=
  if c.name.symbol ≠ t.known .object ∧ c.parent.symbol ∉ declared then
    [(Violation.unresolvedParent c.name.symbol c.parent.symbol).place c.parent.span]
  else []

/-- The verdict on a class. The root never gets an edge. -/
def checkClass (t : SymbolTables) (declared earlier : List Symbol) (c : Class) : ClassVerdict :=
  let reports :=
    checkParent t c ++ checkFresh t earlier c ++ checkClassName t c ++
      checkDeclaredParent t declared c
  { parent := c.parent.symbol
    reports := reports
    edge :=
      if reports.isEmpty ∧ c.name.symbol ≠ t.known .object then
        some (c.name.symbol, c.parent.symbol)
      else none }

/-- The verdicts on classes in order. -/
def checkClasses (t : SymbolTables) (declared : List Symbol) (earlier : List Symbol) :
    List Class → List ClassVerdict
  | [] => []
  | c :: rest =>
    checkClass t declared earlier c :: checkClasses t declared (c.name.symbol :: earlier) rest

/-! ## Cycles -/

/-- What is known of a class after a walk along its parents. -/
inductive Fate where
  | settled
  | cyclic
deriving DecidableEq

/-- The end of a walk: the fate of the classes on its path, and the class at which it closed a
cycle, if it did. -/
structure WalkEnd where
  fate : Fate
  path : List Symbol
  closing : Option Symbol

/-- Follows parents until the root, a class of known fate, a class of the same walk or a class
without parent. -/
def walkUp (g : InheritanceGraph) (root : Symbol) (fates : SymbolMap Fate) :
    Nat → List Symbol → Symbol → WalkEnd
  | 0, path, _ => ⟨.settled, path, none⟩
  | fuel + 1, path, node =>
    if node = root then ⟨.settled, path, none⟩
    else match fates.get? node with
      | some fate => ⟨fate, path, none⟩
      | none =>
        if node ∈ path then ⟨.cyclic, path, some node⟩
        else match g.get? node with
          | some parent => walkUp g root fates fuel (node :: path) parent
          | none => ⟨.settled, node :: path, none⟩

/-- What the walks so far have found: the fate of each class on them, the classes at which cycles were
closed, and whether none of the walks ended in a cycle. -/
structure Search where
  fates : SymbolMap Fate := .empty
  closing : List Symbol := []
  acyclic : Bool := true

/-- Walks from one class and notes the fate of each class on the way. A walk meets each class with a
parent once before it ends, so the number of edges bounds it. -/
def searchFrom (g : InheritanceGraph) (root : Symbol) (found : Search) (start : Symbol) : Search :=
  let stop := walkUp g root found.fates (g.size + 2) [] start
  { fates := stop.path.foldl (fun fates node => fates.insert node stop.fate) found.fates
    closing := found.closing ++ stop.closing.toList
    acyclic := found.acyclic && stop.fate == .settled }

/-- Walks from each class that has a parent, in the order of the edges. -/
def InheritanceGraph.search (g : InheritanceGraph) (root : Symbol) : Search :=
  g.keys.foldl (searchFrom g root) {}

/-! ## The whole check -/

/-- The outcome of the check of all classes. -/
structure Inheritance where
  verdicts : List ClassVerdict
  graph : InheritanceGraph
  closing : List Report
  acyclic : Bool

/-- Where a class is first defined. -/
def definedAt (classes : List Class) (name : Symbol) : Span :=
  match classes.find? (·.name.symbol == name) with
  | some c => c.name.span
  | none => .synthetic

/-- Checks the inheritance relation of classes. -/
def checkInheritance (t : SymbolTables) (classes : List Class) : Inheritance :=
  let declared := classes.map (·.name.symbol)
  let verdicts := checkClasses t declared [] classes
  let graph := SymbolMap.ofList (verdicts.filterMap (·.edge))
  let search := InheritanceGraph.search graph (t.known .object)
  { verdicts := verdicts
    graph := graph
    closing :=
      (if t.known .main ∈ declared then []
        else [Violation.noMainClass.place .synthetic]) ++
      search.closing.map fun c => (Violation.inheritanceCycle c).place (definedAt classes c)
    acyclic := search.acyclic }

namespace Inheritance

/-- Everything that the check reports, in order. -/
def reports (i : Inheritance) : List Report :=
  i.verdicts.flatMap (·.reports) ++ i.closing

/-- Whether the hierarchy is well formed. A walk into a cycle that has been reported before counts
against it without a report of its own. -/
def isValid (i : Inheritance) : Bool := i.reports.isEmpty && i.acyclic

/-- The reports over texts. The check of a class reads the name of its parent first. -/
def spell (i : Inheritance) (t : SymbolTables) :
    Except Fault (List (TypeError String String)) := do
  let own ← i.verdicts.mapM fun v => do
    let _ ← t.name v.parent
    v.reports.mapM (·.spell t)
  return own.flatten ++ (← i.closing.mapM (·.spell t))

end Inheritance

end CoolTypes
