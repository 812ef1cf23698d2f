import CoolTypes.Classes.Inheritance

/-!
# The class hierarchy

Conformance and least common ancestors over an acyclic inheritance graph.
-/

namespace CoolTypes

/-- A class and its ancestors, at most `fuel` of them above it. -/
def InheritanceGraph.chain (g : InheritanceGraph) : Nat → Symbol → List Symbol
  | 0, c => [c]
  | fuel + 1, c =>
    match g.get? c with
    | some parent => c :: chain g fuel parent
    | none => [c]

/-- The last pair of a common beginning of two lists. -/
def lastCommon : List Symbol → List Symbol → Option Symbol
  | a :: as, b :: bs => if a = b then (lastCommon as bs).or (some a) else none
  | _, _ => none

/-- An acyclic inheritance graph with its root. -/
structure ClassHierarchy where
  graph : InheritanceGraph
  root : Symbol

namespace ClassHierarchy

variable (h : ClassHierarchy)

/-- The hierarchy of a graph over the root class of the tables. -/
def ofGraph (t : SymbolTables) (g : InheritanceGraph) : ClassHierarchy := ⟨g, t.known .object⟩

/-- Whether a class is the root or has a parent. -/
def contains (c : Symbol) : Bool := c == h.root || h.graph.contains c

/-- A class, its parent and so on. The classes with a parent are distinct on such a chain, so the
number of edges bounds it. -/
def ancestors (c : Symbol) : List Symbol := InheritanceGraph.chain h.graph h.graph.size c

/-- Number of classes from a class up to its topmost ancestor. -/
def depth (c : Symbol) : Nat := (h.ancestors c).length

/-- Whether one class is another or inherits from it. -/
def isSubclass (c ancestor : Symbol) : Bool := (h.ancestors c).contains ancestor

/-- Whether a type can stand where another is expected, inside the class `current`. Only the self
type conforms to the self type. -/
def conforms (current : Symbol) : Ty → Ty → Bool
  | .selfType, .selfType => true
  | .named _, .selfType => false
  | ty, .named expected => h.isSubclass (ty.within current) expected

/-- The least common ancestor of two types inside the class `current`. -/
def join (current : Symbol) (a b : Ty) : Symbol :=
  let x := a.within current
  let y := b.within current
  if x = y then x
  else (lastCommon (h.ancestors x).reverse (h.ancestors y).reverse).getD h.root

/-- The least common ancestor of several types. -/
def joinAll? (current : Symbol) : List Ty → Option Symbol
  | [] => none
  | ty :: rest =>
    some (rest.foldl (fun c ty => h.join current (.named c) ty) (ty.within current))

end ClassHierarchy

end CoolTypes
