import CoolTypes.Classes.Hierarchy

/-!
# Signatures

The signatures of a program are, for each class, the methods and attributes that can be used in it,
the inherited ones included, with the class that defines each. They are collected from the root
down, so the table of a class starts as that of its parent.
-/

namespace CoolTypes

/-- The type of a method. -/
structure MethodSig where
  params : List Ty
  ret : Ty
  definedIn : Symbol
deriving DecidableEq

/-- The type of an attribute. -/
structure AttrSig where
  ty : Ty
  definedIn : Symbol
deriving DecidableEq

/-- What can be used in a class. -/
structure ClassTable where
  parent : Option Symbol := none
  methods : SymbolMap MethodSig := .empty
  attrs : SymbolMap AttrSig := .empty

/-- The tables of all classes. -/
structure Signatures where
  classes : SymbolMap ClassTable
  selfType : Symbol

namespace Signatures

variable (s : Signatures)

/-- The table of a class. -/
def get? (c : Symbol) : Option ClassTable := s.classes.get? c

/-- Whether a class is declared. -/
def contains (c : Symbol) : Bool := s.classes.contains c

/-- A method that can be called on objects of a class. -/
def method? (c name : Symbol) : Option MethodSig := do (← s.get? c).methods.get? name

/-- An attribute that can be used in a class. -/
def attr? (c name : Symbol) : Option AttrSig := do (← s.get? c).attrs.get? name

/-- The type that a name stands for. -/
def resolve? (n : Symbol) : Option Ty :=
  if n = s.selfType then some .selfType
  else if s.contains n then some (.named n)
  else none

end Signatures

/-- How the signature of a method differs from the one that it overrides. -/
def MethodSig.mismatch? (inherited own : MethodSig) : Option Mismatch :=
  if inherited.params.length ≠ own.params.length then
    some (.paramCount inherited.params.length own.params.length)
  else match (inherited.params.zip own.params).findIdx? fun p => p.1 != p.2 with
    | some i => some (.paramType i)
    | none => if inherited.ret = own.ret then none else some .returnType

/-! ## Collecting -/

namespace Signatures

/-- The tables and the hierarchy that signatures are collected over. -/
structure Ground where
  tables : SymbolTables
  hierarchy : ClassHierarchy

variable (Γ : Ground)

/-- The type of a declaration. An undeclared one is reported and read as the root class. -/
def declaredType (n : Name) : Ty × List Report :=
  if n.symbol = Γ.tables.known .selfType then (.selfType, [])
  else if Γ.hierarchy.contains n.symbol then (.named n.symbol, [])
  else (.named Γ.hierarchy.root, [(Violation.undeclaredType n.symbol).place n.span])

/-- The type of a parameter, which is never the self type. -/
def paramType (n : Name) : Ty × List Report :=
  match declaredType Γ n with
  | (.selfType, reports) =>
    (.named Γ.hierarchy.root, reports ++ [(Violation.illegalSelfType .parameter).place n.span])
  | (.named c, reports) => (.named c, reports)

/-- The type of an attribute. The slots of basic classes have a type of their own. -/
def attrType (basic : Bool) (n : Name) : Ty × List Report :=
  if basic ∧ n.symbol = Γ.tables.known .primSlot then (.named n.symbol, [])
  else declaredType Γ n

/-- The signature that a method of a class declares. -/
def methodSig (c : Symbol) (m : Method) : MethodSig × List Report :=
  let params := m.params.map fun f => paramType Γ f.typeName
  let ret := declaredType Γ m.returnType
  (⟨params.map (·.1), ret.1, c⟩, params.flatMap (·.2) ++ ret.2)

/-- A table and what has been reported so far. -/
abbrev Collected := ClassTable × List Report

/-- Adds an attribute of a class. The first definition counts, inherited ones included. -/
def addAttr (c : Symbol) (basic : Bool) (acc : Collected) (b : Binding) : Collected :=
  let ty := attrType Γ basic b.typeName
  let name := b.name.symbol
  if name = Γ.tables.known .self then
    (acc.1, acc.2 ++ ty.2 ++ [Violation.illegalSelf.place b.name.span])
  else match acc.1.attrs.get? name with
    | some previous =>
      (acc.1, acc.2 ++ ty.2 ++
        [(Violation.multipleDefinition (.attr (previous.definedIn != c)) name).place b.name.span])
    | none => ({ acc.1 with attrs := acc.1.attrs.insert name ⟨ty.1, c⟩ }, acc.2 ++ ty.2)

/-- Adds a method of a class. The first definition of the class counts, and it takes the place of an
inherited one. -/
def addMethod (c : Symbol) (acc : Collected) (m : Method) : Collected :=
  let sig := methodSig Γ c m
  let name := m.name.symbol
  let table := { acc.1 with methods := acc.1.methods.insert name sig.1 }
  match acc.1.methods.get? name with
  | none => (table, acc.2 ++ sig.2)
  | some previous =>
    if previous.definedIn = c then
      (acc.1, acc.2 ++ sig.2 ++ [(Violation.multipleDefinition .method name).place m.name.span])
    else match previous.mismatch? sig.1 with
      | none => (table, acc.2 ++ sig.2)
      | some mismatch =>
        (table, acc.2 ++ sig.2 ++
          [(Violation.invalidOverride name previous.definedIn mismatch).place m.name.span])

/-- The table with which a class starts. -/
def inherited (s : Signatures) (c : Symbol) : ClassTable :=
  match Γ.hierarchy.graph.get? c with
  | none => {}
  | some parent => { (s.get? parent).getD {} with parent := some parent }

/-- Adds a class; a repeated one is left out. -/
def addClass (acc : Signatures × List Report) (c : Class) : Signatures × List Report :=
  let name := c.name.symbol
  if acc.1.contains name then acc
  else
    let basic := c.file == Γ.tables.known .basicFile
    let start := (inherited Γ acc.1 name, acc.2)
    let withAttrs := c.attributes.foldl (addAttr Γ name basic) start
    let done := c.methods.foldl (addMethod Γ name) withAttrs
    ({ acc.1 with classes := acc.1.classes.insert name done.1 }, done.2)

/-- The classes of the hierarchy, parents before children, else in the order of their list. -/
def rootFirst (h : ClassHierarchy) (classes : List Class) : List Class :=
  let known := classes.filter fun c => h.contains c.name.symbol
  (List.range (h.graph.size + 2)).flatMap fun depth =>
    known.filter fun c => h.depth c.name.symbol == depth

/-- Collects the signatures of classes, with what is to be reported about them. -/
def collect (t : SymbolTables) (h : ClassHierarchy) (classes : List Class) :
    Signatures × List Report :=
  (rootFirst h classes).foldl (addClass ⟨t, h⟩) (⟨.empty, t.known .selfType⟩, [])

end Signatures

end CoolTypes
