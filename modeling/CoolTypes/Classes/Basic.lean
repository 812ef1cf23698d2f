import CoolTypes.Syntax.Tree

/-!
# The basic classes

Every program gets five classes in front of its own: the root of the hierarchy, input and output,
and the three primitive classes. Their methods have no bodies, their slots no type of the language.
-/

namespace CoolTypes

namespace BasicClass

variable (t : SymbolTables)

/-- A well-known name. -/
def name (w : WellKnown) : Name := ⟨t.known w, .synthetic⟩

/-- A parameter. -/
def formal (n ty : WellKnown) : Formal := ⟨name t n, name t ty, .synthetic⟩

/-- A method without a body. -/
def method (n : WellKnown) (params : List (WellKnown × WellKnown)) (ret : WellKnown) : Feature :=
  .method ⟨name t n, params.map fun p => formal t p.1 p.2, name t ret, .absent .synthetic none,
    .synthetic⟩

/-- A slot for a primitive value. -/
def slot (n : WellKnown) : Feature := .attr ⟨name t n, name t .primSlot, none, .synthetic⟩

/-- A basic class. -/
def make (n parent : WellKnown) (features : List Feature) : Class :=
  ⟨name t n, name t parent, t.known .basicFile, features, .synthetic⟩

/-- All basic classes. -/
def all : List Class :=
  [make t .object .noClass
      [method t .abort [] .object, method t .typeName [] .string, method t .copy [] .selfType],
    make t .io .object
      [method t .outString [(.arg, .string)] .selfType, method t .outInt [(.arg, .int)] .selfType,
        method t .inString [] .string, method t .inInt [] .int],
    make t .int .object [slot t .val],
    make t .bool .object [slot t .val],
    make t .string .object
      [slot t .val, slot t .strField, method t .length [] .int,
        method t .concat [(.arg, .string)] .string,
        method t .substr [(.arg, .int), (.arg2, .int)] .string]]

end BasicClass

/-- The built-in classes in the order in which their names become string literals. -/
def BuiltinClass.literalOrder : List BuiltinClass := [object, bool, io, int, string]

/-- The tables with the names of the basic classes as string literals. -/
def SymbolTables.addClassLiterals (t : SymbolTables) : SymbolTables :=
  BuiltinClass.literalOrder.foldl (fun t b => (t.addString b.name).2) t

/-- The tables with these names where a symbol has 32 bits. -/
def SymbolTables.addClassLiteralsNarrow (t : SymbolTables) : Except Fault SymbolTables :=
  BuiltinClass.literalOrder.foldlM (fun t b => return (← t.addStringNarrow b.name).2) t

namespace CompilationUnit

/-- The unit with the basic classes in front and their names among its string literals. -/
def installBasicClasses (u : CompilationUnit) : CompilationUnit where
  tables := u.tables.addClassLiterals
  program := { u.program with classes := BasicClass.all u.tables ++ u.program.classes }

/-- Installs the basic classes where a symbol has 32 bits. -/
def installNarrow (u : CompilationUnit) : Except Fault CompilationUnit :=
  return { u.installBasicClasses with tables := ← u.tables.addClassLiteralsNarrow }

/-- The string literals can be numbered with 32 bits, the names of the basic classes among them. -/
def HasRoom (u : CompilationUnit) : Prop :=
  u.installBasicClasses.tables.strings.size ≤ UInt32.size

end CompilationUnit

end CoolTypes
