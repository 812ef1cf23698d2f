import CoolTypes.Symbol.Tables

/-!
# Static types

A static type is a class or the self type, which stands for the class that the code runs in. Five
classes are built in; three of them are primitive, so nothing inherits from them.
-/

namespace CoolTypes

/-- A static type. -/
inductive Ty where
  | named (name : Symbol)
  | selfType
deriving DecidableEq

namespace Ty

/-- Whether this is the self type. -/
def isSelf : Ty → Bool
  | named _ => false
  | selfType => true

/-- The class that a type names, if it names one. -/
def className? : Ty → Option Symbol
  | named c => some c
  | selfType => none

/-- The class that a type stands for inside the class `current`. -/
def within (current : Symbol) : Ty → Symbol
  | named c => c
  | selfType => current

/-- The type, or another one in the place of the self type. -/
def orSelf (ty substitute : Ty) : Ty :=
  match ty with
  | named c => named c
  | selfType => substitute

/-- The text of a type. -/
def text (tables : SymbolTables) : Ty → Except Fault String
  | named c => tables.name c
  | selfType => .ok "SELF_TYPE"

end Ty

/-- A class that every program has. -/
inductive BuiltinClass where
  | object | io | int | bool | string
deriving DecidableEq

namespace BuiltinClass

/-- All built-in classes. -/
def all : List BuiltinClass := [object, io, int, bool, string]

/-- The well-known name of a built-in class. -/
def wellKnown : BuiltinClass → WellKnown
  | object => .object
  | io => .io
  | int => .int
  | bool => .bool
  | string => .string

/-- The name of a built-in class. -/
def name (b : BuiltinClass) : String := b.wellKnown.text

/-- The symbol of a built-in class. -/
def symbol (tables : SymbolTables) (b : BuiltinClass) : Symbol := tables.known b.wellKnown

/-- Primitive classes are final and compared by value. -/
def isPrimitive : BuiltinClass → Bool
  | object | io => false
  | int | bool | string => true

/-- The built-in class of a name. -/
def ofName? (text : String) : Option BuiltinClass := all.find? (·.name == text)

/-- The built-in class that a symbol names. -/
def ofSymbol? (tables : SymbolTables) (s : Symbol) : Option BuiltinClass :=
  all.find? (·.symbol tables == s)

end BuiltinClass

/-- Whether a type is a given built-in class. -/
def Ty.isBuiltin (tables : SymbolTables) (b : BuiltinClass) (t : Ty) : Bool :=
  t == .named (b.symbol tables)

end CoolTypes
