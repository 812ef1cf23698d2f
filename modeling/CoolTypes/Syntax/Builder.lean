import CoolTypes.Syntax.Tree

/-!
# Building programs

A builder makes the nodes of a program from texts and from nodes that are there already. It adds the
texts to its tables, gives every node and name the span that was set last, and leaves static types out.
-/

namespace CoolTypes

/-- The tables that texts are added to, the file of new classes, and the span of new nodes. -/
structure Builder where
  tables : SymbolTables
  file : Symbol
  span : Span := .synthetic

/-- Something that is built. -/
abbrev Build := StateM Builder

namespace Builder

/-- A builder of classes of a file. -/
def start (tables : SymbolTables) (file : String) : Builder :=
  let (file, tables) := tables.addId file
  { tables := tables, file := file }

/-- Sets the span of what is built from now on. -/
def moveTo (line col : Nat) : Build Unit :=
  modify fun b => { b with span := .point line col }

/-- The span of what is built. -/
def here : Build Span := return (← get).span

/-- The symbol of an identifier. -/
def symbol (text : String) : Build Symbol := fun b =>
  let (s, t) := b.tables.addId text
  (s, { b with tables := t })

/-- The symbol of a string literal. -/
def literal (text : String) : Build Symbol := fun b =>
  let (s, t) := b.tables.addString text
  (s, { b with tables := t })

/-- The symbol of an integer literal. -/
def number (value : Int) : Build Symbol := fun b =>
  let (s, t) := b.tables.addInt (toString value)
  (s, { b with tables := t })

/-- A name, in type position or elsewhere. -/
def name (text : String) : Build Name := return ⟨← symbol text, ← here⟩

/-! ## Expressions -/

/-- An integer literal. -/
def int (value : Int) : Build Expr := return .int (← number value) (← here) none

/-- A string literal. -/
def string (text : String) : Build Expr := return .string (← literal text) (← here) none

/-- A truth value. -/
def bool (value : Bool) : Build Expr := return .bool value (← here) none

/-- An identifier. -/
def ident (n : String) : Build Expr := return .ident (← name n) none

/-- A missing body. -/
def absent : Build Expr := return .absent (← here) none

/-- A new object. -/
def new (typeName : String) : Build Expr := return .new (← name typeName) (← here) none

/-- An assignment. -/
def assign (target : String) (value : Expr) : Build Expr :=
  return .assign (← name target) value (← here) none

/-- A block. -/
def block (body : List Expr) : Build Expr := return .block body (← here) none

/-- A condition with its branches. -/
def cond (test ifTrue ifFalse : Expr) : Build Expr :=
  return .cond test ifTrue ifFalse (← here) none

/-- A loop. -/
def loop (test body : Expr) : Build Expr := return .loop test body (← here) none

/-- A binding, of a let expression or an attribute. -/
def binding (n typeName : String) (init : Option Expr) : Build Binding :=
  return ⟨← name n, ← name typeName, init, ← here⟩

/-- A let expression. -/
def letIn (n typeName : String) (init : Option Expr) (body : Expr) : Build Expr :=
  return .letIn (← binding n typeName init) body (← here) none

/-- A case expression. -/
def caseOf (scrutinee : Expr) (arms : List Arm) : Build Expr :=
  return .caseOf scrutinee arms (← here) none

/-- A case branch. -/
def arm (n typeName : String) (body : Expr) : Build Arm :=
  return ⟨← name n, ← name typeName, body, ← here⟩

/-- An operation with two operands. -/
def binary (op : BinaryOp) (left right : Expr) : Build Expr :=
  return .binary op left right (← here) none

/-- An operation with one operand. -/
def unary (op : UnaryOp) (operand : Expr) : Build Expr :=
  return .unary op operand (← here) none

/-- A call on a receiver. -/
def callOn (receiver : Receiver) (method : String) (args : List Expr) : Build Expr :=
  return .call receiver (← name method) args (← here) none

/-- A call on an object, or on nothing written. -/
def call (object : Option Expr) (method : String) (args : List Expr) : Build Expr :=
  callOn ((object.map Receiver.dynamic).getD .implicit) method args

/-- A call on an object seen as one of a named class. -/
def staticCall (object : Expr) (typeName method : String) (args : List Expr) : Build Expr := do
  callOn (.static object (← name typeName)) method args

/-! ## Declarations -/

/-- A parameter. -/
def formal (n typeName : String) : Build Formal :=
  return ⟨← name n, ← name typeName, ← here⟩

/-- A method. -/
def method (n : String) (params : List Formal) (returnType : String) (body : Expr) :
    Build Feature :=
  return .method ⟨← name n, params, ← name returnType, body, ← here⟩

/-- An attribute. -/
def «attribute» (n typeName : String) (init : Option Expr) : Build Feature :=
  return .attr (← binding n typeName init)

/-- A class. -/
def «class» (n parent : String) (features : List Feature) : Build Class :=
  return ⟨← name n, ← name parent, (← get).file, features, ← here⟩

/-- A program. -/
def program (classes : List Class) : Build Program := return ⟨classes, ← here⟩

end Builder

end CoolTypes
