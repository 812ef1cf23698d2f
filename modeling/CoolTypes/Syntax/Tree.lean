import CoolTypes.Source.Span
import CoolTypes.Syntax.Ty

/-!
# Programs

A program is a list of classes, a class a list of methods and attributes, and their code is made of
expressions. Names and literals are symbols; each node has a span, and each expression can carry the
static type that the type check found for it.
-/

namespace CoolTypes

/-- An occurrence of a name. -/
structure Name where
  symbol : Symbol
  span : Span
deriving DecidableEq

/-- The operators with two operands. -/
inductive BinaryOp where
  | add | subtract | multiply | divide | lessThan | lessEquals | equals
deriving DecidableEq

/-- The operators with one operand. -/
inductive UnaryOp where
  | isVoid | complement | not
deriving DecidableEq

namespace BinaryOp

/-- All operators with two operands. -/
def all : List BinaryOp := [add, subtract, multiply, divide, lessThan, lessEquals, equals]

/-- The source spelling of an operator. -/
def spelling : BinaryOp → String
  | add => "+"
  | subtract => "-"
  | multiply => "*"
  | divide => "/"
  | lessThan => "<"
  | lessEquals => "<="
  | equals => "="

/-- The name of an operator in written units and listings. -/
def title : BinaryOp → String
  | add => "Add"
  | subtract => "Subtract"
  | multiply => "Multiply"
  | divide => "Divide"
  | lessThan => "LessThan"
  | lessEquals => "LessEquals"
  | equals => "Equals"

end BinaryOp

namespace UnaryOp

/-- All operators with one operand. -/
def all : List UnaryOp := [isVoid, complement, not]

/-- The source spelling of an operator. -/
def spelling : UnaryOp → String
  | isVoid => "isvoid"
  | complement => "~"
  | not => "not"

/-- The name of an operator in written units and listings. -/
def title : UnaryOp → String
  | isVoid => "IsVoid"
  | complement => "Complement"
  | not => "Not"

end UnaryOp

/-- The form of an expression. -/
inductive ExprForm where
  | assign | call | cond | loop | block | letIn | caseOf | new | binary | unary | ident
  | int | string | bool | absent
deriving DecidableEq

namespace ExprForm

/-- All forms of expressions. -/
def all : List ExprForm :=
  [assign, call, cond, loop, block, letIn, caseOf, new, binary, unary, ident, int, string, bool,
    absent]

/-- The name of a form in written units and listings. -/
def title : ExprForm → String
  | assign => "Assignment"
  | call => "Call"
  | cond => "If"
  | loop => "While"
  | block => "Block"
  | letIn => "Let"
  | caseOf => "Case"
  | new => "New"
  | binary => "BinOp"
  | unary => "UnOp"
  | ident => "Name"
  | int => "Int"
  | string => "String"
  | bool => "Bool"
  | absent => "NoExpr"

/-- The name of the record that an expression of a form holds. -/
def recordTitle : ExprForm → String
  | binary => "BinOpExpr"
  | unary => "UnOpExpr"
  | ident => "NameExpr"
  | int => "IntLit"
  | string => "StringLit"
  | bool => "BoolLit"
  | form => form.title

/-- The form of a name. -/
def ofTitle? (title : String) : Option ExprForm := all.find? (·.title == title)

end ExprForm

mutual

/-- An expression with its span and, once it has been checked, its static type. The span of an
identifier is that of its name. -/
inductive Expr where
  | assign (target : Name) (value : Expr) (span : Span) (ty : Option Ty)
  | call (receiver : Receiver) (method : Name) (args : List Expr) (span : Span) (ty : Option Ty)
  | cond (test ifTrue ifFalse : Expr) (span : Span) (ty : Option Ty)
  | loop (test body : Expr) (span : Span) (ty : Option Ty)
  | block (body : List Expr) (span : Span) (ty : Option Ty)
  | letIn (binding : Binding) (body : Expr) (span : Span) (ty : Option Ty)
  | caseOf (scrutinee : Expr) (arms : List Arm) (span : Span) (ty : Option Ty)
  | new (typeName : Name) (span : Span) (ty : Option Ty)
  | binary (op : BinaryOp) (left right : Expr) (span : Span) (ty : Option Ty)
  | unary (op : UnaryOp) (operand : Expr) (span : Span) (ty : Option Ty)
  | ident (name : Name) (ty : Option Ty)
  | int (value : Symbol) (span : Span) (ty : Option Ty)
  | string (value : Symbol) (span : Span) (ty : Option Ty)
  | bool (value : Bool) (span : Span) (ty : Option Ty)
  | absent (span : Span) (ty : Option Ty)

/-- What a method is called on: nothing written (`self` is meant), an object, or an object seen as
one of a named class. -/
inductive Receiver where
  | implicit
  | dynamic (object : Expr)
  | static (object : Expr) (typeName : Name)

/-- A typed name with an optional initial value. -/
structure Binding where
  name : Name
  typeName : Name
  init : Option Expr
  span : Span

/-- A branch of a case expression. -/
structure Arm where
  name : Name
  typeName : Name
  body : Expr
  span : Span

end

/-- A parameter of a method. -/
structure Formal where
  name : Name
  typeName : Name
  span : Span
deriving DecidableEq

/-- A method of a class. -/
structure Method where
  name : Name
  params : List Formal
  returnType : Name
  body : Expr
  span : Span

/-- A member of a class. -/
inductive Feature where
  | method (m : Method)
  | attr (binding : Binding)

/-- A class. The parent of the root class is a name that no class has. -/
structure Class where
  name : Name
  parent : Name
  file : Symbol
  features : List Feature
  span : Span

/-- A program. -/
structure Program where
  classes : List Class
  span : Span

/-- A program with the tables that its symbols belong to. -/
structure CompilationUnit where
  tables : SymbolTables
  program : Program

namespace Expr

/-- The span of an expression. -/
def span : Expr → Span
  | assign _ _ s _ | call _ _ _ s _ | cond _ _ _ s _ | loop _ _ s _ | block _ s _
  | letIn _ _ s _ | caseOf _ _ s _ | new _ s _ | binary _ _ _ s _ | unary _ _ s _
  | int _ s _ | string _ s _ | bool _ s _ | absent s _ => s
  | ident n _ => n.span

/-- The static type of an expression, if it has been checked. -/
def ty : Expr → Option Ty
  | assign _ _ _ t | call _ _ _ _ t | cond _ _ _ _ t | loop _ _ _ t | block _ _ t
  | letIn _ _ _ t | caseOf _ _ _ t | new _ _ t | binary _ _ _ _ t | unary _ _ _ t
  | ident _ t | int _ _ t | string _ _ t | bool _ _ t | absent _ t => t

/-- Whether the expression is the missing body of a built-in method. -/
def isAbsent : Expr → Bool
  | absent _ _ => true
  | _ => false

/-- The static type of an expression that has been checked. -/
def requireTy (e : Expr) : Except Fault Ty :=
  match e.ty with
  | some t => .ok t
  | none => .error .uncheckedExpr

end Expr

namespace Feature

/-- The method that a feature is, if it is one. -/
def method? : Feature → Option Method
  | method m => some m
  | attr _ => none

/-- The attribute that a feature is, if it is one. -/
def attr? : Feature → Option Binding
  | method _ => none
  | attr b => some b

/-- The span of a feature. -/
def span : Feature → Span
  | method m => m.span
  | attr b => b.span

end Feature

/-- The methods of a class in order. -/
def Class.methods (c : Class) : List Method := c.features.filterMap (·.method?)

/-- The attributes of a class in order. -/
def Class.attributes (c : Class) : List Binding := c.features.filterMap (·.attr?)

theorem Class.feature_of_mem_methods {c : Class} {m : Method} (h : m ∈ c.methods) :
    .method m ∈ c.features := by
  obtain ⟨f, hf, hm⟩ := List.mem_filterMap.mp h
  cases f with
  | method m' => exact Option.some.inj hm ▸ hf
  | attr b => cases hm

theorem Class.feature_of_mem_attributes {c : Class} {b : Binding} (h : b ∈ c.attributes) :
    .attr b ∈ c.features := by
  obtain ⟨f, hf, hb⟩ := List.mem_filterMap.mp h
  cases f with
  | method m => cases hb
  | attr b' => exact Option.some.inj hb ▸ hf

end CoolTypes
