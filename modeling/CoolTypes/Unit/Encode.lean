import CoolTypes.Notation.Value
import CoolTypes.Syntax.Tree

/-!
# Units as values

The value of a unit in the object notation. Records have no names of their own, an expression or
feature is a group named for its form, and a static type that is not known is left out.
-/

namespace CoolTypes

open Notation

/-- The value of a symbol. -/
def Symbol.toValue (s : Symbol) : Value := .nat s.index

/-- The value of a position. -/
def Position.toValue (p : Position) : Value :=
  .record none [("line", .nat p.line), ("col", .nat p.col)]

/-- The value of a span. -/
def Span.toValue (s : Span) : Value :=
  .record none [("start", s.start.toValue), ("end", s.stop.toValue)]

/-- The value of a name. -/
def Name.toValue (n : Name) : Value :=
  .record none [("value", n.symbol.toValue), ("span", n.span.toValue)]

/-- The value of a static type. -/
def Ty.toValue : Ty → Value
  | named c => .group (some "Class") [c.toValue]
  | selfType => .word "SelfType"

/-- The value of something that may be absent. -/
def Notation.Value.option : Option Value → Value
  | none => .word "None"
  | some v => .group (some "Some") [v]

/-- An expression is a group named for its form around a record. -/
def Notation.Value.node (form : ExprForm) (fields : List (String × Value)) (ty : Option Ty) :
    Value :=
  .group (some form.title) [.record none (fields ++
    match ty with
    | none => []
    | some ty => [("ty", .option (some ty.toValue))])]

/-- The value of a binding around that of its initial value. -/
def Notation.Value.binding (name typeName : Name) (init : Option Value) (span : Span) : Value :=
  .record none
    [("name", name.toValue), ("ty_name", typeName.toValue), ("init", .option init),
      ("span", span.toValue)]

mutual

/-- The value of an expression. -/
def Expr.toValue : Expr → Value
  | .assign n e s t =>
    .node .assign [("name", n.toValue), ("expr", e.toValue), ("span", s.toValue)] t
  | .call r m args s t =>
    .node .call
      [("receiver", match r with
          | .implicit => .word "Implicit"
          | .dynamic o => .group (some "Dynamic") [o.toValue]
          | .static o n =>
            .record (some "Static") [("object", o.toValue), ("ty_name", n.toValue)]),
        ("method", m.toValue), ("args", .list (exprValues args)), ("span", s.toValue)] t
  | .cond a b c s t =>
    .node .cond
      [("antecedent", a.toValue), ("consequent", b.toValue), ("alternative", c.toValue),
        ("span", s.toValue)] t
  | .loop a b s t =>
    .node .loop [("condition", a.toValue), ("body", b.toValue), ("span", s.toValue)] t
  | .block es s t => .node .block [("body", .list (exprValues es)), ("span", s.toValue)] t
  | .letIn ⟨n, ty, init, bs⟩ e s t =>
    .node .letIn
      [("binding", .binding n ty (match init with
          | none => none
          | some i => some i.toValue) bs),
        ("expr", e.toValue), ("span", s.toValue)] t
  | .caseOf e arms s t =>
    .node .caseOf
      [("scrutinee", e.toValue), ("arms", .list (armValues arms)), ("span", s.toValue)] t
  | .new n s t => .node .new [("ty_name", n.toValue), ("span", s.toValue)] t
  | .binary op a b s t =>
    .node .binary
      [("op", .word op.title), ("lhs", a.toValue), ("rhs", b.toValue), ("span", s.toValue)] t
  | .unary op a s t =>
    .node .unary [("op", .word op.title), ("expr", a.toValue), ("span", s.toValue)] t
  | .ident n t => .node .ident [("name", n.toValue)] t
  | .int v s t => .node .int [("value", v.toValue), ("span", s.toValue)] t
  | .string v s t => .node .string [("value", v.toValue), ("span", s.toValue)] t
  | .bool v s t => .node .bool [("value", .word (toString v)), ("span", s.toValue)] t
  | .absent s t => .node .absent [("span", s.toValue)] t

/-- The values of expressions. -/
def exprValues : List Expr → List Value
  | [] => []
  | e :: rest => e.toValue :: exprValues rest

/-- The values of case branches. -/
def armValues : List Arm → List Value
  | [] => []
  | ⟨n, ty, e, s⟩ :: rest =>
    .record none
      [("name", n.toValue), ("ty_name", ty.toValue), ("expr", e.toValue), ("span", s.toValue)] ::
      armValues rest

end

/-- The value of a parameter. -/
def Formal.toValue (f : Formal) : Value :=
  .record none
    [("name", f.name.toValue), ("ty_name", f.typeName.toValue), ("span", f.span.toValue)]

/-- The value of a feature. An attribute is a wrapper around its binding. -/
def Feature.toValue : Feature → Value
  | .method m =>
    .group (some "Method") [.record none
      [("name", m.name.toValue), ("params", .list (m.params.map Formal.toValue)),
        ("return_ty", m.returnType.toValue), ("body", m.body.toValue), ("span", m.span.toValue)]]
  | .attr b =>
    .group (some "Attribute") [.group none
      [.binding b.name b.typeName (b.init.map Expr.toValue) b.span]]

/-- The value of a class. -/
def Class.toValue (c : Class) : Value :=
  .record none
    [("name", c.name.toValue), ("parent", c.parent.toValue), ("file", c.file.toValue),
      ("features", .list (c.features.map Feature.toValue)), ("span", c.span.toValue)]

/-- The value of a program. -/
def Program.toValue (p : Program) : Value :=
  .record none [("classes", .list (p.classes.map Class.toValue)), ("span", p.span.toValue)]

/-- The value of a table. -/
def Interner.toValue (t : Interner) : Value := .list (t.entries.map .str)

/-- The value of the tables of a unit. -/
def SymbolTables.toValue (t : SymbolTables) : Value :=
  .record none
    [("ids", t.ids.toValue), ("strings", t.strings.toValue), ("ints", t.ints.toValue)]

/-- The value of a unit. -/
def CompilationUnit.toValue (u : CompilationUnit) : Value :=
  .record none [("symbols", u.tables.toValue), ("program", u.program.toValue)]

end CoolTypes
