import CoolTypes.Dump.Parts
import CoolTypes.Syntax.Tree

/-!
# Listings of programs

The structure of a program, node by node. Symbols are shown by number, so a listing needs no tables.
-/

namespace CoolTypes

/-- The structure of a name. -/
def Name.toListing (n : Name) : Listing :=
  .group "Name" [.record "Spanned"
    [("value", n.symbol.toListing), ("span", n.span.toListing)] false]

/-- The structure of a name in type position. -/
def Name.toTypeListing (n : Name) : Listing := .group "TyName" [n.toListing]

/-- An expression is shown by its form, around the fields of that form, its span and its type. -/
def Listing.node (form : ExprForm) (fields : List (String × Listing)) (span : Span)
    (ty : Option Ty) : Listing :=
  .group form.title [.record form.recordTitle
    (fields ++ [("span", span.toListing), ("ty", .option (ty.map Ty.toListing))]) false]

/-- The structure of a binding around that of its initial value. -/
def Listing.binding (name typeName : Name) (init : Option Listing) (span : Span) : Listing :=
  .record "Binding"
    [("name", name.toListing), ("ty_name", typeName.toTypeListing),
      ("init", .option init), ("span", span.toListing)] false

mutual

/-- The structure of an expression. -/
def Expr.toListing : Expr → Listing
  | .assign n e s t =>
    .node .assign [("name", n.toListing), ("expr", e.toListing)] s t
  | .call r m args s t =>
    .node .call
      [("receiver", match r with
          | .implicit => .atom "Implicit"
          | .dynamic o => .group "Dynamic" [o.toListing]
          | .static o n =>
            .record "Static" [("object", o.toListing), ("ty_name", n.toTypeListing)] false),
        ("method", m.toListing), ("args", .sequence (exprListings args))] s t
  | .cond a b c s t =>
    .node .cond
      [("antecedent", a.toListing), ("consequent", b.toListing), ("alternative", c.toListing)] s t
  | .loop a b s t => .node .loop [("condition", a.toListing), ("body", b.toListing)] s t
  | .block es s t => .node .block [("body", .sequence (exprListings es))] s t
  | .letIn ⟨n, ty, init, bs⟩ e s t =>
    .node .letIn
      [("binding", .binding n ty (match init with
          | none => none
          | some i => some i.toListing) bs),
        ("expr", e.toListing)] s t
  | .caseOf e arms s t =>
    .node .caseOf
      [("scrutinee", e.toListing), ("arms", .sequence (armListings arms))] s t
  | .new n s t => .node .new [("ty_name", n.toTypeListing)] s t
  | .binary op a b s t =>
    .node .binary
      [("op", .atom op.title), ("lhs", a.toListing), ("rhs", b.toListing)] s t
  | .unary op a s t =>
    .node .unary [("op", .atom op.title), ("expr", a.toListing)] s t
  | .ident n t =>
    .group ExprForm.ident.title [.record ExprForm.ident.recordTitle
      [("name", n.toListing), ("ty", .option (t.map Ty.toListing))] false]
  | .int v s t => .node .int [("value", v.toListing)] s t
  | .string v s t => .node .string [("value", v.toListing)] s t
  | .bool v s t => .node .bool [("value", .atom (toString v))] s t
  | .absent s t => .node .absent [] s t

/-- The structures of expressions. -/
def exprListings : List Expr → List Listing
  | [] => []
  | e :: rest => e.toListing :: exprListings rest

/-- The structures of case branches. -/
def armListings : List Arm → List Listing
  | [] => []
  | ⟨n, ty, e, s⟩ :: rest =>
    .record "CaseArm"
      [("name", n.toListing), ("ty_name", ty.toTypeListing), ("expr", e.toListing),
        ("span", s.toListing)] false :: armListings rest

end

/-- The structure of a parameter. -/
def Formal.toListing (f : Formal) : Listing :=
  .record "Formal"
    [("name", f.name.toListing), ("ty_name", f.typeName.toTypeListing), ("span", f.span.toListing)]
    false

/-- The structure of a feature. -/
def Feature.toListing : Feature → Listing
  | .method m =>
    .group "Method" [.record "Method"
      [("name", m.name.toListing), ("params", .sequence (m.params.map Formal.toListing)),
        ("return_ty", m.returnType.toTypeListing), ("body", m.body.toListing),
        ("span", m.span.toListing)] false]
  | .attr b =>
    .group "Attribute" [.group "Attribute"
      [.binding b.name b.typeName (b.init.map Expr.toListing) b.span]]

/-- The structure of a class. -/
def Class.toListing (c : Class) : Listing :=
  .record "Class"
    [("name", c.name.toTypeListing), ("parent", c.parent.toTypeListing),
      ("file", c.file.toListing), ("features", .sequence (c.features.map Feature.toListing)),
      ("span", c.span.toListing)] false

/-- The structure of a program. -/
def Program.toListing (p : Program) : Listing :=
  .record "Program"
    [("classes", .sequence (p.classes.map Class.toListing)), ("span", p.span.toListing)] false

end CoolTypes
