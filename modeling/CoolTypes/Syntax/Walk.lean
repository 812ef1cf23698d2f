import CoolTypes.Syntax.Tree

/-!
# Walks over a program

`Program.visits` lists the nodes of a program from the root down, children in source order.
`Program.traverse` goes through the same nodes in the same order with a state, and may put another
name in the place of each name; renaming is its main use.
-/

namespace CoolTypes

/-- A step of a walk: the node that it reaches, with what the node holds besides other nodes. -/
inductive Visit where
  | program (span : Span)
  | «class» (file : Symbol) (span : Span)
  | feature (span : Span)
  | method (span : Span)
  | «attribute» (span : Span)
  | expr (ty : Option Ty) (span : Span)
  | form (form : ExprForm) (span : Span)
  | int (value : Symbol) (span : Span)
  | string (value : Symbol) (span : Span)
  | formal (span : Span)
  | arm (span : Span)
  | typeName (span : Span)
  | binding (span : Span)
  | receiver
  | name (name : Name)
deriving DecidableEq

/-! ## Listing the nodes -/

/-- The nodes of a name in type position. -/
def Name.typeVisits (n : Name) : List Visit := [.typeName n.span, .name n]

mutual

/-- The nodes of an expression. -/
def Expr.visits : Expr → List Visit
  | .assign n e s t => .expr t s :: .form .assign s :: .name n :: e.visits
  | .call r m args s t =>
    .expr t s :: .form .call s :: .receiver ::
      (match r with
        | .implicit => []
        | .dynamic o => o.visits
        | .static o n => o.visits ++ n.typeVisits) ++ .name m :: visitsAll args
  | .cond a b c s t => .expr t s :: .form .cond s :: a.visits ++ b.visits ++ c.visits
  | .loop a b s t => .expr t s :: .form .loop s :: a.visits ++ b.visits
  | .block es s t => .expr t s :: .form .block s :: visitsAll es
  | .letIn ⟨n, ty, init, bs⟩ e s t =>
    .expr t s :: .form .letIn s :: .binding bs :: .name n :: ty.typeVisits ++
      (match init with
        | none => []
        | some i => i.visits) ++ e.visits
  | .caseOf e arms s t => .expr t s :: .form .caseOf s :: e.visits ++ visitsArms arms
  | .new n s t => .expr t s :: .form .new s :: n.typeVisits
  | .binary _ a b s t => .expr t s :: .form .binary s :: a.visits ++ b.visits
  | .unary _ a s t => .expr t s :: .form .unary s :: a.visits
  | .ident n t => [.expr t n.span, .form .ident n.span, .name n]
  | .int v s t => [.expr t s, .int v s]
  | .string v s t => [.expr t s, .string v s]
  | .bool _ s t => [.expr t s, .form .bool s]
  | .absent s t => [.expr t s, .form .absent s]

/-- The nodes of expressions one after the other. -/
def Expr.visitsAll : List Expr → List Visit
  | [] => []
  | e :: rest => e.visits ++ visitsAll rest

/-- The nodes of case branches one after the other. -/
def Expr.visitsArms : List Arm → List Visit
  | [] => []
  | ⟨n, ty, e, s⟩ :: rest => .arm s :: .name n :: ty.typeVisits ++ e.visits ++ visitsArms rest

end

/-- The nodes of a binding. -/
def Binding.visits (b : Binding) : List Visit :=
  .binding b.span :: .name b.name :: b.typeName.typeVisits ++ (b.init.map Expr.visits).getD []

/-- The nodes of a parameter. -/
def Formal.visits (f : Formal) : List Visit :=
  .formal f.span :: .name f.name :: f.typeName.typeVisits

/-- The nodes of a feature. -/
def Feature.visits : Feature → List Visit
  | .method m =>
    .feature m.span :: .method m.span :: .name m.name ::
      m.params.flatMap Formal.visits ++ m.returnType.typeVisits ++ m.body.visits
  | .attr b => .feature b.span :: .attribute b.span :: b.visits

/-- The nodes of a class. -/
def Class.visits (c : Class) : List Visit :=
  .class c.file c.span :: c.name.typeVisits ++ c.parent.typeVisits ++
    c.features.flatMap Feature.visits

/-- The nodes of a program. -/
def Program.visits (p : Program) : List Visit :=
  .program p.span :: p.classes.flatMap Class.visits

/-! ## Going through the nodes with a state -/

/-- What to do on a walk: how a node changes the state, and what takes the place of a name. -/
structure Walker (σ : Type) where
  enter : Visit → StateM σ Unit
  rename : Name → StateM σ Name

namespace Walker

variable {σ : Type} (w : Walker σ)

/-- Walks through a name. -/
def name (n : Name) : StateM σ Name := do
  w.enter (.name n)
  w.rename n

/-- Walks through a name in type position. -/
def typeName (n : Name) : StateM σ Name := do
  w.enter (.typeName n.span)
  w.name n

mutual

/-- Walks through an expression. -/
def expr : Expr → StateM σ Expr
  | .assign n e s t => do
    w.enter (.expr t s)
    w.enter (.form .assign s)
    let n ← w.name n
    return .assign n (← expr e) s t
  | .call r m args s t => do
    w.enter (.expr t s)
    w.enter (.form .call s)
    w.enter .receiver
    let r ← match r with
      | .implicit => pure .implicit
      | .dynamic o => .dynamic <$> expr o
      | .static o n => do
        let o ← expr o
        pure (.static o (← w.typeName n))
    let m ← w.name m
    return .call r m (← exprs args) s t
  | .cond a b c s t => do
    w.enter (.expr t s)
    w.enter (.form .cond s)
    let a ← expr a
    let b ← expr b
    return .cond a b (← expr c) s t
  | .loop a b s t => do
    w.enter (.expr t s)
    w.enter (.form .loop s)
    let a ← expr a
    return .loop a (← expr b) s t
  | .block es s t => do
    w.enter (.expr t s)
    w.enter (.form .block s)
    return .block (← exprs es) s t
  | .letIn ⟨n, ty, init, bs⟩ e s t => do
    w.enter (.expr t s)
    w.enter (.form .letIn s)
    w.enter (.binding bs)
    let n ← w.name n
    let ty ← w.typeName ty
    let init ← match init with
      | none => pure none
      | some i => some <$> expr i
    return .letIn ⟨n, ty, init, bs⟩ (← expr e) s t
  | .caseOf e as s t => do
    w.enter (.expr t s)
    w.enter (.form .caseOf s)
    let e ← expr e
    return .caseOf e (← arms as) s t
  | .new n s t => do
    w.enter (.expr t s)
    w.enter (.form .new s)
    return .new (← w.typeName n) s t
  | .binary op a b s t => do
    w.enter (.expr t s)
    w.enter (.form .binary s)
    let a ← expr a
    return .binary op a (← expr b) s t
  | .unary op a s t => do
    w.enter (.expr t s)
    w.enter (.form .unary s)
    return .unary op (← expr a) s t
  | .ident n t => do
    w.enter (.expr t n.span)
    w.enter (.form .ident n.span)
    return .ident (← w.name n) t
  | .int v s t => do
    w.enter (.expr t s)
    w.enter (.int v s)
    return .int v s t
  | .string v s t => do
    w.enter (.expr t s)
    w.enter (.string v s)
    return .string v s t
  | .bool v s t => do
    w.enter (.expr t s)
    w.enter (.form .bool s)
    return .bool v s t
  | .absent s t => do
    w.enter (.expr t s)
    w.enter (.form .absent s)
    return .absent s t

/-- Walks through expressions one after the other. -/
def exprs : List Expr → StateM σ (List Expr)
  | [] => return []
  | e :: rest => do
    let e ← expr e
    return e :: (← exprs rest)

/-- Walks through case branches one after the other. -/
def arms : List Arm → StateM σ (List Arm)
  | [] => return []
  | ⟨n, ty, e, s⟩ :: rest => do
    w.enter (.arm s)
    let n ← w.name n
    let ty ← w.typeName ty
    let e ← expr e
    return ⟨n, ty, e, s⟩ :: (← arms rest)

end

/-- Walks through a binding. -/
def binding (b : Binding) : StateM σ Binding := do
  w.enter (.binding b.span)
  let n ← w.name b.name
  let ty ← w.typeName b.typeName
  return ⟨n, ty, ← b.init.mapM w.expr, b.span⟩

/-- Walks through a parameter. -/
def formal (f : Formal) : StateM σ Formal := do
  w.enter (.formal f.span)
  let n ← w.name f.name
  return ⟨n, ← w.typeName f.typeName, f.span⟩

/-- Walks through a feature. -/
def feature : Feature → StateM σ Feature
  | .method m => do
    w.enter (.feature m.span)
    w.enter (.method m.span)
    let n ← w.name m.name
    let params ← m.params.mapM w.formal
    let ty ← w.typeName m.returnType
    return .method ⟨n, params, ty, ← w.expr m.body, m.span⟩
  | .attr b => do
    w.enter (.feature b.span)
    w.enter (.attribute b.span)
    return .attr (← w.binding b)

/-- Walks through a class. -/
def «class» (c : Class) : StateM σ Class := do
  w.enter (.class c.file c.span)
  let n ← w.typeName c.name
  let parent ← w.typeName c.parent
  return ⟨n, parent, c.file, ← c.features.mapM w.feature, c.span⟩

/-- Walks through a program. -/
def program (p : Program) : StateM σ Program := do
  w.enter (.program p.span)
  return ⟨← p.classes.mapM w.class, p.span⟩

end Walker

/-! ## Renaming -/

/-- Puts one symbol in the place of another and counts how often. -/
def Walker.replacing (old new : Symbol) : Walker Nat where
  enter _ := pure ()
  rename n count :=
    if n.symbol = old then (⟨new, n.span⟩, count + 1) else (n, count)

/-- The program with one symbol in the place of another in every name, and the number of names that
this reached. Files and static types are not names. -/
def Program.rename (p : Program) (old new : Symbol) : Program × Nat :=
  (Walker.replacing old new).program p 0

end CoolTypes
