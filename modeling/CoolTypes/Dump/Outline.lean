import CoolTypes.Syntax.Tree
import CoolTypes.Text.Quoted

/-!
# Outlines

An outline has a line for each node of a program, one column deeper than the line of its parent,
with the static type of an expression if it is known. Names and literals are shown by their texts.
-/

namespace CoolTypes

/-- A line of an outline. -/
structure OutlineLine where
  depth : Nat
  label : String
  ty : Option String := none
deriving DecidableEq

/-- The text of a line. -/
def OutlineLine.text (l : OutlineLine) : String :=
  "".pushn ' ' l.depth ++ "-" ++ l.label ++
    (match l.ty with
      | none => ""
      | some ty => " : " ++ ty) ++ "\n"

/-- What an outline calls an operator with two operands. -/
def BinaryOp.label : BinaryOp → String
  | add => "plus"
  | subtract => "sub"
  | multiply => "mul"
  | divide => "div"
  | lessThan => "lt"
  | lessEquals => "lteq"
  | equals => "eq"

/-- What an outline calls an operator with one operand. -/
def UnaryOp.label : UnaryOp → String
  | isVoid => "isvoid"
  | complement => "comp"
  | not => "not"

namespace Outline

variable (t : SymbolTables)

/-- A line without a type. -/
def plain (depth : Nat) (label : String) : List OutlineLine := [⟨depth, label, none⟩]

/-- A line with the static type of an expression. -/
def typed (depth : Nat) (label : String) (ty : Option Ty) : Except Fault (List OutlineLine) :=
  return [⟨depth, label, ← ty.mapM (·.text t)⟩]

/-- A kind of node and a name. -/
def named (kind : String) (n : Name) : Except Fault String :=
  return kind ++ " (" ++ (← t.name n.symbol) ++ ")"

/-- A kind of node, a name and its type. -/
def declared (kind : String) (n ty : Name) : Except Fault String :=
  return kind ++ " (" ++ (← t.name n.symbol) ++ ": " ++ (← t.name ty.symbol) ++ ")"

mutual

/-- The lines of an expression. -/
def expr (depth : Nat) : Expr → Except Fault (List OutlineLine)
  | .assign n e _ ty => do
    return (← typed t depth (← named t "assign" n) ty) ++ (← expr (depth + 1) e)
  | .call r m args _ ty => do
    match r with
    | .implicit =>
      return (← typed t depth (← named t "dynamic_dispatch" m) ty) ++
        (← typed t (depth + 1) "self" (some .selfType)) ++ (← exprs (depth + 1) args)
    | .dynamic o =>
      return (← typed t depth (← named t "dynamic_dispatch" m) ty) ++
        (← expr (depth + 1) o) ++ (← exprs (depth + 1) args)
    | .static o n =>
      return (← typed t depth (← named t "static_dispatch" m) ty) ++
        (← expr (depth + 1) o) ++ plain (depth + 1) (← named t "type" n) ++
        (← exprs (depth + 1) args)
  | .cond a b c _ ty => do
    return (← typed t depth "if" ty) ++ (← expr (depth + 1) a) ++ (← expr (depth + 1) b) ++
      (← expr (depth + 1) c)
  | .loop a b _ ty => do
    return (← typed t depth "while" ty) ++ (← expr (depth + 1) a) ++ (← expr (depth + 1) b)
  | .block es _ ty => do
    return (← typed t depth "block" ty) ++ (← exprs (depth + 1) es)
  | .letIn ⟨n, tn, init, _⟩ e _ ty => do
    let head ← typed t depth (← declared t "let" n tn) ty
    match init with
    | none => return head ++ (← expr (depth + 1) e)
    | some i => return head ++ (← expr (depth + 1) i) ++ (← expr (depth + 1) e)
  | .caseOf e as _ ty => do
    return (← typed t depth "case" ty) ++ (← expr (depth + 1) e) ++ (← arms (depth + 1) as)
  | .new n _ ty => do typed t depth (← named t "new" n) ty
  | .binary op a b _ ty => do
    return (← typed t depth op.label ty) ++ (← expr (depth + 1) a) ++ (← expr (depth + 1) b)
  | .unary op a _ ty => do
    return (← typed t depth op.label ty) ++ (← expr (depth + 1) a)
  | .ident n ty => do typed t depth (← named t "object" n) ty
  | .int v _ ty => do typed t depth ("int_const (" ++ (← t.ints.lookup v) ++ ")") ty
  | .string v _ ty => do
    typed t depth ("str_const (" ++ Text.quote Text.listingMarks (← t.strings.lookup v) ++ ")") ty
  | .bool v _ ty => typed t depth ("bool_const (" ++ toString v ++ ")") ty
  | .absent _ ty => typed t depth "no_expr" ty

/-- The lines of expressions one after the other. -/
def exprs (depth : Nat) : List Expr → Except Fault (List OutlineLine)
  | [] => return []
  | e :: rest => do return (← expr depth e) ++ (← exprs depth rest)

/-- The lines of case branches one after the other. -/
def arms (depth : Nat) : List Arm → Except Fault (List OutlineLine)
  | [] => return []
  | ⟨n, tn, e, _⟩ :: rest => do
    return plain depth (← declared t "casebranch" n tn) ++ (← expr (depth + 1) e) ++
      (← arms depth rest)

end

/-- The line of a parameter. -/
def formal (depth : Nat) (f : Formal) : Except Fault (List OutlineLine) :=
  return plain depth (← declared t "formal" f.name f.typeName)

/-- The lines of a feature. -/
def feature (depth : Nat) : Feature → Except Fault (List OutlineLine)
  | .method m => do
    let head := plain depth (← declared t "method" m.name m.returnType)
    let params ← m.params.mapM (formal t (depth + 1))
    return head ++ params.flatten ++ (← expr t (depth + 1) m.body)
  | .attr b => do
    let head := plain depth (← declared t "attribute" b.name b.typeName)
    match b.init with
    | none => return head
    | some i => return head ++ (← expr t (depth + 1) i)

/-- The lines of a class. -/
def «class» (depth : Nat) (c : Class) : Except Fault (List OutlineLine) := do
  let name ← t.name c.name.symbol
  let parent ← t.name c.parent.symbol
  let features ← c.features.mapM (feature t (depth + 1))
  return plain depth ("class (" ++ name ++ " inherits " ++ parent ++ ")") ++ features.flatten

/-- The lines of a program. -/
def program (p : Program) : Except Fault (List OutlineLine) :=
  return (← p.classes.mapM («class» t 0)).flatten

end Outline

/-- The outline of a program as a text. -/
def Program.outline (t : SymbolTables) (p : Program) : Except Fault String :=
  return String.join ((← Outline.program t p).map OutlineLine.text)

end CoolTypes
