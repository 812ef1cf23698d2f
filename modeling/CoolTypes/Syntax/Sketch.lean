import CoolTypes.Syntax.Builder

/-!
# Sketches

A sketch is a program given by its texts, without symbols and spans. Drawing it adds its texts to
the tables and numbers its nodes, children first and from left to right; the node with number `k`,
and the names that it holds itself, stand at line `k` and column one.
-/

namespace CoolTypes

mutual

/-- An expression by its texts. -/
inductive SketchExpr where
  | int (value : Int)
  | string (text : String)
  | bool (value : Bool)
  | ident (name : String)
  | absent
  | new (typeName : String)
  | assign (name : String) (value : SketchExpr)
  | block (body : List SketchExpr)
  | cond (test ifTrue ifFalse : SketchExpr)
  | loop (test body : SketchExpr)
  | letIn (name typeName : String) (init : Option SketchExpr) (body : SketchExpr)
  | caseOf (scrutinee : SketchExpr) (arms : List SketchArm)
  | call (receiver : Option SketchExpr) (method : String) (args : List SketchExpr)
  | staticCall (receiver : SketchExpr) (typeName method : String) (args : List SketchExpr)
  | binary (op : BinaryOp) (left right : SketchExpr)
  | unary (op : UnaryOp) (operand : SketchExpr)

/-- A case branch by its texts. -/
structure SketchArm where
  name : String
  typeName : String
  body : SketchExpr

end

/-- A receiver by its texts. -/
inductive SketchReceiver where
  | implicit
  | dynamic (object : SketchExpr)
  | static (object : SketchExpr) (typeName : String)

/-- A feature by its texts. -/
inductive SketchFeature where
  | method (name : String) (params : List (String × String)) (ret : String) (body : SketchExpr)
  | attr (name typeName : String) (init : Option SketchExpr)

/-- A class by its texts. -/
structure SketchClass where
  name : String
  parent : String
  features : List SketchFeature

/-- A builder, and the number of the node that it built last. -/
structure Canvas where
  builder : Builder
  count : Nat := 0

/-- A part of the drawing of a sketch. -/
abbrev Draw := StateM Canvas

namespace Draw

/-- Builds the next node. -/
def node {α : Type} (b : Build α) : Draw α := fun c =>
  let (a, builder) := (Builder.moveTo (c.count + 1) 1 *> b).run c.builder
  (a, ⟨builder, c.count + 1⟩)

mutual

/-- Draws an expression. -/
def expr : SketchExpr → Draw Expr
  | .int v => node (Builder.int v)
  | .string text => node (Builder.string text)
  | .bool v => node (Builder.bool v)
  | .ident n => node (Builder.ident n)
  | .absent => node Builder.absent
  | .new n => node (Builder.new n)
  | .assign n e => do node (Builder.assign n (← expr e))
  | .block es => do node (Builder.block (← exprs es))
  | .cond a b c => do node (Builder.cond (← expr a) (← expr b) (← expr c))
  | .loop a b => do node (Builder.loop (← expr a) (← expr b))
  | .letIn n ty init e => do
    let init ← match init with
      | none => pure none
      | some i => some <$> expr i
    node (Builder.letIn n ty init (← expr e))
  | .caseOf e as => do node (Builder.caseOf (← expr e) (← arms as))
  | .call r m args => do
    let r ← match r with
      | none => pure none
      | some o => some <$> expr o
    node (Builder.call r m (← exprs args))
  | .staticCall o ty m args => do node (Builder.staticCall (← expr o) ty m (← exprs args))
  | .binary op a b => do node (Builder.binary op (← expr a) (← expr b))
  | .unary op a => do node (Builder.unary op (← expr a))

/-- Draws expressions one after the other. -/
def exprs : List SketchExpr → Draw (List Expr)
  | [] => return []
  | e :: rest => do
    let e ← expr e
    return e :: (← exprs rest)

/-- Draws case branches one after the other. -/
def arms : List SketchArm → Draw (List Arm)
  | [] => return []
  | ⟨n, ty, e⟩ :: rest => do
    let arm ← node (Builder.arm n ty (← expr e))
    return arm :: (← arms rest)

end

/-- Draws the binding of a let expression without body. The missing body has a number too. -/
def letBinding (n ty : String) (init : Option SketchExpr) : Draw Binding := do
  let init ← init.mapM expr
  let _ ← node Builder.absent
  node (Builder.binding n ty init)

/-- Draws a receiver. The type name of a static one has a number of its own. -/
def receiver : SketchReceiver → Draw Receiver
  | .implicit => return .implicit
  | .dynamic o => return .dynamic (← expr o)
  | .static o ty => return .static (← expr o) (← node (Builder.name ty))

/-- Draws a parameter. -/
def formal (p : String × String) : Draw Formal := node (Builder.formal p.1 p.2)

/-- Draws a feature. -/
def feature : SketchFeature → Draw Feature
  | .method n params ret body => do
    node (Builder.method n (← params.mapM formal) ret (← expr body))
  | .attr n ty init => do node (Builder.attribute n ty (← init.mapM expr))

/-- Draws a class. -/
def «class» (c : SketchClass) : Draw Class := do
  node (Builder.class c.name c.parent (← c.features.mapM feature))

/-- Draws a program. -/
def program (cs : List SketchClass) : Draw Program := do
  node (Builder.program (← cs.mapM «class»))

end Draw

end CoolTypes
