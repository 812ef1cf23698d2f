import CoolTypes.Classes.Signatures
import CoolTypes.Typing.Scopes

/-!
# The type check

The check goes through the code of a program, writes its static type on each expression and reports
every broken rule. After a report it goes on with the root class, so each expression gets a type.
-/

namespace CoolTypes

/-- What the check of an expression depends on besides scopes and current class. -/
structure Setting where
  tables : SymbolTables
  hierarchy : ClassHierarchy
  signatures : Signatures

/-- The state of a check: open scopes, the class whose code is checked, and the reports so far. -/
structure CheckState where
  scopes : Scopes := {}
  current : Symbol
  reports : List Report := []

/-- A part of the check. -/
abbrev Check := StateT CheckState (Except Fault)

namespace Check

/-- Adds a report. -/
def report (v : Violation Symbol Ty) (span : Span) : Check Unit :=
  modify fun s => { s with reports := s.reports ++ [v.place span] }

/-- Binds a name in the innermost scope. -/
def bind (name : Symbol) (ty : Ty) : Check Unit :=
  modify fun s => { s with scopes := s.scopes.bind name ty }

/-- Runs a part of the check in a scope of its own. -/
def inScope {α : Type} (body : Check α) : Check α := do
  modify fun s => { s with scopes := s.scopes.push }
  let a ← body
  let s ← get
  let scopes ← s.scopes.pop
  set { s with scopes := scopes }
  return a

/-- The class whose code is checked. -/
def current : Check Symbol := return (← get).current

end Check

namespace Setting

open Check

variable (Γ : Setting)

/-! ## Types and names -/

/-- The type of a built-in class. -/
def builtin (b : BuiltinClass) : Ty := .named (b.symbol Γ.tables)

/-- The type that takes the place of every type that cannot be found. -/
def top : Ty := .named Γ.hierarchy.root

/-- The type that a declaration stands for; what is wrong with it has been reported before. -/
def declaredTy (n : Name) : Ty :=
  if n.symbol = Γ.tables.known .primSlot then .named n.symbol
  else (Γ.signatures.resolve? n.symbol).getD Γ.top

/-- The type that a name stands for in code. -/
def typeOf (n : Name) : Check Ty :=
  match Γ.signatures.resolve? n.symbol with
  | some ty => return ty
  | none => do
    report (.undeclaredType n.symbol) n.span
    return Γ.top

/-- The type that a name stands for where the self type is forbidden. -/
def classTypeOf (n : Name) (place : SelfTypePlace) : Check Ty := do
  match ← Γ.typeOf n with
  | .selfType =>
    report (.illegalSelfType place) n.span
    return Γ.top
  | ty => return ty

/-- The type of an identifier: that of its binding, else that of an attribute. -/
def identType? (n : Name) : Check (Option Ty) := do
  let s ← get
  return (s.scopes.resolve? n.symbol).or ((Γ.signatures.attr? s.current n.symbol).map (·.ty))

/-- Whether a name may be bound or assigned to, which `self` may not. -/
def bindable (n : Name) : Check Bool := do
  if n.symbol = Γ.tables.known .self then
    report .illegalSelf n.span
    return false
  else return true

/-! ## Conformance -/

/-- Reports a type that does not conform to the expected one. -/
def requireConforms (ty : Ty) (span : Span) (expected : Ty) : Check Unit := do
  unless Γ.hierarchy.conforms (← current) ty expected do
    report (.mismatchedTypes expected ty) span

/-- Reports an expression whose type does not conform to the expected one. -/
def expect (e : Expr) (expected : Ty) : Check Unit := do
  Γ.requireConforms (← e.requireTy) e.span expected

/-- Whether values of a type are compared by value. -/
def isPrimitive (ty : Ty) : Bool :=
  [BuiltinClass.int, .string, .bool].any fun b => ty.isBuiltin Γ.tables b

/-- A primitive value can be compared with a value of the same type only. -/
def expectComparable (a b : Expr) : Check Unit := do
  let x ← a.requireTy
  let y ← b.requireTy
  if (Γ.isPrimitive x || Γ.isPrimitive y) && x != y then
    if Γ.isPrimitive x then report (.mismatchedTypes x y) b.span
    else report (.mismatchedTypes y x) a.span

/-- Each argument conforms to the type of its parameter, as far as there are both. -/
def expectArguments : List Expr → List Ty → Check Unit
  | e :: es, ty :: tys => do
    Γ.expect e ty
    expectArguments es tys
  | _, _ => return ()

/-! ## Dispatch -/

/-- The static type of a receiver and the class to look the method up in. -/
def receiverTarget : Receiver → Check (Ty × Option Symbol)
  | .implicit => return (.selfType, some (← current))
  | .dynamic o => do
    let ty ← o.requireTy
    return (ty, some (ty.within (← current)))
  | .static o n => do
    let ty ← o.requireTy
    match Γ.signatures.resolve? n.symbol with
    | some (.named c) =>
      Γ.expect o (.named c)
      return (ty, some c)
    | some .selfType =>
      report (.illegalSelfType .staticDispatch) n.span
      return (ty, none)
    | none =>
      report (.undeclaredType n.symbol) n.span
      return (ty, none)

/-- The type of a call, once receiver and arguments have been checked. -/
def callType (recv : Ty) (target : Option Symbol) (method : Name) (args : List Expr) (span : Span) :
    Check Ty :=
  match target with
  | none => return Γ.top
  | some c =>
    match Γ.signatures.method? c method.symbol with
    | none => do
      report (.undeclaredMethod c method.symbol) method.span
      return Γ.top
    | some sig => do
      unless sig.params.length = args.length do
        report (.argumentCount sig.params.length args.length) span
      Γ.expectArguments args sig.params
      return sig.ret.orSelf recv

/-! ## Case branches -/

/-- Reports the types of case branches that have occurred before. -/
def distinctArms (seen : List Symbol) : List Arm → Check Unit
  | [] => return ()
  | arm :: rest =>
    match Γ.signatures.resolve? arm.typeName.symbol with
    | some (.named c) => do
      if c ∈ seen then report (.duplicateCaseType c) arm.typeName.span
      distinctArms (c :: seen) rest
    | _ => distinctArms seen rest

/-- The type of a case expression: the least common ancestor of its branches. -/
def caseType (arms : List Arm) : Check Ty := do
  let tys ← arms.mapM fun arm => arm.body.requireTy
  return ((Γ.hierarchy.joinAll? (← current) tys).map Ty.named).getD Γ.top

/-! ## Expressions -/

/-- The type of an operation with two operands. -/
def binaryType (op : BinaryOp) (a b : Expr) : Check Ty :=
  match op with
  | .add | .subtract | .multiply | .divide => do
    Γ.expect a (Γ.builtin .int)
    Γ.expect b (Γ.builtin .int)
    return Γ.builtin .int
  | .lessThan | .lessEquals => do
    Γ.expect a (Γ.builtin .int)
    Γ.expect b (Γ.builtin .int)
    return Γ.builtin .bool
  | .equals => do
    Γ.expectComparable a b
    return Γ.builtin .bool

/-- The type of an operation with one operand. -/
def unaryType (op : UnaryOp) (a : Expr) : Check Ty :=
  match op with
  | .isVoid => return Γ.builtin .bool
  | .complement => do
    Γ.expect a (Γ.builtin .int)
    return Γ.builtin .int
  | .not => do
    Γ.expect a (Γ.builtin .bool)
    return Γ.builtin .bool

/-- The type of an identifier in an expression. -/
def identType (n : Name) : Check Ty := do
  if n.symbol = Γ.tables.known .self then return .selfType
  match ← Γ.identType? n with
  | some ty => return ty
  | none =>
    report (.undeclaredIdentifier n.symbol) n.span
    return Γ.top

/-- Checks the target of an assignment against the value. -/
def expectTarget (n : Name) (value : Expr) : Check Unit := do
  if ← Γ.bindable n then
    match ← Γ.identType? n with
    | some ty => Γ.expect value ty
    | none => report (.undeclaredIdentifier n.symbol) n.span

mutual

/-- Checks an expression and writes its static type on it. -/
def expr : Expr → Check Expr
  | .assign n e s _ => do
    let e ← expr e
    let ty ← e.requireTy
    Γ.expectTarget n e
    return .assign n e s (some ty)
  | .call r m args s _ => do
    let r ← match r with
      | .implicit => pure .implicit
      | .dynamic o => .dynamic <$> expr o
      | .static o n => (.static · n) <$> expr o
    let (recv, target) ← Γ.receiverTarget r
    let args ← exprs args
    let ty ← Γ.callType recv target m args s
    return .call r m args s (some ty)
  | .cond a b c s _ => do
    let a ← expr a
    let b ← expr b
    let c ← expr c
    Γ.expect a (Γ.builtin .bool)
    let ty := Γ.hierarchy.join (← current) (← b.requireTy) (← c.requireTy)
    return .cond a b c s (some (.named ty))
  | .loop a b s _ => do
    let a ← expr a
    let b ← expr b
    Γ.expect a (Γ.builtin .bool)
    return .loop a b s (some Γ.top)
  | .block es s _ => do
    let es ← exprs es
    let ty ← match es.getLast? with
      | some e => liftM e.requireTy
      | none => pure Γ.top
    return .block es s (some ty)
  | .letIn ⟨n, tn, init, bs⟩ e s _ => do
    let ty ← Γ.typeOf tn
    -- the initial value does not see the new binding
    let init ← match init with
      | none => pure none
      | some i => do
        let i ← expr i
        Γ.expect i ty
        pure (some i)
    let valid ← Γ.bindable n
    let e ← inScope do
      if valid then bind n.symbol ty
      expr e
    return .letIn ⟨n, tn, init, bs⟩ e s (some (← e.requireTy))
  | .caseOf e as s _ => do
    let e ← expr e
    Γ.distinctArms [] as
    let as ← arms as
    let ty ← Γ.caseType as
    return .caseOf e as s (some ty)
  | .new n s _ => do
    let ty ← Γ.typeOf n
    return .new n s (some (.named (ty.within (← current))))
  | .binary op a b s _ => do
    let a ← expr a
    let b ← expr b
    let ty ← Γ.binaryType op a b
    return .binary op a b s (some ty)
  | .unary op a s _ => do
    let a ← expr a
    let ty ← Γ.unaryType op a
    return .unary op a s (some ty)
  | .ident n _ => do
    let ty ← Γ.identType n
    return .ident n (some ty)
  | .int v s _ => return .int v s (some (Γ.builtin .int))
  | .string v s _ => return .string v s (some (Γ.builtin .string))
  | .bool v s _ => return .bool v s (some (Γ.builtin .bool))
  | .absent s _ => return .absent s (some Γ.top)

/-- Checks expressions one after the other. -/
def exprs : List Expr → Check (List Expr)
  | [] => return []
  | e :: rest => do
    let e ← expr e
    return e :: (← exprs rest)

/-- Checks case branches one after the other, each in a scope that binds its name. -/
def arms : List Arm → Check (List Arm)
  | [] => return []
  | ⟨n, tn, e, s⟩ :: rest => do
    let ty ← Γ.classTypeOf tn .caseArm
    let valid ← Γ.bindable n
    let e ← inScope do
      if valid then bind n.symbol ty
      expr e
    return ⟨n, tn, e, s⟩ :: (← arms rest)

end

/-- Checks the initial value of a binding, and nothing else of it. -/
def binding (b : Binding) : Check Binding :=
  match b.init with
  | none => return b
  | some i => return { b with init := some (← Γ.expr i) }

/-- Checks the object of a receiver, and nothing else of it. -/
def receiver : Receiver → Check Receiver
  | .implicit => return .implicit
  | .dynamic o => return .dynamic (← Γ.expr o)
  | .static o n => return .static (← Γ.expr o) n

/-! ## Declarations -/

/-- Binds a parameter, unless it is called `self` or repeats an earlier one. -/
def formal (f : Formal) : Check Unit := do
  if ← Γ.bindable f.name then
    let ty := (Γ.declaredTy f.typeName).orSelf Γ.top
    if ((← get).scopes.local? f.name.symbol).isSome then
      report (.multipleDefinition .parameter f.name.symbol) f.name.span
    else bind f.name.symbol ty

/-- Checks the body of a method against its declared type. -/
def method (m : Method) : Check Method :=
  inScope do
    m.params.forM Γ.formal
    let body ← inScope (Γ.expr m.body)
    unless body.isAbsent do
      Γ.expect body (Γ.declaredTy m.returnType)
    return { m with body := body }

/-- Checks the initial value of an attribute against its declared type. -/
def attr (b : Binding) : Check Binding :=
  match b.init with
  | none => return b
  | some i => do
    let i ← Γ.expr i
    Γ.expect i (Γ.declaredTy b.typeName)
    return { b with init := some i }

/-- Checks a feature. -/
def feature : Feature → Check Feature
  | .method m => return .method (← Γ.method m)
  | .attr b => return .attr (← Γ.attr b)

/-- Checks a class that has signatures; another one is left as it is. -/
def «class» (c : Class) : Check Class := do
  if Γ.signatures.contains c.name.symbol then
    modify fun s => { s with current := c.name.symbol }
    let features ← inScope (c.features.mapM Γ.feature)
    return { c with features := features }
  else return c

/-- Checks a program. -/
def program (p : Program) : Check Program :=
  return { p with classes := ← p.classes.mapM Γ.class }

/-- The state in which a check starts: one empty scope and the root as current class. -/
def start : CheckState := { current := Γ.hierarchy.root }

/-- Runs a part of the check from the start; gives its result and its reports. -/
def run {α : Type} (c : Check α) : Except Fault (α × List Report) := do
  let (a, s) ← StateT.run c Γ.start
  return (a, s.reports)

end Setting

end CoolTypes
