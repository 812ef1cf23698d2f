import CoolTypes.Proofs.Syntax.Induction
import CoolTypes.Typing.Checker

/-!
# The check as functions

What the check of an expression does depends on the class whose code is checked and on the types that
the scopes give to names. Under a class and such an environment, `infer` is the type of an expression,
`reports` is what is reported in it, and `annotate` is the expression with a type at each node.
-/

namespace CoolTypes

/-- The types that scopes give to names. -/
abbrev Env := Symbol → Option Ty

/-- The environment with a name bound to a type. -/
def Env.bind (env : Env) (name : Symbol) (ty : Ty) : Env :=
  fun n => if n = name then some ty else env n

namespace Setting

variable (Γ : Setting) (C : Symbol) (env : Env)

/-! ## Types -/

/-- The environment in the scope of a name; `self` is never bound. -/
def bound (n : Name) (ty : Ty) : Env :=
  if n.symbol = Γ.tables.known .self then env else env.bind n.symbol ty

/-- The type that a name stands for in code, or the root. -/
def nameTy (n : Name) : Ty := (Γ.signatures.resolve? n.symbol).getD Γ.top

/-- The type that a case branch binds its name to. -/
def armTy (n : Name) : Ty := (Γ.nameTy n).orSelf Γ.top

/-- The type of a name in its scopes, else that of an attribute. -/
def lookup? (n : Name) : Option Ty :=
  (env n.symbol).or ((Γ.signatures.attr? C n.symbol).map (·.ty))

/-- The type of an identifier. -/
def identTy (n : Name) : Ty :=
  if n.symbol = Γ.tables.known .self then .selfType else (Γ.lookup? C env n).getD Γ.top

/-- The class that a type name stands for, if it stands for one. -/
def classOf? (n : Name) : Option Symbol := (Γ.signatures.resolve? n.symbol).bind (·.className?)

/-- The class to look a method up in, for a receiver of type `ty`. -/
def target? (ty : Ty) : Receiver → Option Symbol
  | .implicit | .dynamic _ => some (ty.within C)
  | .static _ n => Γ.classOf? n

/-- The type of a call. -/
def resultTy (ty : Ty) (target : Option Symbol) (m : Name) : Ty :=
  match target.bind (Γ.signatures.method? · m.symbol) with
  | some sig => sig.ret.orSelf ty
  | none => Γ.top

/-- The type of a case expression with branches of these types. -/
def joinTy (tys : List Ty) : Ty := ((Γ.hierarchy.joinAll? C tys).map Ty.named).getD Γ.top

/-- The type of an operation with two operands. -/
def binaryTy : BinaryOp → Ty
  | .add | .subtract | .multiply | .divide => Γ.builtin .int
  | .lessThan | .lessEquals | .equals => Γ.builtin .bool

/-- The type of an operation with one operand. -/
def unaryTy : UnaryOp → Ty
  | .complement => Γ.builtin .int
  | .isVoid | .not => Γ.builtin .bool

mutual

/-- The type of an expression. -/
def infer (env : Env) : Expr → Ty
  | .assign _ e _ _ => infer env e
  | .call r m _ _ _ => Γ.resultTy (receiverTy env r) (Γ.target? C (receiverTy env r) r) m
  | .cond _ b c _ _ => .named (Γ.hierarchy.join C (infer env b) (infer env c))
  | .loop .. => Γ.top
  | .block es _ _ => lastTy env es
  | .letIn b e _ _ => infer (Γ.bound env b.name (Γ.nameTy b.typeName)) e
  | .caseOf _ arms _ _ => Γ.joinTy C (armTys env arms)
  | .new n _ _ => .named ((Γ.nameTy n).within C)
  | .binary op .. => Γ.binaryTy op
  | .unary op .. => Γ.unaryTy op
  | .ident n _ => Γ.identTy C env n
  | .int .. => Γ.builtin .int
  | .string .. => Γ.builtin .string
  | .bool .. => Γ.builtin .bool
  | .absent .. => Γ.top

/-- The type of the object of a call. -/
def receiverTy (env : Env) : Receiver → Ty
  | .implicit => .selfType
  | .dynamic o | .static o _ => infer env o

/-- The type of the last of some expressions. -/
def lastTy (env : Env) : List Expr → Ty
  | [] => Γ.top
  | [e] => infer env e
  | _ :: e :: rest => lastTy env (e :: rest)

/-- The types of case branches. -/
def armTys (env : Env) : List Arm → List Ty
  | [] => []
  | ⟨n, tn, e, _⟩ :: rest => infer (Γ.bound env n (Γ.armTy tn)) e :: armTys env rest

end

/-! ## Reports -/

/-- What is reported of a type where another one is expected. -/
def conformReports (ty : Ty) (span : Span) (expected : Ty) : List Report :=
  if Γ.hierarchy.conforms C ty expected then []
  else [(Violation.mismatchedTypes expected ty).place span]

/-- What is reported of a type name in code. -/
def typeReports (n : Name) : List Report :=
  match Γ.signatures.resolve? n.symbol with
  | some _ => []
  | none => [(Violation.undeclaredType n.symbol).place n.span]

/-- What is reported of a type name where the self type is forbidden. -/
def classReports (n : Name) (place : SelfTypePlace) : List Report :=
  match Γ.signatures.resolve? n.symbol with
  | some (.named _) => []
  | some .selfType => [(Violation.illegalSelfType place).place n.span]
  | none => [(Violation.undeclaredType n.symbol).place n.span]

/-- What is reported of a name that is bound or assigned to. -/
def bindReports (n : Name) : List Report :=
  if n.symbol = Γ.tables.known .self then [Violation.illegalSelf.place n.span] else []

/-- What is reported of an identifier. -/
def identReports (n : Name) : List Report :=
  if n.symbol = Γ.tables.known .self then []
  else match Γ.lookup? C env n with
    | some _ => []
    | none => [(Violation.undeclaredIdentifier n.symbol).place n.span]

/-- What is reported of an expression where a type is expected. -/
def expectReports (e : Expr) (expected : Ty) : List Report :=
  Γ.conformReports C (Γ.infer C env e) e.span expected

/-- What is reported of a value in an assignment. -/
def assignReports (n : Name) (e : Expr) : List Report :=
  if n.symbol = Γ.tables.known .self then [Violation.illegalSelf.place n.span]
  else match Γ.lookup? C env n with
    | some ty => Γ.expectReports C env e ty
    | none => [(Violation.undeclaredIdentifier n.symbol).place n.span]

/-- What is reported of the operands of a comparison for equality. -/
def comparableReports (a b : Expr) : List Report :=
  let x := Γ.infer C env a
  let y := Γ.infer C env b
  if (Γ.isPrimitive x || Γ.isPrimitive y) && x != y then
    if Γ.isPrimitive x then [(Violation.mismatchedTypes x y).place b.span]
    else [(Violation.mismatchedTypes y x).place a.span]
  else []

/-- What is reported of the operands of an operation. -/
def binaryReports (op : BinaryOp) (a b : Expr) : List Report :=
  match op with
  | .add | .subtract | .multiply | .divide | .lessThan | .lessEquals =>
    Γ.expectReports C env a (Γ.builtin .int) ++ Γ.expectReports C env b (Γ.builtin .int)
  | .equals => Γ.comparableReports C env a b

/-- What is reported of the operand of an operation. -/
def unaryReports (op : UnaryOp) (a : Expr) : List Report :=
  match op with
  | .isVoid => []
  | .complement => Γ.expectReports C env a (Γ.builtin .int)
  | .not => Γ.expectReports C env a (Γ.builtin .bool)

/-- What is reported of arguments, as far as there are parameters for them. -/
def argumentReports : List Expr → List Ty → List Report
  | e :: es, ty :: tys => Γ.expectReports C env e ty ++ argumentReports es tys
  | _, _ => []

/-- What is reported of a receiver. -/
def targetReports : Receiver → List Report
  | .implicit | .dynamic _ => []
  | .static o n =>
    match Γ.signatures.resolve? n.symbol with
    | some (.named c) => Γ.expectReports C env o (.named c)
    | some .selfType => [(Violation.illegalSelfType .staticDispatch).place n.span]
    | none => [(Violation.undeclaredType n.symbol).place n.span]

/-- What is reported of a call. -/
def callReports (target : Option Symbol) (m : Name) (args : List Expr) (span : Span) : List Report :=
  match target with
  | none => []
  | some c =>
    match Γ.signatures.method? c m.symbol with
    | none => [(Violation.undeclaredMethod c m.symbol).place m.span]
    | some sig =>
      (if sig.params.length = args.length then []
        else [(Violation.argumentCount sig.params.length args.length).place span]) ++
      Γ.argumentReports C env args sig.params

/-- What is reported of the types of case branches, after branches with the types `seen`. -/
def distinctReports (seen : List Symbol) : List Arm → List Report
  | [] => []
  | arm :: rest =>
    match Γ.classOf? arm.typeName with
    | some c =>
      (if c ∈ seen then [(Violation.duplicateCaseType c).place arm.typeName.span] else []) ++
        distinctReports (c :: seen) rest
    | none => distinctReports seen rest

mutual

/-- What is reported in an expression. -/
def reports (env : Env) : Expr → List Report
  | .assign n e _ _ => reports env e ++ Γ.assignReports C env n e
  | .call r m args s _ =>
    receiverReports env r ++ Γ.targetReports C env r ++ reportsAll env args ++
      Γ.callReports C env (Γ.target? C (Γ.receiverTy C env r) r) m args s
  | .cond a b c _ _ =>
    reports env a ++ reports env b ++ reports env c ++ Γ.expectReports C env a (Γ.builtin .bool)
  | .loop a b _ _ =>
    reports env a ++ reports env b ++ Γ.expectReports C env a (Γ.builtin .bool)
  | .block es _ _ => reportsAll env es
  | .letIn ⟨n, tn, init, _⟩ e _ _ =>
    Γ.typeReports tn ++ initReports env (Γ.nameTy tn) init ++ Γ.bindReports n ++
      reports (Γ.bound env n (Γ.nameTy tn)) e
  | .caseOf e arms _ _ => reports env e ++ Γ.distinctReports [] arms ++ armReports env arms
  | .new n _ _ => Γ.typeReports n
  | .binary op a b _ _ => reports env a ++ reports env b ++ Γ.binaryReports C env op a b
  | .unary op a _ _ => reports env a ++ Γ.unaryReports C env op a
  | .ident n _ => Γ.identReports C env n
  | .int .. | .string .. | .bool .. | .absent .. => []

/-- What is reported in the object of a call. -/
def receiverReports (env : Env) : Receiver → List Report
  | .implicit => []
  | .dynamic o | .static o _ => reports env o

/-- What is reported in an initial value, if there is one. -/
def initReports (env : Env) (ty : Ty) : Option Expr → List Report
  | none => []
  | some i => reports env i ++ Γ.expectReports C env i ty

/-- What is reported in expressions one after the other. -/
def reportsAll (env : Env) : List Expr → List Report
  | [] => []
  | e :: rest => reports env e ++ reportsAll env rest

/-- What is reported in case branches one after the other. -/
def armReports (env : Env) : List Arm → List Report
  | [] => []
  | ⟨n, tn, e, _⟩ :: rest =>
    Γ.classReports tn .caseArm ++ Γ.bindReports n ++ reports (Γ.bound env n (Γ.armTy tn)) e ++
      armReports env rest

end

/-! ## Annotations -/

mutual

/-- The expression with its type at each node. -/
def annotate (env : Env) : Expr → Expr
  | .assign n e s t => .assign n (annotate env e) s (some (Γ.infer C env (.assign n e s t)))
  | .call r m args s t =>
    .call (annotateReceiver env r) m (annotateAll env args) s
      (some (Γ.infer C env (.call r m args s t)))
  | .cond a b c s t =>
    .cond (annotate env a) (annotate env b) (annotate env c) s
      (some (Γ.infer C env (.cond a b c s t)))
  | .loop a b s t =>
    .loop (annotate env a) (annotate env b) s (some (Γ.infer C env (.loop a b s t)))
  | .block es s t => .block (annotateAll env es) s (some (Γ.infer C env (.block es s t)))
  | .letIn ⟨n, tn, init, bs⟩ e s t =>
    .letIn ⟨n, tn, annotateInit env init, bs⟩ (annotate (Γ.bound env n (Γ.nameTy tn)) e) s
      (some (Γ.infer C env (.letIn ⟨n, tn, init, bs⟩ e s t)))
  | .caseOf e arms s t =>
    .caseOf (annotate env e) (annotateArms env arms) s (some (Γ.infer C env (.caseOf e arms s t)))
  | .new n s t => .new n s (some (Γ.infer C env (.new n s t)))
  | .binary op a b s t =>
    .binary op (annotate env a) (annotate env b) s (some (Γ.infer C env (.binary op a b s t)))
  | .unary op a s t => .unary op (annotate env a) s (some (Γ.infer C env (.unary op a s t)))
  | .ident n t => .ident n (some (Γ.infer C env (.ident n t)))
  | .int v s t => .int v s (some (Γ.infer C env (.int v s t)))
  | .string v s t => .string v s (some (Γ.infer C env (.string v s t)))
  | .bool v s t => .bool v s (some (Γ.infer C env (.bool v s t)))
  | .absent s t => .absent s (some (Γ.infer C env (.absent s t)))

/-- The receiver with the types of its object. -/
def annotateReceiver (env : Env) : Receiver → Receiver
  | .implicit => .implicit
  | .dynamic o => .dynamic (annotate env o)
  | .static o n => .static (annotate env o) n

/-- The initial value with its types, if there is one. -/
def annotateInit (env : Env) : Option Expr → Option Expr
  | none => none
  | some i => some (annotate env i)

/-- The expressions with their types. -/
def annotateAll (env : Env) : List Expr → List Expr
  | [] => []
  | e :: rest => annotate env e :: annotateAll env rest

/-- The case branches with their types. -/
def annotateArms (env : Env) : List Arm → List Arm
  | [] => []
  | ⟨n, tn, e, s⟩ :: rest =>
    ⟨n, tn, annotate (Γ.bound env n (Γ.armTy tn)) e, s⟩ :: annotateArms env rest

end

end Setting

end CoolTypes
