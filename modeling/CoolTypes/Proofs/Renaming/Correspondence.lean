import Mathlib.Data.List.Forall2
import Mathlib.Logic.Relator
import CoolTypes.Diagnostics.TypeError
import CoolTypes.Proofs.Syntax.Induction

/-!
# Corresponding programs

Two programs correspond along a relation of symbols if they are alike node by node, at the same spans,
and related symbols stand in the same places. Violations correspond in the same way, over symbols as
well as over texts.
-/

namespace CoolTypes

/-- Which symbols of two programs stand for the same identifier, the same string literal and the same
integer literal. -/
structure SymbolRel where
  id : Symbol → Symbol → Prop
  string : Symbol → Symbol → Prop
  int : Symbol → Symbol → Prop

/-! ## Syntax -/

/-- Both types are the self type, or they name related classes. -/
inductive Ty.Related (R : SymbolRel) : Ty → Ty → Prop where
  | named {c c'} : R.id c c' → Ty.Related R (.named c) (.named c')
  | selfType : Ty.Related R .selfType .selfType

/-- Related symbols at the same place. -/
structure Name.Related (R : SymbolRel) (n n' : Name) : Prop where
  symbol : R.id n.symbol n'.symbol
  span : n.span = n'.span

mutual

/-- Two expressions are alike up to related symbols, in the static types that they carry as well. -/
inductive Expr.Related (R : SymbolRel) : Expr → Expr → Prop where
  | assign {n n' e e' s t t'} : n.Related R n' → Expr.Related R e e' →
      Option.Rel (Ty.Related R) t t' → Expr.Related R (.assign n e s t) (.assign n' e' s t')
  | call {r r' m m' args args' s t t'} : Receiver.Related R r r' → m.Related R m' →
      List.Forall₂ (Expr.Related R) args args' → Option.Rel (Ty.Related R) t t' →
      Expr.Related R (.call r m args s t) (.call r' m' args' s t')
  | cond {a a' b b' c c' s t t'} : Expr.Related R a a' → Expr.Related R b b' →
      Expr.Related R c c' → Option.Rel (Ty.Related R) t t' →
      Expr.Related R (.cond a b c s t) (.cond a' b' c' s t')
  | loop {a a' b b' s t t'} : Expr.Related R a a' → Expr.Related R b b' →
      Option.Rel (Ty.Related R) t t' → Expr.Related R (.loop a b s t) (.loop a' b' s t')
  | block {es es' s t t'} : List.Forall₂ (Expr.Related R) es es' →
      Option.Rel (Ty.Related R) t t' → Expr.Related R (.block es s t) (.block es' s t')
  | letIn {b b' e e' s t t'} : Binding.Related R b b' → Expr.Related R e e' →
      Option.Rel (Ty.Related R) t t' → Expr.Related R (.letIn b e s t) (.letIn b' e' s t')
  | caseOf {e e' arms arms' s t t'} : Expr.Related R e e' →
      List.Forall₂ (Arm.Related R) arms arms' → Option.Rel (Ty.Related R) t t' →
      Expr.Related R (.caseOf e arms s t) (.caseOf e' arms' s t')
  | new {n n' s t t'} : n.Related R n' → Option.Rel (Ty.Related R) t t' →
      Expr.Related R (.new n s t) (.new n' s t')
  | binary {op a a' b b' s t t'} : Expr.Related R a a' → Expr.Related R b b' →
      Option.Rel (Ty.Related R) t t' → Expr.Related R (.binary op a b s t) (.binary op a' b' s t')
  | unary {op a a' s t t'} : Expr.Related R a a' → Option.Rel (Ty.Related R) t t' →
      Expr.Related R (.unary op a s t) (.unary op a' s t')
  | ident {n n' t t'} : n.Related R n' → Option.Rel (Ty.Related R) t t' →
      Expr.Related R (.ident n t) (.ident n' t')
  | int {v v' s t t'} : R.int v v' → Option.Rel (Ty.Related R) t t' →
      Expr.Related R (.int v s t) (.int v' s t')
  | string {v v' s t t'} : R.string v v' → Option.Rel (Ty.Related R) t t' →
      Expr.Related R (.string v s t) (.string v' s t')
  | bool {v s t t'} : Option.Rel (Ty.Related R) t t' → Expr.Related R (.bool v s t) (.bool v s t')
  | absent {s t t'} : Option.Rel (Ty.Related R) t t' → Expr.Related R (.absent s t) (.absent s t')

/-- Two receivers of one form, with related objects and class names. -/
inductive Receiver.Related (R : SymbolRel) : Receiver → Receiver → Prop where
  | implicit : Receiver.Related R .implicit .implicit
  | dynamic {o o'} : Expr.Related R o o' → Receiver.Related R (.dynamic o) (.dynamic o')
  | static {o o' n n'} : Expr.Related R o o' → n.Related R n' →
      Receiver.Related R (.static o n) (.static o' n')

/-- Two bindings, both with an initial value or both without one. -/
inductive Binding.Related (R : SymbolRel) : Binding → Binding → Prop where
  | mk {n n' tn tn' init init' s} : n.Related R n' → tn.Related R tn' →
      Option.Rel (Expr.Related R) init init' →
      Binding.Related R ⟨n, tn, init, s⟩ ⟨n', tn', init', s⟩

/-- Two case branches. -/
inductive Arm.Related (R : SymbolRel) : Arm → Arm → Prop where
  | mk {n n' tn tn' e e' s} : n.Related R n' → tn.Related R tn' → Expr.Related R e e' →
      Arm.Related R ⟨n, tn, e, s⟩ ⟨n', tn', e', s⟩

end

/-- Two parameters of methods. -/
structure Formal.Related (R : SymbolRel) (f f' : Formal) : Prop where
  name : f.name.Related R f'.name
  typeName : f.typeName.Related R f'.typeName
  span : f.span = f'.span

/-- Two methods. -/
structure Method.Related (R : SymbolRel) (m m' : Method) : Prop where
  name : m.name.Related R m'.name
  params : List.Forall₂ (Formal.Related R) m.params m'.params
  returnType : m.returnType.Related R m'.returnType
  body : m.body.Related R m'.body
  span : m.span = m'.span

/-- Two methods or two attributes. -/
inductive Feature.Related (R : SymbolRel) : Feature → Feature → Prop where
  | method {m m'} : m.Related R m' → Feature.Related R (.method m) (.method m')
  | attr {b b'} : b.Related R b' → Feature.Related R (.attr b) (.attr b')

/-- Two classes of related files. -/
structure Class.Related (R : SymbolRel) (c c' : Class) : Prop where
  name : c.name.Related R c'.name
  parent : c.parent.Related R c'.parent
  file : R.id c.file c'.file
  features : List.Forall₂ (Feature.Related R) c.features c'.features
  span : c.span = c'.span

/-- Two programs with corresponding classes in the same order. -/
structure Program.Related (R : SymbolRel) (p p' : Program) : Prop where
  classes : List.Forall₂ (Class.Related R) p.classes p'.classes
  span : p.span = p'.span

/-! ## Violations -/

/-- Two violations of one kind, with related names and types. -/
inductive Violation.Related {ν ν' τ τ' : Type} (N : ν → ν' → Prop) (T : τ → τ' → Prop) :
    Violation ν τ → Violation ν' τ' → Prop where
  | illegalParent {c c' p} : N c c' → Related N T (.illegalParent c p) (.illegalParent c' p)
  | builtinRedefined {b} : Related N T (.builtinRedefined b) (.builtinRedefined b)
  | multipleClassDefinition {c c'} : N c c' →
      Related N T (.multipleClassDefinition c) (.multipleClassDefinition c')
  | unresolvedParent {c c' p p'} : N c c' → N p p' →
      Related N T (.unresolvedParent c p) (.unresolvedParent c' p')
  | noMainClass : Related N T .noMainClass .noMainClass
  | inheritanceCycle {c c'} : N c c' → Related N T (.inheritanceCycle c) (.inheritanceCycle c')
  | illegalSelfType {p} : Related N T (.illegalSelfType p) (.illegalSelfType p)
  | undeclaredType {n n'} : N n n' → Related N T (.undeclaredType n) (.undeclaredType n')
  | undeclaredIdentifier {n n'} : N n n' →
      Related N T (.undeclaredIdentifier n) (.undeclaredIdentifier n')
  | undeclaredMethod {c c' m m'} : N c c' → N m m' →
      Related N T (.undeclaredMethod c m) (.undeclaredMethod c' m')
  | mismatchedTypes {e e' a a'} : T e e' → T a a' →
      Related N T (.mismatchedTypes e a) (.mismatchedTypes e' a')
  | argumentCount {e s} : Related N T (.argumentCount e s) (.argumentCount e s)
  | duplicateCaseType {n n'} : N n n' → Related N T (.duplicateCaseType n) (.duplicateCaseType n')
  | multipleDefinition {k n n'} : N n n' →
      Related N T (.multipleDefinition k n) (.multipleDefinition k n')
  | invalidOverride {m m' a a' d} : N m m' → N a a' →
      Related N T (.invalidOverride m a d) (.invalidOverride m' a' d)
  | illegalSelf : Related N T .illegalSelf .illegalSelf

/-- Two violations at the same place. -/
structure TypeError.Related {ν ν' τ τ' : Type} (N : ν → ν' → Prop) (T : τ → τ' → Prop)
    (e : TypeError ν τ) (e' : TypeError ν' τ') : Prop where
  violation : Violation.Related N T e.violation e'.violation
  span : e.span = e'.span

theorem Violation.Related.place {ν ν' τ τ' : Type} {N : ν → ν' → Prop} {T : τ → τ' → Prop}
    {v : Violation ν τ} {v' : Violation ν' τ'} (h : v.Related N T v') {s s' : Span} (hs : s = s') :
    (v.place s).Related N T (v'.place s') := by
  subst hs
  cases h <;> exact ⟨by constructor <;> assumption, rfl⟩

end CoolTypes
