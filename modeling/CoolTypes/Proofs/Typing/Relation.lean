import CoolTypes.Proofs.Typing.Regular
import CoolTypes.Proofs.Typing.Run

/-!
# The typing relation

`HasType` is the typing relation of the language, one rule for each way in which an expression gets a
type. In a regular setting it says what the check does (`hasType_iff`): an expression has a type if
and only if nothing is reported in it, and it has no other type than the inferred one.
-/

namespace CoolTypes

/-- The type is that of a class whose objects are compared by value. -/
def SymbolTables.PrimitiveTy (t : SymbolTables) (T : Ty) : Prop := ∃ c, T = .named c ∧ t.IsPrimitive c

theorem Ty.orSelf_selfType (T : Ty) : T.orSelf .selfType = T := by
  cases T <;> rfl

mutual

/-- In the code of class `C` and under the types that `env` gives to names, an expression has a type. A
type that is written on the expression already plays no part. -/
inductive HasType (Γ : Setting) (C : Symbol) : Env → Expr → Ty → Prop
  | int {env v s t} : HasType Γ C env (.int v s t) (Γ.builtin .int)
  | string {env v s t} : HasType Γ C env (.string v s t) (Γ.builtin .string)
  | bool {env v s t} : HasType Γ C env (.bool v s t) (Γ.builtin .bool)
  | absent {env s t} : HasType Γ C env (.absent s t) Γ.top
  | self {env n t} : n.symbol = Γ.tables.known .self → HasType Γ C env (.ident n t) .selfType
  | ident {env n t T} : n.symbol ≠ Γ.tables.known .self → Γ.lookup? C env n = some T →
      HasType Γ C env (.ident n t) T
  | assign {env n e s t T U} : n.symbol ≠ Γ.tables.known .self → Γ.lookup? C env n = some U →
      HasType Γ C env e T → Γ.hierarchy.graph.Conforms C T U → HasType Γ C env (.assign n e s t) T
  | callImplicit {env m args s t Ts sig} : HasTypes Γ C env args Ts →
      Γ.signatures.method? C m.symbol = some sig →
      List.Forall₂ (Γ.hierarchy.graph.Conforms C) Ts sig.params →
      HasType Γ C env (.call .implicit m args s t) sig.ret
  | callDynamic {env o m args s t R Ts sig} : HasType Γ C env o R → HasTypes Γ C env args Ts →
      Γ.signatures.method? (R.within C) m.symbol = some sig →
      List.Forall₂ (Γ.hierarchy.graph.Conforms C) Ts sig.params →
      HasType Γ C env (.call (.dynamic o) m args s t) (sig.ret.orSelf R)
  | callStatic {env o n m args s t R K Ts sig} : HasType Γ C env o R →
      Γ.signatures.resolve? n.symbol = some (.named K) →
      Γ.hierarchy.graph.Conforms C R (.named K) → HasTypes Γ C env args Ts →
      Γ.signatures.method? K m.symbol = some sig →
      List.Forall₂ (Γ.hierarchy.graph.Conforms C) Ts sig.params →
      HasType Γ C env (.call (.static o n) m args s t) (sig.ret.orSelf R)
  | cond {env a b c s t A T U J} : HasType Γ C env a A →
      Γ.hierarchy.graph.Conforms C A (Γ.builtin .bool) → HasType Γ C env b T →
      HasType Γ C env c U → Γ.hierarchy.graph.IsJoin [T.within C, U.within C] J →
      HasType Γ C env (.cond a b c s t) (.named J)
  | loop {env a b s t A T} : HasType Γ C env a A →
      Γ.hierarchy.graph.Conforms C A (Γ.builtin .bool) → HasType Γ C env b T →
      HasType Γ C env (.loop a b s t) Γ.top
  | block {env es s t Ts} : HasTypes Γ C env es Ts →
      HasType Γ C env (.block es s t) (Ts.getLast?.getD Γ.top)
  | letIn {env n tn bs e s t T U} : Γ.signatures.resolve? tn.symbol = some U →
      n.symbol ≠ Γ.tables.known .self → HasType Γ C (env.bind n.symbol U) e T →
      HasType Γ C env (.letIn ⟨n, tn, none, bs⟩ e s t) T
  | letInit {env n tn i bs e s t I T U} : Γ.signatures.resolve? tn.symbol = some U →
      HasType Γ C env i I → Γ.hierarchy.graph.Conforms C I U → n.symbol ≠ Γ.tables.known .self →
      HasType Γ C (env.bind n.symbol U) e T → HasType Γ C env (.letIn ⟨n, tn, some i, bs⟩ e s t) T
  | caseOf {env e arms s t S Ks Ts J} : HasType Γ C env e S → HasArms Γ C env arms Ks Ts →
      Ks.Nodup → Γ.hierarchy.graph.IsJoin (Ts.map (·.within C)) J → arms ≠ [] →
      HasType Γ C env (.caseOf e arms s t) (.named J)
  | caseNone {env e s t S} : HasType Γ C env e S → HasType Γ C env (.caseOf e [] s t) Γ.top
  | new {env n s t U} : Γ.signatures.resolve? n.symbol = some U →
      HasType Γ C env (.new n s t) (.named (U.within C))
  | arithmetic {env op a b s t A B} : op ∈ [.add, .subtract, .multiply, .divide] →
      HasType Γ C env a A → Γ.hierarchy.graph.Conforms C A (Γ.builtin .int) →
      HasType Γ C env b B → Γ.hierarchy.graph.Conforms C B (Γ.builtin .int) →
      HasType Γ C env (.binary op a b s t) (Γ.builtin .int)
  | order {env op a b s t A B} : op ∈ [.lessThan, .lessEquals] →
      HasType Γ C env a A → Γ.hierarchy.graph.Conforms C A (Γ.builtin .int) →
      HasType Γ C env b B → Γ.hierarchy.graph.Conforms C B (Γ.builtin .int) →
      HasType Γ C env (.binary op a b s t) (Γ.builtin .bool)
  | equals {env a b s t A B} : HasType Γ C env a A → HasType Γ C env b B →
      (Γ.tables.PrimitiveTy A ∨ Γ.tables.PrimitiveTy B → A = B) →
      HasType Γ C env (.binary .equals a b s t) (Γ.builtin .bool)
  | isVoid {env a s t A} : HasType Γ C env a A →
      HasType Γ C env (.unary .isVoid a s t) (Γ.builtin .bool)
  | complement {env a s t A} : HasType Γ C env a A →
      Γ.hierarchy.graph.Conforms C A (Γ.builtin .int) →
      HasType Γ C env (.unary .complement a s t) (Γ.builtin .int)
  | not {env a s t A} : HasType Γ C env a A → Γ.hierarchy.graph.Conforms C A (Γ.builtin .bool) →
      HasType Γ C env (.unary .not a s t) (Γ.builtin .bool)

/-- Expressions one after the other have these types. -/
inductive HasTypes (Γ : Setting) (C : Symbol) : Env → List Expr → List Ty → Prop
  | nil {env} : HasTypes Γ C env [] []
  | cons {env e es T Ts} : HasType Γ C env e T → HasTypes Γ C env es Ts →
      HasTypes Γ C env (e :: es) (T :: Ts)

/-- Case branches match these classes and have these types. -/
inductive HasArms (Γ : Setting) (C : Symbol) : Env → List Arm → List Symbol → List Ty → Prop
  | nil {env} : HasArms Γ C env [] [] []
  | cons {env n tn e s arms K Ks T Ts} : Γ.signatures.resolve? tn.symbol = some (.named K) →
      n.symbol ≠ Γ.tables.known .self → HasType Γ C (env.bind n.symbol (.named K)) e T →
      HasArms Γ C env arms Ks Ts → HasArms Γ C env (⟨n, tn, e, s⟩ :: arms) (K :: Ks) (T :: Ts)

end

namespace Setting

variable {Γ : Setting} {C : Symbol} {env : Env}

/-! ## When nothing is reported -/

theorem typeReports_eq_nil_iff {n : Name} :
    Γ.typeReports n = [] ↔ ∃ U, Γ.signatures.resolve? n.symbol = some U := by
  unfold typeReports
  cases Γ.signatures.resolve? n.symbol <;> simp

theorem classReports_eq_nil_iff {n : Name} {place : SelfTypePlace} :
    Γ.classReports n place = [] ↔ ∃ K, Γ.signatures.resolve? n.symbol = some (.named K) := by
  unfold classReports
  cases Γ.signatures.resolve? n.symbol with
  | none => simp
  | some T => cases T <;> simp

theorem bindReports_eq_nil_iff {n : Name} :
    Γ.bindReports n = [] ↔ n.symbol ≠ Γ.tables.known .self := by
  simp [bindReports]

theorem identReports_eq_nil_iff {n : Name} : Γ.identReports C env n = [] ↔
    n.symbol = Γ.tables.known .self ∨ ∃ T, Γ.lookup? C env n = some T := by
  unfold identReports
  by_cases h : n.symbol = Γ.tables.known .self
  · simp [h]
  · cases Γ.lookup? C env n <;> simp [h]

theorem isPrimitive_iff {T : Ty} : Γ.isPrimitive T = true ↔ Γ.tables.PrimitiveTy T := by
  cases T with
  | selfType => simp [isPrimitive, Ty.isBuiltin, SymbolTables.PrimitiveTy]
  | named c =>
    simp only [isPrimitive, Ty.isBuiltin, SymbolTables.PrimitiveTy, SymbolTables.IsPrimitive,
      BuiltinClass.symbol, BuiltinClass.wellKnown, List.any_cons, List.any_nil, Bool.or_false,
      Bool.or_eq_true, beq_iff_eq, Ty.named.injEq, exists_eq_left']
    tauto

theorem comparableReports_eq_nil_iff {a b : Expr} : Γ.comparableReports C env a b = [] ↔
    (Γ.tables.PrimitiveTy (Γ.infer C env a) ∨ Γ.tables.PrimitiveTy (Γ.infer C env b) →
      Γ.infer C env a = Γ.infer C env b) := by
  unfold comparableReports
  simp only [← isPrimitive_iff]
  split
  · next h =>
    simp only [Bool.and_eq_true, Bool.or_eq_true, bne_iff_ne, ne_eq] at h
    refine iff_of_false ?_ fun himp => h.2 (himp h.1)
    split <;> simp
  · next h =>
    refine iff_of_true rfl fun hp => ?_
    simpa [hp] using h

theorem conformReports_eq_nil_iff (hΓ : Γ.Regular) (hC : Γ.Checkable C) {T U : Ty} {span : Span}
    (hT : Γ.hierarchy.Declares T) :
    Γ.conformReports C T span U = [] ↔ Γ.hierarchy.graph.Conforms C T U := by
  rw [← hΓ.rooted.conforms_iff hC.contains hT]
  simp [conformReports]

section

variable (hΓ : Γ.Regular) (hC : Γ.Checkable C) (henv : env.Declared Γ.hierarchy)

include hΓ hC henv

theorem expectReports_eq_nil_iff {e : Expr} {U : Ty} : Γ.expectReports C env e U = [] ↔
    Γ.hierarchy.graph.Conforms C (Γ.infer C env e) U :=
  conformReports_eq_nil_iff hΓ hC (hΓ.infer_declares hC henv e)

theorem assignReports_eq_nil_iff {n : Name} {e : Expr} : Γ.assignReports C env n e = [] ↔
    n.symbol ≠ Γ.tables.known .self ∧ ∃ U, Γ.lookup? C env n = some U ∧
      Γ.hierarchy.graph.Conforms C (Γ.infer C env e) U := by
  unfold assignReports
  by_cases h : n.symbol = Γ.tables.known .self
  · simp [h]
  · cases hU : Γ.lookup? C env n with
    | none => simp [h]
    | some U => simp [h, expectReports_eq_nil_iff hΓ hC henv]

theorem argumentReports_eq_nil_iff {es : List Expr} {Ts : List Ty} (hlen : Ts.length = es.length) :
    Γ.argumentReports C env es Ts = [] ↔
      List.Forall₂ (Γ.hierarchy.graph.Conforms C) (es.map (Γ.infer C env)) Ts := by
  induction es generalizing Ts with
  | nil =>
    rw [List.length_eq_zero_iff.mp hlen]
    simp [argumentReports]
  | cons e rest ih =>
    cases Ts with
    | nil => simp at hlen
    | cons T Ts =>
      rw [argumentReports, List.append_eq_nil_iff, expectReports_eq_nil_iff hΓ hC henv,
        ih (by simpa using hlen), List.map_cons, List.forall₂_cons]

theorem callReports_eq_nil_iff {c : Symbol} {m : Name} {args : List Expr} {span : Span} :
    Γ.callReports C env (some c) m args span = [] ↔
      ∃ sig, Γ.signatures.method? c m.symbol = some sig ∧
        List.Forall₂ (Γ.hierarchy.graph.Conforms C) (args.map (Γ.infer C env)) sig.params := by
  unfold callReports
  dsimp only
  cases Γ.signatures.method? c m.symbol with
  | none => simp
  | some sig =>
    simp only [List.append_eq_nil_iff, Option.some.injEq, exists_eq_left']
    by_cases hlen : sig.params.length = args.length
    · simp only [hlen, if_true, true_and]
      exact argumentReports_eq_nil_iff hΓ hC henv hlen
    · simp only [hlen, if_false]
      refine iff_of_false (by simp) fun h => hlen ?_
      rw [← h.length_eq, List.length_map]

theorem targetReports_static_eq_nil_iff {o : Expr} {n : Name} :
    Γ.targetReports C env (.static o n) = [] ↔
      ∃ K, Γ.signatures.resolve? n.symbol = some (.named K) ∧
        Γ.hierarchy.graph.Conforms C (Γ.infer C env o) (.named K) := by
  dsimp only [targetReports]
  cases Γ.signatures.resolve? n.symbol with
  | none => simp
  | some T =>
    cases T with
    | selfType => simp
    | named K => simp [expectReports_eq_nil_iff hΓ hC henv]

end

/-- The classes that case branches match. -/
def armClasses (Γ : Setting) (arms : List Arm) : List Symbol :=
  arms.filterMap fun arm => Γ.classOf? arm.typeName

/-- No class is matched a second time if all are distinct and none has been seen. -/
theorem distinctReports_eq_nil_iff {seen : List Symbol} {arms : List Arm} :
    Γ.distinctReports seen arms = [] ↔
      (Γ.armClasses arms).Nodup ∧ ∀ K ∈ Γ.armClasses arms, K ∉ seen := by
  unfold armClasses
  induction arms generalizing seen with
  | nil => simp [distinctReports]
  | cons arm rest ih =>
    unfold distinctReports
    cases hK : Γ.classOf? arm.typeName with
    | none => simp [ih, hK]
    | some K =>
      simp only [List.append_eq_nil_iff, ih, List.filterMap_cons, hK, List.nodup_cons,
        List.mem_cons, not_or, forall_eq_or_imp]
      by_cases hseen : K ∈ seen
      · simp [hseen]
      · simp only [hseen, if_false, true_and, not_false_eq_true]
        constructor
        · rintro ⟨hnodup, hnew⟩
          exact ⟨⟨fun hmem => (hnew K hmem).1 rfl, hnodup⟩, fun L hL => (hnew L hL).2⟩
        · rintro ⟨⟨hfresh, hnodup⟩, hnew⟩
          exact ⟨hnodup, fun L hL => ⟨fun heq => hfresh (heq ▸ hL), hnew L hL⟩⟩

end Setting

end CoolTypes
