import CoolTypes.Proofs.Classes.Agreement
import CoolTypes.Proofs.Syntax.Erasure
import CoolTypes.Proofs.Typing.Within

/-!
# What the check depends on

The check of an expression looks at the tables and ancestors of the classes that it comes to and at nothing
else of a setting, and it never looks at the static types that the expression carries before. So two
settings that agree on these classes find the same types, make the same reports and write the same static
types, whatever annotations there were (`AgreesOn.infer`, `AgreesOn.reports`, `AgreesOn.annotate`).
-/

namespace CoolTypes

variable {S : Symbol → Prop}

namespace Setting

/-- Two settings have the same symbols and root, and give some classes the same ancestors and tables. -/
structure AgreesOn (S : Symbol → Prop) (Γ Γ' : Setting) : Prop where
  tables : Γ'.tables = Γ.tables
  root : Γ'.hierarchy.root = Γ.hierarchy.root
  ancestors : ∀ c, S c → Γ'.hierarchy.ancestors c = Γ.hierarchy.ancestors c
  selfType : Γ'.signatures.selfType = Γ.signatures.selfType
  table : ∀ c, S c → Γ'.signatures.get? c = Γ.signatures.get? c

namespace AgreesOn

theorem refl (Γ : Setting) : Γ.AgreesOn S Γ := ⟨rfl, rfl, fun _ _ => rfl, rfl, fun _ _ => rfl⟩

variable {Γ Γ' : Setting} (hΓ : Γ.AgreesOn S Γ')

include hΓ

/-! ## Names -/

theorem contains {c : Symbol} (hc : S c) : Γ'.signatures.contains c = Γ.signatures.contains c :=
  congrArg Option.isSome (hΓ.table c hc)

theorem resolve? {n : Symbol} (hn : S n) :
    Γ'.signatures.resolve? n = Γ.signatures.resolve? n := by
  simp only [Signatures.resolve?, hΓ.selfType, hΓ.contains hn]

theorem method? {c : Symbol} (hc : S c) (n : Symbol) :
    Γ'.signatures.method? c n = Γ.signatures.method? c n := by
  simp only [Signatures.method?, hΓ.table c hc]

theorem attr? {c : Symbol} (hc : S c) (n : Symbol) :
    Γ'.signatures.attr? c n = Γ.signatures.attr? c n := by
  simp only [Signatures.attr?, hΓ.table c hc]

theorem top : Γ'.top = Γ.top := congrArg Ty.named hΓ.root

theorem builtin (b : BuiltinClass) : Γ'.builtin b = Γ.builtin b := by
  simp only [Setting.builtin, hΓ.tables]

theorem declaredTy {n : Name} (hn : S n.symbol) : Γ'.declaredTy n = Γ.declaredTy n := by
  simp only [Setting.declaredTy, hΓ.tables, hΓ.resolve? hn, hΓ.top]

theorem nameTy {n : Name} (hn : S n.symbol) : Γ'.nameTy n = Γ.nameTy n := by
  simp only [Setting.nameTy, hΓ.resolve? hn, hΓ.top]

theorem armTy {n : Name} (hn : S n.symbol) : Γ'.armTy n = Γ.armTy n := by
  simp only [Setting.armTy, hΓ.nameTy hn, hΓ.top]

theorem classOf? {n : Name} (hn : S n.symbol) : Γ'.classOf? n = Γ.classOf? n := by
  simp only [Setting.classOf?, hΓ.resolve? hn]

theorem bound (env : Env) (n : Name) (T : Ty) : Γ'.bound env n T = Γ.bound env n T := by
  simp only [Setting.bound, hΓ.tables]

theorem lookup? {C : Symbol} (hC : S C) (env : Env) (n : Name) :
    Γ'.lookup? C env n = Γ.lookup? C env n := by
  simp only [Setting.lookup?, hΓ.attr? hC]

theorem identTy {C : Symbol} (hC : S C) (env : Env) (n : Name) :
    Γ'.identTy C env n = Γ.identTy C env n := by
  simp only [Setting.identTy, hΓ.tables, hΓ.lookup? hC, hΓ.top]

/-! ## Conformance -/

theorem conforms {C : Symbol} (hC : S C) {T : Ty} (hT : T.In S) (expected : Ty) :
    Γ'.hierarchy.conforms C T expected = Γ.hierarchy.conforms C T expected := by
  have hsub : ∀ c, Γ'.hierarchy.isSubclass (T.within C) c = Γ.hierarchy.isSubclass (T.within C) c :=
    fun c => by simp only [ClassHierarchy.isSubclass, hΓ.ancestors _ (hT.within hC)]
  cases expected with
  | named c => cases T <;> exact hsub c
  | selfType => cases T <;> rfl

theorem join {C : Symbol} {a b : Ty} (ha : S (a.within C)) (hb : S (b.within C)) :
    Γ'.hierarchy.join C a b = Γ.hierarchy.join C a b := by
  simp only [ClassHierarchy.join, hΓ.ancestors _ ha, hΓ.ancestors _ hb, hΓ.root]

theorem joinTy (hin : Γ.Within S) {C : Symbol} {Ts : List Ty} (hTs : ∀ T ∈ Ts, S (T.within C)) :
    Γ'.joinTy C Ts = Γ.joinTy C Ts := by
  have hall : Γ'.hierarchy.joinAll? C Ts = Γ.hierarchy.joinAll? C Ts := by
    cases Ts with
    | nil => rfl
    | cons T rest =>
      rw [List.forall_mem_cons] at hTs
      obtain ⟨hT, hrest⟩ := hTs
      simp only [ClassHierarchy.joinAll?, Option.some.injEq]
      generalize T.within C = c at hT ⊢
      induction rest generalizing c with
      | nil => rfl
      | cons U rest ih =>
        rw [List.forall_mem_cons] at hrest
        rw [List.foldl_cons, List.foldl_cons, hΓ.join (a := .named c) hT hrest.1]
        exact ih hrest.2 _ (hin.hierarchy.join (a := .named c) hT)
  simp only [Setting.joinTy, hall, hΓ.top]

theorem isPrimitive (T : Ty) : Γ'.isPrimitive T = Γ.isPrimitive T := by
  simp only [Setting.isPrimitive, hΓ.tables]

/-! ## Types -/

theorem target? {C : Symbol} {T : Ty} {r : Receiver} (hn : ∀ n ∈ r.typeName?, S n.symbol) :
    Γ'.target? C T (Expr.eraseReceiver r) = Γ.target? C T r := by
  cases r with
  | implicit | dynamic o => rfl
  | static o n => exact hΓ.classOf? (hn n rfl)

theorem resultTy {T : Ty} {target : Option Symbol} (htarget : ∀ c ∈ target, S c) (m : Name) :
    Γ'.resultTy T target m = Γ.resultTy T target m := by
  cases target with
  | none => exact hΓ.top
  | some c => simp only [Setting.resultTy, Option.bind_some, hΓ.method? (htarget c rfl), hΓ.top]

theorem binaryTy (op : BinaryOp) : Γ'.binaryTy op = Γ.binaryTy op := by
  cases op <;> exact hΓ.builtin _

theorem unaryTy (op : UnaryOp) : Γ'.unaryTy op = Γ.unaryTy op := by
  cases op <;> exact hΓ.builtin _

variable (hin : Γ.Within S) {C : Symbol} (hC : S C) {env : Env} (henv : env.In S)

include hin hC henv

omit hC in
theorem armTys {arms : List Arm} (htn : ∀ arm ∈ arms, S arm.typeName.symbol)
    (h : ∀ arm ∈ arms, ∀ env : Env, env.In S →
      Γ'.infer C env arm.body.erase = Γ.infer C env arm.body) :
    Γ'.armTys C env (Expr.eraseArms arms) = Γ.armTys C env arms := by
  induction arms with
  | nil => rfl
  | cons arm rest ih =>
    obtain ⟨n, tn, e, s⟩ := arm
    rw [List.forall_mem_cons] at htn h
    have hbody := h.1 _ (Within.bound (Γ := Γ) henv (n := n) (hin.armTy htn.1))
    rw [Expr.eraseArms, Setting.armTys, Setting.armTys, ih htn.2 h.2, hΓ.armTy htn.1, hΓ.bound, hbody]

/-- Both settings find the same type. -/
theorem infer {e : Expr} (h : e.TypesIn S) : Γ'.infer C env e.erase = Γ.infer C env e := by
  induction h generalizing env with
  | assign _ ih => exact ih henv
  | @call r m args s ty ho hn _ iho _ =>
    have hty : Γ'.receiverTy C env (Expr.eraseReceiver r) = Γ.receiverTy C env r := by
      cases r with
      | implicit => rfl
      | dynamic o | static o n => exact iho o rfl henv
    have htarget := Within.target (Γ := Γ) hC (hin.receiverTy hC henv ho) hn
    rw [Expr.erase, Setting.infer, Setting.infer, hty, hΓ.target? hn, hΓ.resultTy htarget]
  | cond _ hb hc _ ihb ihc =>
    have hb := (hin.infer hC henv hb).within hC
    have hc := (hin.infer hC henv hc).within hC
    rw [Expr.erase, Setting.infer, Setting.infer, ihb henv, ihc henv, hΓ.join hb hc]
  | loop | absent => exact hΓ.top
  | @block es s ty hes ih =>
    rw [Expr.erase, Setting.infer, Setting.infer, lastTy_eq, lastTy_eq, Expr.eraseAll_eq,
      List.getLast?_map, hΓ.top]
    cases he : es.getLast? with
    | none => rfl
    | some e => exact ih e (List.mem_of_getLast? he) henv
  | @letIn b e s ty htn _ _ _ ih =>
    have hbody := ih (Within.bound (Γ := Γ) henv (n := b.name) (hin.nameTy htn))
    obtain ⟨n, tn, init, bs⟩ := b
    rw [Expr.erase, Setting.infer, Setting.infer, hΓ.nameTy htn, hΓ.bound, hbody]
  | caseOf _ htn hbody _ ih =>
    have harms := hΓ.armTys hin henv htn fun arm harm env henv => ih arm harm henv
    have hTs := hin.armTys hC henv htn fun arm harm env henv => hin.infer hC henv (hbody arm harm)
    rw [Expr.erase, Setting.infer, Setting.infer, harms, hΓ.joinTy hin hTs]
  | new hn => rw [Expr.erase, Setting.infer, Setting.infer, hΓ.nameTy hn]
  | binary => exact hΓ.binaryTy _
  | unary => exact hΓ.unaryTy _
  | ident => exact hΓ.identTy hC env _
  | int | string | bool => exact hΓ.builtin _

theorem receiverTy {r : Receiver} (ho : ∀ o ∈ r.object?, o.TypesIn S) :
    Γ'.receiverTy C env (Expr.eraseReceiver r) = Γ.receiverTy C env r := by
  cases r with
  | implicit => rfl
  | dynamic o | static o n => exact hΓ.infer hin hC henv (ho o rfl)

/-! ## Reports on names -/

omit hin hC henv

theorem typeReports {n : Name} (hn : S n.symbol) : Γ'.typeReports n = Γ.typeReports n := by
  simp only [Setting.typeReports, hΓ.resolve? hn]

theorem classReports {n : Name} (hn : S n.symbol) (place : SelfTypePlace) :
    Γ'.classReports n place = Γ.classReports n place := by
  simp only [Setting.classReports, hΓ.resolve? hn]

theorem bindReports (n : Name) : Γ'.bindReports n = Γ.bindReports n := by
  simp only [Setting.bindReports, hΓ.tables]

theorem distinctReports (seen : List Symbol) {arms : List Arm}
    (htn : ∀ arm ∈ arms, S arm.typeName.symbol) :
    Γ'.distinctReports seen (Expr.eraseArms arms) = Γ.distinctReports seen arms := by
  induction arms generalizing seen with
  | nil => rfl
  | cons arm rest ih =>
    obtain ⟨n, tn, e, s⟩ := arm
    rw [List.forall_mem_cons] at htn
    simp only [Expr.eraseArms, Setting.distinctReports, hΓ.classOf? htn.1, ih _ htn.2]

include hC

theorem identReports (env : Env) (n : Name) : Γ'.identReports C env n = Γ.identReports C env n := by
  simp only [Setting.identReports, hΓ.tables, hΓ.lookup? hC]

/-! ## Reports on types -/

include hin henv

theorem expectReports {e : Expr} (he : e.TypesIn S) (expected : Ty) :
    Γ'.expectReports C env e.erase expected = Γ.expectReports C env e expected := by
  simp only [Setting.expectReports, conformReports, hΓ.infer hin hC henv he, Expr.span_erase,
    hΓ.conforms hC (hin.infer hC henv he)]

theorem assignReports (n : Name) {e : Expr} (he : e.TypesIn S) :
    Γ'.assignReports C env n e.erase = Γ.assignReports C env n e := by
  simp only [Setting.assignReports, hΓ.tables, hΓ.lookup? hC, hΓ.expectReports hin hC henv he]

theorem comparableReports {a b : Expr} (ha : a.TypesIn S) (hb : b.TypesIn S) :
    Γ'.comparableReports C env a.erase b.erase = Γ.comparableReports C env a b := by
  simp only [Setting.comparableReports, hΓ.infer hin hC henv ha, hΓ.infer hin hC henv hb,
    hΓ.isPrimitive, Expr.span_erase]

theorem binaryReports (op : BinaryOp) {a b : Expr} (ha : a.TypesIn S) (hb : b.TypesIn S) :
    Γ'.binaryReports C env op a.erase b.erase = Γ.binaryReports C env op a b := by
  have hboth : Γ'.expectReports C env a.erase (Γ'.builtin .int) ++
      Γ'.expectReports C env b.erase (Γ'.builtin .int) =
        Γ.expectReports C env a (Γ.builtin .int) ++ Γ.expectReports C env b (Γ.builtin .int) := by
    rw [hΓ.builtin, hΓ.expectReports hin hC henv ha, hΓ.expectReports hin hC henv hb]
  cases op with
  | equals => exact hΓ.comparableReports hin hC henv ha hb
  | add | subtract | multiply | divide | lessThan | lessEquals => exact hboth

theorem unaryReports (op : UnaryOp) {a : Expr} (ha : a.TypesIn S) :
    Γ'.unaryReports C env op a.erase = Γ.unaryReports C env op a := by
  cases op with
  | isVoid => rfl
  | complement | not =>
    simp only [Setting.unaryReports, hΓ.builtin, hΓ.expectReports hin hC henv ha]

theorem argumentReports {es : List Expr} (hes : ∀ e ∈ es, e.TypesIn S) (Ts : List Ty) :
    Γ'.argumentReports C env (Expr.eraseAll es) Ts = Γ.argumentReports C env es Ts := by
  induction es generalizing Ts with
  | nil => rfl
  | cons e rest ih =>
    cases Ts with
    | nil => rfl
    | cons T Ts =>
      rw [List.forall_mem_cons] at hes
      rw [Expr.eraseAll, Setting.argumentReports, Setting.argumentReports, ih hes.2,
        hΓ.expectReports hin hC henv hes.1]

theorem targetReports {r : Receiver} (ho : ∀ o ∈ r.object?, o.TypesIn S)
    (hn : ∀ n ∈ r.typeName?, S n.symbol) :
    Γ'.targetReports C env (Expr.eraseReceiver r) = Γ.targetReports C env r := by
  cases r with
  | implicit | dynamic o => rfl
  | static o n =>
    simp only [Expr.eraseReceiver, Setting.targetReports, hΓ.resolve? (hn n rfl),
      hΓ.expectReports hin hC henv (ho o rfl)]

theorem callReports {target : Option Symbol} (htarget : ∀ c ∈ target, S c) (m : Name)
    {args : List Expr} (hargs : ∀ e ∈ args, e.TypesIn S) (span : Span) :
    Γ'.callReports C env target m (Expr.eraseAll args) span =
      Γ.callReports C env target m args span := by
  cases target with
  | none => rfl
  | some c =>
    have hlength : (Expr.eraseAll args).length = args.length := by
      rw [Expr.eraseAll_eq, List.length_map]
    simp only [Setting.callReports, hΓ.method? (htarget c rfl), hlength,
      hΓ.argumentReports hin hC henv hargs]

theorem initReports (T : Ty) {init : Option Expr} (hi : ∀ i ∈ init, i.TypesIn S)
    (h : ∀ i ∈ init, Γ'.reports C env i.erase = Γ.reports C env i) :
    Γ'.initReports C env T (Expr.eraseInit init) = Γ.initReports C env T init := by
  cases init with
  | none => rfl
  | some i =>
    simp only [Expr.eraseInit, Setting.initReports, h i rfl,
      hΓ.expectReports hin hC henv (hi i rfl)]

omit hΓ hin hC henv in
theorem reportsAll {es : List Expr}
    (h : ∀ e ∈ es, Γ'.reports C env e.erase = Γ.reports C env e) :
    Γ'.reportsAll C env (Expr.eraseAll es) = Γ.reportsAll C env es := by
  induction es with
  | nil => rfl
  | cons e rest ih =>
    rw [List.forall_mem_cons] at h
    rw [Expr.eraseAll, Setting.reportsAll, Setting.reportsAll, h.1, ih h.2]

omit hC in
theorem armReports {arms : List Arm} (htn : ∀ arm ∈ arms, S arm.typeName.symbol)
    (h : ∀ arm ∈ arms, ∀ env : Env, env.In S →
      Γ'.reports C env arm.body.erase = Γ.reports C env arm.body) :
    Γ'.armReports C env (Expr.eraseArms arms) = Γ.armReports C env arms := by
  induction arms with
  | nil => rfl
  | cons arm rest ih =>
    obtain ⟨n, tn, e, s⟩ := arm
    rw [List.forall_mem_cons] at htn h
    have hbody := h.1 _ (Within.bound (Γ := Γ) henv (n := n) (hin.armTy htn.1))
    rw [Expr.eraseArms, Setting.armReports, Setting.armReports, ih htn.2 h.2, hΓ.armTy htn.1,
      hΓ.bound, hbody, hΓ.classReports htn.1, hΓ.bindReports]

/-- The same is reported in an expression. -/
theorem reports {e : Expr} (h : e.TypesIn S) : Γ'.reports C env e.erase = Γ.reports C env e := by
  induction h generalizing env with
  | @assign n _ _ _ he ih =>
    rw [Expr.erase, Setting.reports, Setting.reports, ih henv, hΓ.assignReports hin hC henv n he]
  | @call r m args s ty ho hn hargs iho ihargs =>
    have hobject : Γ'.receiverReports C env (Expr.eraseReceiver r) = Γ.receiverReports C env r := by
      cases r with
      | implicit => rfl
      | dynamic o | static o n => exact iho o rfl henv
    have htarget := Within.target (Γ := Γ) hC (hin.receiverTy hC henv ho) hn
    rw [Expr.erase, Setting.reports, Setting.reports, hobject, hΓ.targetReports hin hC henv ho hn,
      reportsAll fun e he => ihargs e he henv, hΓ.receiverTy hin hC henv ho, hΓ.target? hn,
      hΓ.callReports hin hC henv htarget m hargs]
  | cond ha _ _ iha ihb ihc =>
    rw [Expr.erase, Setting.reports, Setting.reports, iha henv, ihb henv, ihc henv, hΓ.builtin,
      hΓ.expectReports hin hC henv ha]
  | loop ha _ iha ihb =>
    rw [Expr.erase, Setting.reports, Setting.reports, iha henv, ihb henv, hΓ.builtin,
      hΓ.expectReports hin hC henv ha]
  | block _ ih =>
    rw [Expr.erase, Setting.reports, Setting.reports, reportsAll fun e he => ih e he henv]
  | @letIn b e s ty htn hi _ ihi ih =>
    have hbody := ih (Within.bound (Γ := Γ) henv (n := b.name) (hin.nameTy htn))
    obtain ⟨n, tn, init, bs⟩ := b
    rw [Expr.erase, Setting.reports, Setting.reports, hΓ.typeReports htn, hΓ.nameTy htn,
      hΓ.initReports hin hC henv _ hi fun i h => ihi i h henv, hΓ.bindReports, hΓ.bound, hbody]
  | caseOf _ htn _ ih iharms =>
    rw [Expr.erase, Setting.reports, Setting.reports, ih henv, hΓ.distinctReports _ htn,
      hΓ.armReports hin henv htn fun arm harm env henv => iharms arm harm henv]
  | new hn => exact hΓ.typeReports hn
  | binary ha hb iha ihb =>
    rw [Expr.erase, Setting.reports, Setting.reports, iha henv, ihb henv,
      hΓ.binaryReports hin hC henv _ ha hb]
  | unary ha ih =>
    rw [Expr.erase, Setting.reports, Setting.reports, ih henv, hΓ.unaryReports hin hC henv _ ha]
  | ident => exact hΓ.identReports hC env _
  | int | string | bool | absent => rfl

/-! ## Static types -/

omit hC in
theorem annotateArms {arms : List Arm} (htn : ∀ arm ∈ arms, S arm.typeName.symbol)
    (h : ∀ arm ∈ arms, ∀ env : Env, env.In S →
      Γ'.annotate C env arm.body.erase = Γ.annotate C env arm.body) :
    Γ'.annotateArms C env (Expr.eraseArms arms) = Γ.annotateArms C env arms := by
  induction arms with
  | nil => rfl
  | cons arm rest ih =>
    obtain ⟨n, tn, e, s⟩ := arm
    rw [List.forall_mem_cons] at htn h
    have hbody := h.1 _ (Within.bound (Γ := Γ) henv (n := n) (hin.armTy htn.1))
    rw [Expr.eraseArms, Setting.annotateArms, Setting.annotateArms, ih htn.2 h.2, hΓ.armTy htn.1,
      hΓ.bound, hbody]

omit hΓ hin hC henv in
theorem annotateInit {init : Option Expr}
    (h : ∀ i ∈ init, Γ'.annotate C env i.erase = Γ.annotate C env i) :
    Γ'.annotateInit C env (Expr.eraseInit init) = Γ.annotateInit C env init := by
  cases init with
  | none => rfl
  | some i => rw [Expr.eraseInit, Setting.annotateInit, Setting.annotateInit, h i rfl]

omit hΓ hin hC henv in
theorem annotateAll {es : List Expr}
    (h : ∀ e ∈ es, Γ'.annotate C env e.erase = Γ.annotate C env e) :
    Γ'.annotateAll C env (Expr.eraseAll es) = Γ.annotateAll C env es := by
  induction es with
  | nil => rfl
  | cons e rest ih =>
    rw [List.forall_mem_cons] at h
    rw [Expr.eraseAll, Setting.annotateAll, Setting.annotateAll, h.1, ih h.2]

/-- The same static types are written on an expression, whatever it carries. -/
theorem annotate {e : Expr} (h : e.TypesIn S) : Γ'.annotate C env e.erase = Γ.annotate C env e := by
  -- the type that is written is the one that both settings find
  have hty := fun {env} (henv : Env.In S env) (e : Expr) (he : e.TypesIn S) =>
    hΓ.infer hin hC henv he
  induction h generalizing env with
  | @assign n e s ty he ih =>
    have hty := hty henv (.assign n e s ty) (.assign he)
    rw [Expr.erase] at hty ⊢
    rw [Setting.annotate, Setting.annotate, ih henv, hty]
  | @call r m args s ty ho hn hargs iho ihargs =>
    have hobject : Γ'.annotateReceiver C env (Expr.eraseReceiver r) = Γ.annotateReceiver C env r := by
      cases r with
      | implicit => rfl
      | dynamic o => exact congrArg Receiver.dynamic (iho o rfl henv)
      | static o n => exact congrArg (Receiver.static · n) (iho o rfl henv)
    have hty := hty henv (.call r m args s ty) (.call ho hn hargs)
    rw [Expr.erase] at hty ⊢
    rw [Setting.annotate, Setting.annotate, hobject, annotateAll fun e he => ihargs e he henv, hty]
  | @cond a b c s ty ha hb hc iha ihb ihc =>
    have hty := hty henv (.cond a b c s ty) (.cond ha hb hc)
    rw [Expr.erase] at hty ⊢
    rw [Setting.annotate, Setting.annotate, iha henv, ihb henv, ihc henv, hty]
  | @loop a b s ty ha hb iha ihb =>
    have hty := hty henv (.loop a b s ty) (.loop ha hb)
    rw [Expr.erase] at hty ⊢
    rw [Setting.annotate, Setting.annotate, iha henv, ihb henv, hty]
  | @block es s ty hes ih =>
    have hty := hty henv (.block es s ty) (.block hes)
    rw [Expr.erase] at hty ⊢
    rw [Setting.annotate, Setting.annotate, annotateAll fun e he => ih e he henv, hty]
  | @letIn b e s ty htn hi he ihi ih =>
    have hbody := ih (Within.bound (Γ := Γ) henv (n := b.name) (hin.nameTy htn))
    have hty := hty henv (.letIn b e s ty) (.letIn htn hi he)
    obtain ⟨n, tn, init, bs⟩ := b
    rw [Expr.erase] at hty ⊢
    rw [Setting.annotate, Setting.annotate, annotateInit fun i h => ihi i h henv, hΓ.nameTy htn,
      hΓ.bound, hbody, hty]
  | @caseOf e arms s ty he htn hbody ih iharms =>
    have hty := hty henv (.caseOf e arms s ty) (.caseOf he htn hbody)
    rw [Expr.erase] at hty ⊢
    rw [Setting.annotate, Setting.annotate, ih henv,
      hΓ.annotateArms hin henv htn fun arm harm env henv => iharms arm harm henv, hty]
  | @new n s ty hn =>
    have hty := hty henv (.new n s ty) (.new hn)
    rw [Expr.erase] at hty ⊢
    rw [Setting.annotate, Setting.annotate, hty]
  | @binary op a b s ty ha hb iha ihb =>
    have hty := hty henv (.binary op a b s ty) (.binary ha hb)
    rw [Expr.erase] at hty ⊢
    rw [Setting.annotate, Setting.annotate, iha henv, ihb henv, hty]
  | @unary op a s ty ha ih =>
    have hty := hty henv (.unary op a s ty) (.unary ha)
    rw [Expr.erase] at hty ⊢
    rw [Setting.annotate, Setting.annotate, ih henv, hty]
  | @ident n ty => exact congrArg (Expr.ident n ∘ some) (hty henv (.ident n ty) .ident)
  | @int v s ty => exact congrArg (Expr.int v s ∘ some) (hty henv (.int v s ty) .int)
  | @string v s ty =>
    exact congrArg (Expr.string v s ∘ some) (hty henv (.string v s ty) .string)
  | @bool v s ty =>
    exact congrArg (Expr.bool v s ∘ some) (hty henv (.bool v s ty) .bool)
  | @absent s ty => exact congrArg (Expr.absent s ∘ some) (hty henv (.absent s ty) .absent)

/-! ## Parameters -/

omit hin hC henv

theorem bindFormal (scope : SymbolMap Ty) {f : Formal} (hf : S f.typeName.symbol) :
    Γ'.bindFormal scope f = Γ.bindFormal scope f := by
  simp only [Setting.bindFormal, Setting.formalTy, hΓ.tables, hΓ.declaredTy hf, hΓ.top]

theorem paramScope {params : List Formal} (h : ∀ f ∈ params, S f.typeName.symbol) :
    Γ'.paramScope params = Γ.paramScope params :=
  List.foldl_ext _ _ _ fun scope f hf => hΓ.bindFormal scope (h f hf)

theorem paramReports (scope : SymbolMap Ty) {params : List Formal}
    (h : ∀ f ∈ params, S f.typeName.symbol) :
    Γ'.paramReports scope params = Γ.paramReports scope params := by
  induction params generalizing scope with
  | nil => rfl
  | cons f rest ih =>
    rw [List.forall_mem_cons] at h
    simp only [Setting.paramReports, Setting.formalReports, hΓ.tables, hΓ.bindFormal scope h.1,
      ih _ h.2]

theorem methodEnv (env : Env) {params : List Formal} (h : ∀ f ∈ params, S f.typeName.symbol) :
    Γ'.methodEnv env params = Γ.methodEnv env params := by
  unfold Setting.methodEnv
  rw [hΓ.paramScope h]

/-! ## Features and classes -/

include hin henv

section

include hC

theorem annotateFeature {f : Feature} (h : f.TypesIn S) :
    Γ'.annotateFeature C env f.erase = Γ.annotateFeature C env f := by
  cases f with
  | method m =>
    have h : m.TypesIn S := h
    simp only [Feature.erase, Setting.annotateFeature, annotateMethod, Method.erase,
      hΓ.methodEnv env h.params, hΓ.annotate hin hC (hin.methodEnv henv h.params) h.body]
  | attr b =>
    have h : b.TypesIn S := h
    simp only [Feature.erase, Setting.annotateFeature, annotateAttr, Binding.erase,
      ← Expr.eraseInit_eq, annotateInit fun i hi => hΓ.annotate hin hC henv (h.init i hi)]

theorem featureReports {f : Feature} (h : f.TypesIn S) :
    Γ'.featureReports C env f.erase = Γ.featureReports C env f := by
  cases f with
  | method m =>
    have h : m.TypesIn S := h
    have hbody := hin.methodEnv henv h.params
    simp only [Feature.erase, Setting.featureReports, methodReports, returnReports, Method.erase,
      hΓ.paramReports _ h.params, hΓ.methodEnv env h.params, hΓ.reports hin hC hbody h.body,
      Expr.isAbsent_erase, hΓ.declaredTy h.returnType, hΓ.expectReports hin hC hbody h.body]
  | attr b =>
    have h : b.TypesIn S := h
    simp only [Feature.erase, Setting.featureReports, Binding.erase, ← Expr.eraseInit_eq,
      hΓ.declaredTy h.typeName,
      hΓ.initReports hin hC henv _ h.init fun i hi => hΓ.reports hin hC henv (h.init i hi)]

end

/-- The code of a class with signatures gets the same static types. -/
theorem annotateClass {c : Class} (h : c.TypesIn S)
    (hc : Γ.signatures.contains c.name.symbol = true) :
    Γ'.annotateClass env c.erase = Γ.annotateClass env c := by
  have hfeatures : c.erase.features.map (Γ'.annotateFeature c.name.symbol env) =
      c.features.map (Γ.annotateFeature c.name.symbol env) := by
    rw [Class.erase, List.map_map]
    exact List.map_congr_left fun f hf => hΓ.annotateFeature hin h.name henv (h.features f hf)
  simp only [Setting.annotateClass, Class.name_erase, hΓ.contains h.name, hc, if_true, hfeatures]
  rfl

/-- The same is reported in the code of a class. -/
theorem codeReports {c : Class} (h : c.TypesIn S) :
    Γ'.codeReports env c.erase = Γ.codeReports env c := by
  have hfeatures : c.erase.features.flatMap (Γ'.featureReports c.name.symbol env) =
      c.features.flatMap (Γ.featureReports c.name.symbol env) := by
    rw [Class.erase, List.flatMap_map]
    exact List.flatMap_congr fun f hf => hΓ.featureReports hin h.name henv (h.features f hf)
  unfold Setting.codeReports
  rw [Class.name_erase, hΓ.contains h.name, hfeatures]

end AgreesOn

end Setting

/-- Lists of classes that agree make settings that agree. -/
theorem ClassesAgree.settingOf {t : SymbolTables} {classes classes' : List Class}
    (hs : ClassesAgree S t classes classes') :
    (settingOf t classes).AgreesOn S (settingOf t classes') where
  tables := rfl
  root := rfl
  ancestors _ hc := hs.ancestors hc
  selfType := (Signatures.collects_collect hs.wellFormed').selfType.trans
    (Signatures.collects_collect hs.wellFormed).selfType.symm
  table _ hc := hs.get?_collect hc

end CoolTypes
