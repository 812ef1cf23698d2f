import CoolTypes.Proofs.Typing.Inference

/-!
# Runs of the check

A part of a check that gives a value, appends reports and leaves everything else as it was is described
by `Check.Gives`. Such parts compose, and `expr_gives` says that the check of an expression is one: it
annotates the expression, reports what is to be reported, and never fails.
-/

namespace CoolTypes

namespace Check

variable {α β : Type} {C : Symbol} {env : Env}

/-- In the class `C` and under the bindings `env` the check gives a value and appends reports; scopes
and class are the same afterwards. -/
def Gives (C : Symbol) (env : Env) (x : Check α) (a : α) (rs : List Report) : Prop :=
  ∀ s : CheckState, s.current = C → s.scopes.resolve? = env →
    StateT.run x s = .ok (a, { s with reports := s.reports ++ rs })

/-- A part in a scope of its own leaves the scopes around it. -/
theorem run_inScope {x : Check α} {s : CheckState} {a : α} {inner : SymbolMap Ty} {rs : List Report}
    (h : StateT.run x { s with scopes := s.scopes.push } =
      .ok (a, { s with scopes := ⟨inner, s.scopes.toList⟩, reports := s.reports ++ rs })) :
    StateT.run (inScope x) s = .ok (a, { s with reports := s.reports ++ rs }) := by
  simp only [inScope, StateT.run_bind, StateT.run_modify, pure_bind, h]
  rfl

namespace Gives

theorem pure (a : α) : Gives C env (Pure.pure a) a [] := by
  intro s _ _
  simp only [StateT.run_pure, List.append_nil]
  rfl

theorem bind {x : Check α} {f : α → Check β} {a : α} {b : β} {rs rs' : List Report}
    (hx : Gives C env x a rs) (hf : Gives C env (f a) b rs') :
    Gives C env (x >>= f) b (rs ++ rs') := by
  intro s hC henv
  have hrest := hf { s with reports := s.reports ++ rs } hC henv
  rw [List.append_assoc] at hrest
  rw [StateT.run_bind, hx s hC henv]
  exact hrest

/-- A part without reports before the rest. -/
theorem andThen {x : Check α} {f : α → Check β} {a : α} {b : β} {rs : List Report}
    (hx : Gives C env x a []) (hf : Gives C env (f a) b rs) : Gives C env (x >>= f) b rs :=
  hx.bind hf

/-- A part before a rest without reports. -/
theorem andDone {x : Check α} {f : α → Check β} {a : α} {b : β} {rs : List Report}
    (hx : Gives C env x a rs) (hf : Gives C env (f a) b []) : Gives C env (x >>= f) b rs := by
  have h := hx.bind hf
  rwa [List.append_nil] at h

/-- A part that ends with a value. -/
theorem thenPure {x : Check α} {a : α} {rs : List Report} (hx : Gives C env x a rs) (f : α → β) :
    Gives C env (x >>= fun a => Pure.pure (f a)) (f a) rs :=
  hx.andDone (.pure (f a))

theorem map {x : Check α} {a : α} {rs : List Report} (f : α → β) (hx : Gives C env x a rs) :
    Gives C env (f <$> x) (f a) rs := by
  rw [map_eq_pure_bind]
  exact hx.thenPure f

theorem report (v : Violation Symbol Ty) (span : Span) :
    Gives C env (Check.report v span) () [v.place span] := fun _ _ _ => rfl

theorem current : Gives C env Check.current C [] := by
  intro s hC _
  simp only [List.append_nil]
  subst hC
  rfl

theorem lift {e : Expr} {t : Ty} (h : e.ty = some t) :
    Gives C env (liftM e.requireTy) t [] := by
  intro s _ _
  simp only [List.append_nil]
  rw [Expr.requireTy, h]
  rfl

/-- A part in a scope of its own that binds a name or does not. -/
theorem inScope {x : Check α} {a : α} {rs : List Report} {b : Bool} {n : Symbol} {ty : Ty}
    (hx : Gives C (if b then env.bind n ty else env) x a rs) :
    Gives C env (Check.inScope do
      if b then Check.bind n ty
      x) a rs := by
  intro s hC henv
  refine @run_inScope _ _ s a (if b then SymbolMap.empty.insert n ty else .empty) rs ?_
  have hpush : s.scopes.push.resolve? = env := henv
  cases b with
  | false => exact hx { s with scopes := s.scopes.push } hC hpush
  | true =>
    refine hx { s with scopes := s.scopes.push.bind n ty } hC ?_
    rw [← hpush]
    exact funext fun m => Scopes.resolve?_bind _ n m ty

end Gives

end Check

namespace Setting

open Check

variable {Γ : Setting} {C : Symbol} {env : Env}

/-! ## Annotated expressions -/

@[simp] theorem annotate_ty (Γ : Setting) (C : Symbol) (env : Env) (e : Expr) :
    (Γ.annotate C env e).ty = some (Γ.infer C env e) := by
  cases e with
  | letIn b _ _ _ => cases b; rfl
  | _ => rfl

@[simp] theorem annotate_span (Γ : Setting) (C : Symbol) (env : Env) (e : Expr) :
    (Γ.annotate C env e).span = e.span := by
  cases e with
  | letIn b _ _ _ => cases b; rfl
  | _ => rfl

theorem annotateAll_eq (es : List Expr) :
    Γ.annotateAll C env es = es.map (Γ.annotate C env) := by
  induction es with
  | nil => rfl
  | cons e rest ih => rw [annotateAll, ih, List.map_cons]

theorem annotateArms_eq (arms : List Arm) :
    Γ.annotateArms C env arms = arms.map fun arm => { arm with
      body := Γ.annotate C (Γ.bound env arm.name (Γ.armTy arm.typeName)) arm.body } := by
  induction arms with
  | nil => rfl
  | cons arm rest ih =>
    obtain ⟨n, tn, e, span⟩ := arm
    rw [annotateArms, ih, List.map_cons]

theorem lastTy_eq (es : List Expr) :
    Γ.lastTy C env es = (es.getLast?.map (Γ.infer C env)).getD Γ.top := by
  induction es with
  | nil => rfl
  | cons e rest ih =>
    cases rest with
    | nil => rfl
    | cons e' rest => rw [lastTy, ih, List.getLast?_cons_cons]

theorem gives_ty (e : Expr) :
    Gives C env (liftM (Γ.annotate C env e).requireTy) (Γ.infer C env e) [] :=
  .lift (annotate_ty Γ C env e)

/-! ## Types and names -/

theorem gives_typeOf (n : Name) : Gives C env (Γ.typeOf n) (Γ.nameTy n) (Γ.typeReports n) := by
  unfold typeOf nameTy typeReports
  cases Γ.signatures.resolve? n.symbol with
  | some ty => exact .pure ty
  | none => exact (Gives.report _ _).thenPure _

theorem gives_classTypeOf (n : Name) (place : SelfTypePlace) :
    Gives C env (Γ.classTypeOf n place) (Γ.armTy n) (Γ.classReports n place) := by
  have hty : Gives C env (Γ.typeOf n) (Γ.nameTy n) (Γ.typeReports n) := gives_typeOf n
  unfold classTypeOf
  unfold typeReports nameTy at hty
  unfold armTy classReports nameTy
  cases hn : Γ.signatures.resolve? n.symbol with
  | none =>
    rw [hn] at hty
    exact hty.bind (.pure _)
  | some ty =>
    rw [hn] at hty
    cases ty with
    | named c => exact hty.bind (.pure _)
    | selfType => exact hty.andThen ((Gives.report _ _).thenPure _)

theorem gives_identType? (n : Name) : Gives C env (Γ.identType? n) (Γ.lookup? C env n) [] := by
  intro s hC henv
  simp only [List.append_nil]
  subst hC henv
  rfl

theorem gives_bindable (n : Name) :
    Gives C env (Γ.bindable n) (!decide (n.symbol = Γ.tables.known .self)) (Γ.bindReports n) := by
  unfold bindable bindReports
  by_cases h : n.symbol = Γ.tables.known .self
  · simp only [h, if_true]
    exact (Gives.report _ _).thenPure _
  · simp only [h, if_false]
    exact .pure _

theorem gives_identType (n : Name) :
    Gives C env (Γ.identType n) (Γ.identTy C env n) (Γ.identReports C env n) := by
  unfold identType identTy identReports
  by_cases h : n.symbol = Γ.tables.known .self
  · simp only [h, if_true]
    exact .pure _
  · simp only [h, if_false]
    refine (gives_identType? n).andThen ?_
    cases Γ.lookup? C env n with
    | some ty => exact .pure ty
    | none => exact (Gives.report _ _).thenPure _

/-! ## Conformance -/

theorem gives_requireConforms (ty : Ty) (span : Span) (expected : Ty) :
    Gives C env (Γ.requireConforms ty span expected) () (Γ.conformReports C ty span expected) := by
  refine Gives.current.andThen ?_
  unfold conformReports
  by_cases h : Γ.hierarchy.conforms C ty expected = true
  · simp only [h, if_true]
    exact .pure ()
  · simp only [h]
    exact .report _ _

theorem gives_expect (e : Expr) (expected : Ty) : Gives C env
    (Γ.expect (Γ.annotate C env e) expected) () (Γ.expectReports C env e expected) := by
  refine (gives_ty e).andThen ?_
  rw [annotate_span]
  exact gives_requireConforms _ _ _

theorem gives_expectTarget (n : Name) (e : Expr) : Gives C env
    (Γ.expectTarget n (Γ.annotate C env e)) () (Γ.assignReports C env n e) := by
  have hbind : Gives C env (Γ.bindable n) (!decide (n.symbol = Γ.tables.known .self))
      (Γ.bindReports n) := gives_bindable n
  unfold expectTarget assignReports
  unfold bindReports at hbind
  by_cases h : n.symbol = Γ.tables.known .self
  · simp only [h, if_true, decide_true, Bool.not_true] at hbind ⊢
    exact hbind.bind (.pure ())
  · simp only [h, if_false, decide_false, Bool.not_false] at hbind ⊢
    refine hbind.andThen ((gives_identType? n).andThen ?_)
    cases Γ.lookup? C env n with
    | some ty => exact gives_expect e ty
    | none => exact .report _ _

theorem gives_expectComparable (a b : Expr) : Gives C env
    (Γ.expectComparable (Γ.annotate C env a) (Γ.annotate C env b)) ()
    (Γ.comparableReports C env a b) := by
  refine (gives_ty a).andThen ((gives_ty b).andThen ?_)
  rw [annotate_span, annotate_span]
  unfold comparableReports
  dsimp only
  split
  · split
    · exact .report _ _
    · exact .report _ _
  · exact .pure ()

theorem gives_expectArguments (es : List Expr) (tys : List Ty) : Gives C env
    (Γ.expectArguments (es.map (Γ.annotate C env)) tys) () (Γ.argumentReports C env es tys) := by
  induction es generalizing tys with
  | nil => exact .pure ()
  | cons e rest ih =>
    cases tys with
    | nil => exact .pure ()
    | cons ty tys => exact (gives_expect e ty).bind (ih tys)

/-! ## Parts of expressions -/

theorem gives_receiverTarget (r : Receiver) : Gives C env
    (Γ.receiverTarget (Γ.annotateReceiver C env r))
    (Γ.receiverTy C env r, Γ.target? C (Γ.receiverTy C env r) r) (Γ.targetReports C env r) := by
  cases r with
  | implicit => exact Gives.current.andThen (.pure _)
  | dynamic o => exact (gives_ty o).andThen (Gives.current.andThen (.pure _))
  | static o n =>
    refine (gives_ty o).andThen ?_
    dsimp only [targetReports, target?, classOf?, receiverTy]
    cases Γ.signatures.resolve? n.symbol with
    | none => exact (Gives.report _ _).thenPure _
    | some ty =>
      cases ty with
      | named c => exact (gives_expect o (.named c)).thenPure _
      | selfType => exact (Gives.report _ _).thenPure _

theorem gives_callType (ty : Ty) (target : Option Symbol) (m : Name) (args : List Expr)
    (span : Span) : Gives C env
    (Γ.callType ty target m (args.map (Γ.annotate C env)) span) (Γ.resultTy ty target m)
    (Γ.callReports C env target m args span) := by
  cases target with
  | none => exact .pure _
  | some c =>
    unfold callType resultTy callReports
    dsimp only [Option.bind_some]
    cases Γ.signatures.method? c m.symbol with
    | none => exact (Gives.report _ _).thenPure _
    | some sig =>
      have hexpect : Gives C env (Γ.expectArguments (args.map (Γ.annotate C env)) sig.params) ()
        (Γ.argumentReports C env args sig.params) := gives_expectArguments args sig.params
      have hargs := hexpect.thenPure fun _ => sig.ret.orSelf ty
      dsimp only
      rw [List.length_map]
      by_cases h : sig.params.length = args.length
      · simp only [h, if_true]
        exact hargs
      · simp only [h, if_false]
        exact (Gives.report _ _).bind hargs

theorem gives_distinctArms (seen : List Symbol) (arms : List Arm) :
    Gives C env (Γ.distinctArms seen arms) () (Γ.distinctReports seen arms) := by
  induction arms generalizing seen with
  | nil => exact .pure ()
  | cons arm rest ih =>
    unfold distinctArms distinctReports classOf?
    cases Γ.signatures.resolve? arm.typeName.symbol with
    | none => exact ih seen
    | some ty =>
      cases ty with
      | selfType => exact ih seen
      | named c =>
        dsimp only [Option.bind_some, Ty.className?]
        by_cases h : c ∈ seen
        · simp only [h, if_true]
          exact (Gives.report _ _).bind (ih _)
        · simp only [h, if_false]
          exact ih _

theorem gives_armTypes (arms : List Arm) : Gives C env
    ((Γ.annotateArms C env arms).mapM fun arm => (liftM arm.body.requireTy : Check Ty))
    (Γ.armTys C env arms) [] := by
  induction arms with
  | nil => exact .pure []
  | cons arm rest ih =>
    obtain ⟨n, tn, e, s⟩ := arm
    rw [annotateArms, List.mapM_cons]
    refine (Gives.lift (annotate_ty Γ C _ e)).andThen (ih.andThen (.pure _))

theorem gives_caseType (arms : List Arm) : Gives C env (Γ.caseType (Γ.annotateArms C env arms))
    (Γ.joinTy C (Γ.armTys C env arms)) [] :=
  (gives_armTypes arms).andThen (Gives.current.andThen (.pure _))

theorem gives_binaryType (op : BinaryOp) (a b : Expr) : Gives C env
    (Γ.binaryType op (Γ.annotate C env a) (Γ.annotate C env b)) (Γ.binaryTy op)
    (Γ.binaryReports C env op a b) := by
  cases op with
  | equals => exact (gives_expectComparable a b).thenPure _
  | add | subtract | multiply | divide | lessThan | lessEquals =>
    exact (gives_expect a _).bind ((gives_expect b _).thenPure _)

theorem gives_unaryType (op : UnaryOp) (a : Expr) : Gives C env
    (Γ.unaryType op (Γ.annotate C env a)) (Γ.unaryTy op) (Γ.unaryReports C env op a) := by
  cases op with
  | isVoid => exact .pure _
  | complement | not => exact (gives_expect a _).thenPure _

/-! ## Expressions -/

theorem gives_exprs {es : List Expr}
    (h : ∀ e ∈ es, Gives C env (Γ.expr e) (Γ.annotate C env e) (Γ.reports C env e)) :
    Gives C env (Γ.exprs es) (Γ.annotateAll C env es) (Γ.reportsAll C env es) := by
  induction es with
  | nil => exact .pure []
  | cons e rest ih =>
    rw [exprs, annotateAll, reportsAll]
    exact (h e List.mem_cons_self).bind
      ((ih fun e he => h e (List.mem_cons_of_mem _ he)).thenPure _)

/-- A part in the scope of a name. -/
theorem gives_inScope {α : Type} {x : Check α} {a : α} {rs : List Report} {n : Name} {ty : Ty}
    (h : Gives C (Γ.bound env n ty) x a rs) :
    Gives C env (inScope do
      if !decide (n.symbol = Γ.tables.known .self) then Check.bind n.symbol ty
      x) a rs := by
  refine Gives.inScope ?_
  unfold bound at h
  by_cases hn : n.symbol = Γ.tables.known .self
  · simpa [hn] using h
  · simpa [hn] using h

theorem gives_arms {arms : List Arm} (h : ∀ arm ∈ arms, ∀ env, Gives C env (Γ.expr arm.body)
    (Γ.annotate C env arm.body) (Γ.reports C env arm.body)) :
    Gives C env (Γ.arms arms) (Γ.annotateArms C env arms) (Γ.armReports C env arms) := by
  induction arms with
  | nil => exact .pure []
  | cons arm rest ih =>
    obtain ⟨n, tn, e, s⟩ := arm
    rw [Setting.arms, annotateArms, armReports, List.append_assoc, List.append_assoc]
    refine (gives_classTypeOf tn .caseArm).bind ((gives_bindable n).bind ?_)
    have hbody := h _ List.mem_cons_self (Γ.bound env n (Γ.armTy tn))
    exact (gives_inScope hbody).bind
      ((ih fun arm harm => h arm (List.mem_cons_of_mem _ harm)).thenPure _)

/-- The check of the body of a binding. -/
theorem gives_body {n : Name} {ty : Ty} {e : Expr} (f : Expr → Ty → Expr)
    (h : Gives C (Γ.bound env n ty) (Γ.expr e) (Γ.annotate C (Γ.bound env n ty) e)
      (Γ.reports C (Γ.bound env n ty) e)) :
    Gives C env
      (do
        let valid ← Γ.bindable n
        let e ← inScope do
          if valid then Check.bind n.symbol ty
          Γ.expr e
        return f e (← e.requireTy))
      (f (Γ.annotate C (Γ.bound env n ty) e) (Γ.infer C (Γ.bound env n ty) e))
      (Γ.bindReports n ++ Γ.reports C (Γ.bound env n ty) e) := by
  refine (gives_bindable n).bind ((gives_inScope h).andDone ?_)
  exact (Gives.lift (annotate_ty Γ C _ e)).andThen (.pure _)

/-- The check of a call, once its receiver has been checked. -/
theorem gives_call {x : Check Receiver} (r : Receiver) (m : Name) (args : List Expr) (span : Span)
    (t : Option Ty) (hr : Gives C env x (Γ.annotateReceiver C env r) (Γ.receiverReports C env r))
    (hargs : ∀ e ∈ args, Gives C env (Γ.expr e) (Γ.annotate C env e) (Γ.reports C env e)) :
    Gives C env
      (do
        let r ← x
        let (recv, target) ← Γ.receiverTarget r
        let args ← Γ.exprs args
        let ty ← Γ.callType recv target m args span
        return .call r m args span (some ty))
      (Γ.annotate C env (.call r m args span t)) (Γ.reports C env (.call r m args span t)) := by
  rw [annotate, reports, List.append_assoc, List.append_assoc]
  refine hr.bind ((gives_receiverTarget r).bind ((gives_exprs hargs).bind ?_))
  rw [annotateAll_eq]
  exact (gives_callType _ _ m args span).thenPure _

/-- The check of an expression annotates it, reports what is to be reported in it, and leaves the
scopes and the class as they are. -/
theorem expr_gives (Γ : Setting) (C : Symbol) (env : Env) (e : Expr) :
    Gives C env (Γ.expr e) (Γ.annotate C env e) (Γ.reports C env e) := by
  induction e using Expr.induction generalizing env with
  | assign n e s t ih =>
    rw [expr, annotate, reports]
    exact (ih env).bind ((gives_ty e).andThen ((gives_expectTarget n e).thenPure _))
  | call r m args s t ihr ihargs =>
    have hargs := fun e he => ihargs e he env
    cases r with
    | implicit =>
      rw [expr]
      exact gives_call .implicit m args s t (.pure _) hargs
    | dynamic o =>
      rw [expr]
      exact gives_call (.dynamic o) m args s t ((ihr o rfl env).map _) hargs
    | static o n =>
      rw [expr]
      exact gives_call (.static o n) m args s t ((ihr o rfl env).map _) hargs
  | cond a b c s t iha ihb ihc =>
    rw [expr, annotate, reports, List.append_assoc, List.append_assoc]
    refine (iha env).bind ((ihb env).bind ((ihc env).bind ((gives_expect a _).andDone ?_)))
    refine Gives.current.andThen ?_
    exact (gives_ty b).andThen ((gives_ty c).andThen (.pure _))
  | loop a b s t iha ihb =>
    rw [expr, annotate, reports, List.append_assoc]
    exact (iha env).bind ((ihb env).bind ((gives_expect a _).thenPure _))
  | block es s t ih =>
    rw [expr, annotate, reports]
    refine (gives_exprs fun e he => ih e he env).andDone ?_
    rw [infer, lastTy_eq, annotateAll_eq, List.getLast?_map]
    cases es.getLast? with
    | none => exact .pure _
    | some e => exact (gives_ty e).andDone (.pure _)
  | letIn b e s t ihi ih =>
    obtain ⟨n, tn, init, bs⟩ := b
    have hbody := ih (Γ.bound env n (Γ.nameTy tn))
    cases init with
    | none =>
      rw [expr, annotate, annotateInit, reports, initReports, List.append_nil, List.append_assoc]
      exact (gives_typeOf tn).bind ((Gives.pure _).andThen (gives_body _ hbody))
    | some i =>
      rw [expr, annotate, annotateInit, reports, initReports]
      simp only [List.append_assoc]
      refine (gives_typeOf tn).bind ((ihi i rfl env).bind ((gives_expect i _).bind ?_))
      exact (Gives.pure _).andThen (gives_body _ hbody)
  | caseOf e arms s t ih iharms =>
    rw [expr, annotate, reports, List.append_assoc]
    refine (ih env).bind ((gives_distinctArms [] arms).bind ?_)
    exact (gives_arms iharms).andDone ((gives_caseType arms).thenPure _)
  | new n s t =>
    rw [expr, annotate, reports]
    exact (gives_typeOf n).andDone (Gives.current.andThen (.pure _))
  | binary op a b s t iha ihb =>
    rw [expr, annotate, reports, List.append_assoc]
    exact (iha env).bind ((ihb env).bind ((gives_binaryType op a b).thenPure _))
  | unary op a s t ih =>
    rw [expr, annotate, reports]
    exact (ih env).bind ((gives_unaryType op a).thenPure _)
  | ident n t => exact (gives_identType n).thenPure _
  | int v s t => exact .pure _
  | string v s t => exact .pure _
  | bool v s t => exact .pure _
  | absent s t => exact .pure _

end Setting

end CoolTypes
