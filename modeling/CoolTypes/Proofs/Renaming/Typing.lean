import CoolTypes.Proofs.Renaming.Signatures
import CoolTypes.Proofs.Typing.Declarations

/-!
# The check of corresponding code

In corresponding settings, classes and environments the check finds corresponding types of corresponding
expressions (`infer`), makes corresponding reports in them (`reports`) and writes corresponding types on
them (`annotate`). From there the same follows for methods, attributes, classes and whole programs.
-/

namespace CoolTypes

/-- Two settings over faithfully related tables. -/
structure Setting.Related (R : SymbolRel) (Γ Γ' : Setting) : Prop where
  faithful : R.Faithful Γ.tables Γ'.tables
  hierarchy : Γ.hierarchy.Related R Γ'.hierarchy
  signatures : Γ.signatures.Related R Γ'.signatures

/-- Related names have corresponding types, or none. -/
def Env.Related (R : SymbolRel) (env env' : Env) : Prop :=
  ∀ n n', R.id n n' → Option.Rel (Ty.Related R) (env n) (env' n')

theorem Expr.Related.span {R : SymbolRel} {e e' : Expr} (h : e.Related R e') : e.span = e'.span := by
  cases h with
  | ident hn _ => exact hn.span
  | _ => rfl

theorem Expr.Related.isAbsent {R : SymbolRel} {e e' : Expr} (h : e.Related R e') :
    e.isAbsent = e'.isAbsent := by
  cases h <;> rfl

namespace Setting.Related

variable {R : SymbolRel} {Γ Γ' : Setting} (hΓ : Γ.Related R Γ') {C C' : Symbol} (hC : R.id C C')
  {env env' : Env} (henv : env.Related R env')

include hΓ

/-! ## Types -/

theorem builtin (b : BuiltinClass) : (Γ.builtin b).Related R (Γ'.builtin b) :=
  .named (hΓ.faithful.known b.wellKnown)

theorem top : Γ.top.Related R Γ'.top := .named hΓ.hierarchy.root

section

variable {n n' : Name} (hn : n.Related R n')

include hn

theorem resolve : Option.Rel (Ty.Related R) (Γ.signatures.resolve? n.symbol)
    (Γ'.signatures.resolve? n'.symbol) :=
  hΓ.signatures.resolve? hΓ.faithful hn.symbol

theorem isSelf : n.symbol = Γ.tables.known .self ↔ n'.symbol = Γ'.tables.known .self :=
  hΓ.faithful.known_iff hn.symbol .self

theorem declaredTy : (Γ.declaredTy n).Related R (Γ'.declaredTy n') :=
  rel_ite (hΓ.faithful.known_iff hn.symbol .primSlot) (.named hn.symbol)
    (rel_getD (hΓ.resolve hn) hΓ.top)

theorem nameTy : (Γ.nameTy n).Related R (Γ'.nameTy n') := rel_getD (hΓ.resolve hn) hΓ.top

theorem armTy : (Γ.armTy n).Related R (Γ'.armTy n') := (hΓ.nameTy hn).orSelf hΓ.top

theorem classOf : Option.Rel R.id (Γ.classOf? n) (Γ'.classOf? n') := by
  refine rel_bind (hΓ.resolve hn) fun T T' hT => ?_
  cases hT with
  | named hc => exact .some hc
  | selfType => exact .none

include henv in
theorem bound {T T' : Ty} (hT : T.Related R T') :
    (Γ.bound env n T).Related R (Γ'.bound env' n' T') := by
  refine rel_ite (S := Env.Related R) (hΓ.isSelf hn) henv fun m m' hm => ?_
  exact rel_ite (hΓ.faithful.eq_iff hm hn.symbol) (.some hT) (henv m m' hm)

include hC henv in
theorem lookup : Option.Rel (Ty.Related R) (Γ.lookup? C env n) (Γ'.lookup? C' env' n') :=
  rel_or (henv _ _ hn.symbol)
    (rel_map (hΓ.signatures.attr? hΓ.faithful hC hn.symbol) fun _ _ ha => ha.ty)

include hC henv in
theorem identTy : (Γ.identTy C env n).Related R (Γ'.identTy C' env' n') :=
  rel_ite (hΓ.isSelf hn) .selfType (rel_getD (hΓ.lookup hC henv hn) hΓ.top)

theorem resultTy {T T' : Ty} (hT : T.Related R T') {target target' : Option Symbol}
    (htarget : Option.Rel R.id target target') :
    (Γ.resultTy T target n).Related R (Γ'.resultTy T' target' n') := by
  have hsig := rel_bind htarget fun c c' hc =>
    hΓ.signatures.method? hΓ.faithful hc hn.symbol
  unfold Setting.resultTy
  obtain ⟨hs, hs'⟩ | ⟨sig, sig', hs, hs', hsig⟩ := rel_none_or_some hsig
  · simp only [hs, hs']
    exact hΓ.top
  · simp only [hs, hs']
    exact hsig.ret.orSelf hT

end

include hC in
theorem target {T T' : Ty} (hT : T.Related R T') {r r' : Receiver} (hr : r.Related R r') :
    Option.Rel R.id (Γ.target? C T r) (Γ'.target? C' T' r') := by
  cases hr with
  | implicit => exact .some (hT.within hC)
  | dynamic _ => exact .some (hT.within hC)
  | static _ hn => exact hΓ.classOf hn

include hC in
theorem joinTy {Ts Ts' : List Ty} (hTs : List.Forall₂ (Ty.Related R) Ts Ts') :
    (Γ.joinTy C Ts).Related R (Γ'.joinTy C' Ts') :=
  rel_getD (rel_map (hΓ.hierarchy.joinAll? hΓ.faithful hC hTs) fun _ _ hc => .named hc) hΓ.top

theorem binaryTy (op : BinaryOp) : (Γ.binaryTy op).Related R (Γ'.binaryTy op) := by
  cases op <;> exact hΓ.builtin _

theorem unaryTy (op : UnaryOp) : (Γ.unaryTy op).Related R (Γ'.unaryTy op) := by
  cases op <;> exact hΓ.builtin _

include henv

theorem armTys {arms arms' : List Arm} (harms : List.Forall₂ (Arm.Related R) arms arms')
    (h : ∀ arm ∈ arms, ∀ {env env' : Env} {e'}, env.Related R env' → arm.body.Related R e' →
      (Γ.infer C env arm.body).Related R (Γ'.infer C' env' e')) :
    List.Forall₂ (Ty.Related R) (Γ.armTys C env arms) (Γ'.armTys C' env' arms') := by
  induction harms with
  | nil => exact .nil
  | cons harm _ ih =>
    obtain ⟨hn, htn, he⟩ := harm
    rw [List.forall_mem_cons] at h
    exact .cons (h.1 (hΓ.bound henv hn (hΓ.armTy htn)) he) (ih h.2)

include hC

/-- Corresponding expressions have corresponding types. -/
theorem infer {e e' : Expr} (h : e.Related R e') :
    (Γ.infer C env e).Related R (Γ'.infer C' env' e') := by
  -- the class stays the same throughout, the environments grow under binders
  induction e using Expr.induction generalizing env env' e' with
  | assign n e s t ih =>
    cases h with
    | assign _ he _ =>
      rw [Setting.infer, Setting.infer]
      exact ih henv he
  | call r m args s t ihr _ =>
    cases h with
    | call hr hm _ _ =>
      -- the type of the receiver is used for the target and for the self type of the result
      refine hΓ.resultTy hm ?_ (hΓ.target hC ?_ hr)
      all_goals
        cases hr with
        | implicit => exact .selfType
        | dynamic ho => exact ihr _ rfl henv ho
        | static ho _ => exact ihr _ rfl henv ho
  | cond a b c s t _ ihb ihc =>
    cases h with
    | cond _ hb hc _ =>
      exact .named (hΓ.hierarchy.join hΓ.faithful hC (ihb henv hb) (ihc henv hc))
  | loop a b s t _ _ => cases h with | loop _ _ _ => exact hΓ.top
  | block es s t ih =>
    cases h with
    | block hes _ =>
      rw [Setting.infer, Setting.infer, lastTy_eq, lastTy_eq]
      have hlast := rel_getLast? (forall₂_of_left hes fun e he e' h => ih e he henv h)
      exact rel_getD (rel_map hlast fun _ _ hT => hT) hΓ.top
  | letIn b e s t _ ih =>
    cases h with
    | letIn hb he _ =>
      obtain ⟨hn, htn, _⟩ := hb
      exact ih (hΓ.bound henv hn (hΓ.nameTy htn)) he
  | caseOf e arms s t _ iharms =>
    cases h with
    | caseOf _ harms _ =>
      exact hΓ.joinTy hC (hΓ.armTys henv harms fun arm harm _ _ _ henv he => iharms arm harm henv he)
  | new n s t => cases h with | new hn _ => exact .named ((hΓ.nameTy hn).within hC)
  | binary op a b s t _ _ => cases h with | binary _ _ _ => exact hΓ.binaryTy op
  | unary op a s t _ => cases h with | unary _ _ => exact hΓ.unaryTy op
  | ident n t => cases h with | ident hn _ => exact hΓ.identTy hC henv hn
  | int v s t => cases h with | int _ _ => exact hΓ.builtin .int
  | string v s t => cases h with | string _ _ => exact hΓ.builtin .string
  | bool v s t => cases h with | bool _ => exact hΓ.builtin .bool
  | absent s t => cases h with | absent _ => exact hΓ.top

theorem receiverTy {r r' : Receiver} (hr : r.Related R r') :
    (Γ.receiverTy C env r).Related R (Γ'.receiverTy C' env' r') := by
  cases hr with
  | implicit => exact .selfType
  | dynamic ho => exact hΓ.infer hC henv ho
  | static ho _ => exact hΓ.infer hC henv ho

/-! ## Reports -/

omit henv in
theorem conformReports {T T' U U' : Ty} (hT : T.Related R T') (hU : U.Related R U') {s s' : Span}
    (hs : s = s') :
    ReportsRelated R (Γ.conformReports C T s U) (Γ'.conformReports C' T' s' U') := by
  refine rel_ite ?_ .nil ((Violation.Related.mismatchedTypes hU hT).report hs)
  rw [hΓ.hierarchy.conforms hΓ.faithful hC hT hU]

theorem expectReports {e e' : Expr} (h : e.Related R e') {T T' : Ty} (hT : T.Related R T') :
    ReportsRelated R (Γ.expectReports C env e T) (Γ'.expectReports C' env' e' T') :=
  hΓ.conformReports hC (hΓ.infer hC henv h) hT h.span

section

variable {n n' : Name} (hn : n.Related R n')

include hn

omit hC henv

theorem typeReports : ReportsRelated R (Γ.typeReports n) (Γ'.typeReports n') := by
  unfold Setting.typeReports
  obtain ⟨hT, hT'⟩ | ⟨T, T', hT, hT', _⟩ := rel_none_or_some (hΓ.resolve hn)
  · simp only [hT, hT']
    exact hn.undeclaredType
  · simp only [hT, hT']
    exact .nil

theorem classReports (place : SelfTypePlace) :
    ReportsRelated R (Γ.classReports n place) (Γ'.classReports n' place) := by
  unfold Setting.classReports
  obtain ⟨hT, hT'⟩ | ⟨T, T', hT, hT', hTT⟩ := rel_none_or_some (hΓ.resolve hn)
  · simp only [hT, hT']
    exact hn.undeclaredType
  · simp only [hT, hT']
    cases hTT with
    | named _ => exact .nil
    | selfType => exact Violation.Related.illegalSelfType.report hn.span

theorem bindReports : ReportsRelated R (Γ.bindReports n) (Γ'.bindReports n') :=
  rel_ite (hΓ.isSelf hn) (Violation.Related.illegalSelf.report hn.span) .nil

include hC henv

theorem identReports : ReportsRelated R (Γ.identReports C env n) (Γ'.identReports C' env' n') := by
  refine rel_ite (hΓ.isSelf hn) .nil ?_
  obtain ⟨hT, hT'⟩ | ⟨T, T', hT, hT', _⟩ := rel_none_or_some (hΓ.lookup hC henv hn)
  · simp only [hT, hT']
    exact (Violation.Related.undeclaredIdentifier hn.symbol).report hn.span
  · simp only [hT, hT']
    exact .nil

theorem assignReports {e e' : Expr} (h : e.Related R e') :
    ReportsRelated R (Γ.assignReports C env n e) (Γ'.assignReports C' env' n' e') := by
  refine rel_ite (hΓ.isSelf hn) (Violation.Related.illegalSelf.report hn.span) ?_
  obtain ⟨hT, hT'⟩ | ⟨T, T', hT, hT', hTT⟩ := rel_none_or_some (hΓ.lookup hC henv hn)
  · simp only [hT, hT']
    exact (Violation.Related.undeclaredIdentifier hn.symbol).report hn.span
  · simp only [hT, hT']
    exact hΓ.expectReports hC henv h hTT

end

omit hC henv in
theorem isPrimitive {T T' : Ty} (hT : T.Related R T') : Γ.isPrimitive T = Γ'.isPrimitive T' := by
  have hsame : ∀ b : BuiltinClass, T.isBuiltin Γ.tables b = T'.isBuiltin Γ'.tables b := by
    intro b
    rw [Ty.isBuiltin, Ty.isBuiltin, Bool.eq_iff_iff, beq_iff_eq, beq_iff_eq]
    exact hT.eq_iff hΓ.faithful (hΓ.builtin b)
  simp only [Setting.isPrimitive, hsame]

theorem comparableReports {a a' b b' : Expr} (ha : a.Related R a') (hb : b.Related R b') :
    ReportsRelated R (Γ.comparableReports C env a b) (Γ'.comparableReports C' env' a' b') := by
  have hx := hΓ.infer hC henv ha
  have hy := hΓ.infer hC henv hb
  unfold Setting.comparableReports
  dsimp only
  rw [hΓ.isPrimitive hx, hΓ.isPrimitive hy, hx.bne_eq hΓ.faithful hy]
  refine rel_ite Iff.rfl (rel_ite Iff.rfl ?_ ?_) .nil
  · exact (Violation.Related.mismatchedTypes hx hy).report hb.span
  · exact (Violation.Related.mismatchedTypes hy hx).report ha.span

theorem binaryReports (op : BinaryOp) {a a' b b' : Expr} (ha : a.Related R a')
    (hb : b.Related R b') :
    ReportsRelated R (Γ.binaryReports C env op a b) (Γ'.binaryReports C' env' op a' b') := by
  have hints := List.rel_append (hΓ.expectReports hC henv ha (hΓ.builtin .int))
    (hΓ.expectReports hC henv hb (hΓ.builtin .int))
  cases op with
  | equals => exact hΓ.comparableReports hC henv ha hb
  | _ => exact hints

theorem unaryReports (op : UnaryOp) {a a' : Expr} (ha : a.Related R a') :
    ReportsRelated R (Γ.unaryReports C env op a) (Γ'.unaryReports C' env' op a') := by
  cases op with
  | isVoid => exact .nil
  | complement => exact hΓ.expectReports hC henv ha (hΓ.builtin .int)
  | not => exact hΓ.expectReports hC henv ha (hΓ.builtin .bool)

/-! ## Calls -/

theorem argumentReports {es es' : List Expr} (hes : List.Forall₂ (Expr.Related R) es es')
    {Ts Ts' : List Ty} (hTs : List.Forall₂ (Ty.Related R) Ts Ts') :
    ReportsRelated R (Γ.argumentReports C env es Ts) (Γ'.argumentReports C' env' es' Ts') := by
  induction hes generalizing Ts Ts' with
  | nil => exact .nil
  | cons he _ ih =>
    cases hTs with
    | nil => exact .nil
    | cons hT hTs => exact List.rel_append (hΓ.expectReports hC henv he hT) (ih hTs)

theorem targetReports {r r' : Receiver} (hr : r.Related R r') :
    ReportsRelated R (Γ.targetReports C env r) (Γ'.targetReports C' env' r') := by
  cases hr with
  | implicit => exact .nil
  | dynamic _ => exact .nil
  | static ho hn =>
    unfold Setting.targetReports
    obtain ⟨hT, hT'⟩ | ⟨T, T', hT, hT', hTT⟩ := rel_none_or_some (hΓ.resolve hn)
    · simp only [hT, hT']
      exact hn.undeclaredType
    · simp only [hT, hT']
      cases hTT with
      | named hc => exact hΓ.expectReports hC henv ho (.named hc)
      | selfType => exact Violation.Related.illegalSelfType.report hn.span

theorem callReports {target target' : Option Symbol} (htarget : Option.Rel R.id target target')
    {m m' : Name} (hm : m.Related R m') {args args' : List Expr}
    (hargs : List.Forall₂ (Expr.Related R) args args') (span : Span) :
    ReportsRelated R (Γ.callReports C env target m args span)
      (Γ'.callReports C' env' target' m' args' span) := by
  cases htarget with
  | none => exact .nil
  | some hc =>
    unfold Setting.callReports
    dsimp only
    obtain ⟨hs, hs'⟩ | ⟨sig, sig', hs, hs', hsig⟩ :=
      rel_none_or_some (hΓ.signatures.method? hΓ.faithful hc hm.symbol)
    · simp only [hs, hs']
      exact (Violation.Related.undeclaredMethod hc hm.symbol).report hm.span
    · simp only [hs, hs']
      rw [hsig.params.length_eq, hargs.length_eq]
      refine List.rel_append (rel_ite Iff.rfl .nil ?_) (hΓ.argumentReports hC henv hargs hsig.params)
      exact Violation.Related.argumentCount.report rfl

/-! ## Case branches -/

omit hC henv in
theorem distinctReports {arms arms' : List Arm} (harms : List.Forall₂ (Arm.Related R) arms arms')
    {seen seen' : List Symbol} (hseen : List.Forall₂ R.id seen seen') :
    ReportsRelated R (Γ.distinctReports seen arms) (Γ'.distinctReports seen' arms') := by
  induction harms generalizing seen seen' with
  | nil => exact .nil
  | cons harm _ ih =>
    obtain ⟨_, htn, _⟩ := harm
    unfold Setting.distinctReports
    obtain ⟨hc, hc'⟩ | ⟨c, c', hc, hc', hcc⟩ := rel_none_or_some (hΓ.classOf htn)
    · simp only [hc, hc']
      exact ih hseen
    · simp only [hc, hc']
      -- the class is noted whether it has been seen before or not
      refine List.rel_append (rel_ite (List.rel_mem hΓ.faithful.biUnique hcc hseen) ?_ .nil)
        (ih (.cons hcc hseen))
      exact (Violation.Related.duplicateCaseType hcc).report htn.span

omit hC in
theorem armReports {arms arms' : List Arm} (harms : List.Forall₂ (Arm.Related R) arms arms')
    (h : ∀ arm ∈ arms, ∀ {env env' : Env} {e'}, env.Related R env' → arm.body.Related R e' →
      ReportsRelated R (Γ.reports C env arm.body) (Γ'.reports C' env' e')) :
    ReportsRelated R (Γ.armReports C env arms) (Γ'.armReports C' env' arms') := by
  induction harms with
  | nil => exact .nil
  | cons harm _ ih =>
    obtain ⟨hn, htn, he⟩ := harm
    rw [List.forall_mem_cons] at h
    have hbody := h.1 (hΓ.bound henv hn (hΓ.armTy htn)) he
    exact List.rel_append (List.rel_append (List.rel_append (hΓ.classReports htn .caseArm)
      (hΓ.bindReports hn)) hbody) (ih h.2)

/-! ## Expressions -/

omit hΓ hC henv in
theorem reportsAll {es es' : List Expr} (hes : List.Forall₂ (fun e e' =>
      ReportsRelated R (Γ.reports C env e) (Γ'.reports C' env' e')) es es') :
    ReportsRelated R (Γ.reportsAll C env es) (Γ'.reportsAll C' env' es') := by
  induction hes with
  | nil => exact .nil
  | cons he _ ih => exact List.rel_append he ih

omit hΓ hC henv in
theorem receiverReports {r r' : Receiver} (hr : r.Related R r')
    (h : ∀ o ∈ r.object?, ∀ o', o.Related R o' →
      ReportsRelated R (Γ.reports C env o) (Γ'.reports C' env' o')) :
    ReportsRelated R (Γ.receiverReports C env r) (Γ'.receiverReports C' env' r') := by
  cases hr with
  | implicit => exact .nil
  | dynamic ho => exact h _ rfl _ ho
  | static ho _ => exact h _ rfl _ ho

theorem initReports {T T' : Ty} (hT : T.Related R T') {init init' : Option Expr}
    (h : Option.Rel (Expr.Related R) init init')
    (hreports : ∀ i ∈ init, ∀ i', i.Related R i' →
      ReportsRelated R (Γ.reports C env i) (Γ'.reports C' env' i')) :
    ReportsRelated R (Γ.initReports C env T init) (Γ'.initReports C' env' T' init') := by
  cases h with
  | none => exact .nil
  | some hi => exact List.rel_append (hreports _ rfl _ hi) (hΓ.expectReports hC henv hi hT)

/-- What is reported in corresponding expressions corresponds. -/
theorem reports {e e' : Expr} (h : e.Related R e') :
    ReportsRelated R (Γ.reports C env e) (Γ'.reports C' env' e') := by
  induction e using Expr.induction generalizing env env' e' with
  | assign n e s t ih =>
    cases h with
    | assign hn he _ => exact List.rel_append (ih henv he) (hΓ.assignReports hC henv hn he)
  | call r m args s t ihr ihargs =>
    cases h with
    | call hr hm hargs _ =>
      have hreceiver := receiverReports hr fun o ho _ h => ihr o ho henv h
      have hall := reportsAll (forall₂_of_left hargs fun e he e' h => ihargs e he henv h)
      have htarget := hΓ.target hC (hΓ.receiverTy hC henv hr) hr
      exact List.rel_append (List.rel_append (List.rel_append hreceiver
        (hΓ.targetReports hC henv hr)) hall) (hΓ.callReports hC henv htarget hm hargs s)
  | cond a b c s t iha ihb ihc =>
    cases h with
    | cond ha hb hc _ =>
      exact List.rel_append (List.rel_append (List.rel_append (iha henv ha) (ihb henv hb))
        (ihc henv hc)) (hΓ.expectReports hC henv ha (hΓ.builtin .bool))
  | loop a b s t iha ihb =>
    cases h with
    | loop ha hb _ =>
      exact List.rel_append (List.rel_append (iha henv ha) (ihb henv hb))
        (hΓ.expectReports hC henv ha (hΓ.builtin .bool))
  | block es s t ih =>
    cases h with
    | block hes _ => exact reportsAll (forall₂_of_left hes fun e he e' h => ih e he henv h)
  | letIn b e s t ihi ih =>
    cases h with
    | letIn hb he _ =>
      obtain ⟨hn, htn, hi⟩ := hb
      -- the initial value is checked outside of the binding
      have hinit := hΓ.initReports hC henv (hΓ.nameTy htn) hi fun i hi _ h => ihi i hi henv h
      exact List.rel_append (List.rel_append (List.rel_append (hΓ.typeReports htn) hinit)
        (hΓ.bindReports hn)) (ih (hΓ.bound henv hn (hΓ.nameTy htn)) he)
  | caseOf e arms s t ih iharms =>
    cases h with
    | caseOf he harms _ =>
      exact List.rel_append (List.rel_append (ih henv he) (hΓ.distinctReports harms .nil))
        (hΓ.armReports henv harms fun arm harm _ _ _ henv he => iharms arm harm henv he)
  | new n s t => cases h with | new hn _ => exact hΓ.typeReports hn
  | binary op a b s t iha ihb =>
    cases h with
    | binary ha hb _ =>
      exact List.rel_append (List.rel_append (iha henv ha) (ihb henv hb))
        (hΓ.binaryReports hC henv op ha hb)
  | unary op a s t ih =>
    cases h with
    | unary ha _ => exact List.rel_append (ih henv ha) (hΓ.unaryReports hC henv op ha)
  | ident n t => cases h with | ident hn _ => exact hΓ.identReports hC henv hn
  | int v s t => cases h with | int _ _ => exact .nil
  | string v s t => cases h with | string _ _ => exact .nil
  | bool v s t => cases h with | bool _ => exact .nil
  | absent s t => cases h with | absent _ => exact .nil

end Setting.Related

end CoolTypes
