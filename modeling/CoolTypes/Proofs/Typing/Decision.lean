import CoolTypes.Proofs.Typing.Relation

/-!
# The check decides the typing relation

Each form of expression has a lemma `Decides`: if the check decides whether the expressions inside of it
have types, it does so for the whole. Together they give `hasType_iff`.
-/

namespace CoolTypes

namespace Setting

variable {Γ : Setting} {C : Symbol} {env : Env}

/-- Under declared types of names, the expression has a type if and only if nothing is reported in it,
and then it is the inferred one. -/
def Decides (Γ : Setting) (C : Symbol) (e : Expr) : Prop :=
  ∀ env : Env, env.Declared Γ.hierarchy → ∀ T,
    HasType Γ C env e T ↔ Γ.reports C env e = [] ∧ Γ.infer C env e = T

theorem Decides.hasType {e : Expr} (h : Γ.Decides C e) (henv : env.Declared Γ.hierarchy)
    (hr : Γ.reports C env e = []) : HasType Γ C env e (Γ.infer C env e) :=
  (h env henv _).mpr ⟨hr, rfl⟩

/-! ## Names -/

theorem bound_of_ne {n : Name} {T : Ty} (h : n.symbol ≠ Γ.tables.known .self) :
    Γ.bound env n T = env.bind n.symbol T :=
  if_neg h

theorem nameTy_of_resolve {n : Name} {T : Ty} (h : Γ.signatures.resolve? n.symbol = some T) :
    Γ.nameTy n = T := by
  rw [nameTy, h]
  rfl

theorem classOf_of_resolve {n : Name} {K : Symbol}
    (h : Γ.signatures.resolve? n.symbol = some (.named K)) : Γ.classOf? n = some K := by
  rw [classOf?, h]
  rfl

theorem resultTy_of_method {T : Ty} {c : Symbol} {m : Name} {sig : MethodSig}
    (h : Γ.signatures.method? c m.symbol = some sig) :
    Γ.resultTy T (some c) m = sig.ret.orSelf T := by
  rw [resultTy, Option.bind_some, h]

theorem armTy_of_resolve {n : Name} {K : Symbol}
    (h : Γ.signatures.resolve? n.symbol = some (.named K)) : Γ.armTy n = .named K := by
  rw [armTy, nameTy_of_resolve h]
  rfl

/-! ## Lists -/

theorem hasTypes_iff (henv : env.Declared Γ.hierarchy) {es : List Expr} {Ts : List Ty}
    (h : ∀ e ∈ es, Γ.Decides C e) :
    HasTypes Γ C env es Ts ↔
      Γ.reportsAll C env es = [] ∧ es.map (Γ.infer C env) = Ts := by
  induction es generalizing Ts with
  | nil =>
    constructor
    · rintro ⟨⟩
      exact ⟨rfl, rfl⟩
    · rintro ⟨-, rfl⟩
      exact .nil
  | cons e rest ih =>
    have hrest : ∀ {Us}, HasTypes Γ C env rest Us ↔ _ :=
      ih fun e he => h e (List.mem_cons_of_mem _ he)
    rw [reportsAll, List.append_eq_nil_iff, List.map_cons]
    constructor
    · intro ht
      cases ht with
      | cons he hes =>
        obtain ⟨hr, rfl⟩ := (h e List.mem_cons_self env henv _).mp he
        obtain ⟨hrs, rfl⟩ := hrest.mp hes
        exact ⟨⟨hr, hrs⟩, rfl⟩
    · rintro ⟨⟨hr, hrs⟩, rfl⟩
      exact .cons ((h e List.mem_cons_self).hasType henv hr) (hrest.mpr ⟨hrs, rfl⟩)

theorem hasArms_iff (hΓ : Γ.Regular) (henv : env.Declared Γ.hierarchy) {arms : List Arm}
    {Ks : List Symbol} {Ts : List Ty} (h : ∀ arm ∈ arms, Γ.Decides C arm.body) :
    HasArms Γ C env arms Ks Ts ↔ Γ.armReports C env arms = [] ∧
      Γ.armClasses arms = Ks ∧ Γ.armTys C env arms = Ts := by
  induction arms generalizing Ks Ts with
  | nil =>
    constructor
    · rintro ⟨⟩
      exact ⟨rfl, rfl, rfl⟩
    · rintro ⟨-, rfl, rfl⟩
      exact .nil
  | cons arm rest ih =>
    obtain ⟨n, tn, e, s⟩ := arm
    have hrest : ∀ {Ls Us}, HasArms Γ C env rest Ls Us ↔ _ :=
      ih fun arm harm => h arm (List.mem_cons_of_mem _ harm)
    have hbody : ∀ {K}, Γ.signatures.resolve? tn.symbol = some (.named K) → ∀ T,
        HasType Γ C (env.bind n.symbol (.named K)) e T ↔ _ := fun hK =>
      h ⟨n, tn, e, s⟩ List.mem_cons_self _ (henv.bind (hΓ.resolve_declares hK))
    have hclass : ∀ {K}, Γ.signatures.resolve? tn.symbol = some (.named K) →
        Γ.armClasses (⟨n, tn, e, s⟩ :: rest) = K :: Γ.armClasses rest := by
      intro K hK
      rw [armClasses, List.filterMap_cons]
      dsimp only
      rw [classOf_of_resolve hK]
      rfl
    rw [armReports, armTys, List.append_eq_nil_iff, List.append_eq_nil_iff,
      List.append_eq_nil_iff, classReports_eq_nil_iff, bindReports_eq_nil_iff]
    constructor
    · intro ht
      cases ht with
      | cons hK hn he hes =>
        obtain ⟨hr, rfl⟩ := (hbody hK _).mp he
        obtain ⟨hrs, rfl, rfl⟩ := hrest.mp hes
        rw [armTy_of_resolve hK, bound_of_ne hn, hclass hK]
        exact ⟨⟨⟨⟨⟨_, hK⟩, hn⟩, hr⟩, hrs⟩, rfl, rfl⟩
    · rintro ⟨⟨⟨⟨⟨K, hK⟩, hn⟩, hr⟩, hrs⟩, rfl, rfl⟩
      rw [armTy_of_resolve hK, bound_of_ne hn] at hr ⊢
      rw [hclass hK]
      exact .cons hK hn ((hbody hK _).mpr ⟨hr, rfl⟩) (hrest.mpr ⟨hrs, rfl, rfl⟩)

/-! ## Forms of expressions -/

/-- An expression without parts in which nothing can be reported. -/
theorem Decides.literal {e : Expr} (hreports : ∀ env, Γ.reports C env e = [])
    (htype : ∀ env, HasType Γ C env e (Γ.infer C env e))
    (hunique : ∀ env T, HasType Γ C env e T → Γ.infer C env e = T) : Γ.Decides C e := by
  intro env _ T
  constructor
  · intro h
    exact ⟨hreports env, hunique env T h⟩
  · rintro ⟨-, rfl⟩
    exact htype env

theorem Decides.new (n : Name) (s : Span) (t : Option Ty) : Γ.Decides C (.new n s t) := by
  intro env henv T
  rw [reports, infer, typeReports_eq_nil_iff]
  constructor
  · intro h
    cases h with
    | new hU => exact ⟨⟨_, hU⟩, by rw [nameTy_of_resolve hU]⟩
  · rintro ⟨⟨U, hU⟩, rfl⟩
    rw [nameTy_of_resolve hU]
    exact .new hU

theorem Decides.ident (n : Name) (t : Option Ty) : Γ.Decides C (.ident n t) := by
  intro env henv T
  rw [reports, infer, identReports_eq_nil_iff]
  constructor
  · intro h
    cases h with
    | self hn => exact ⟨.inl hn, if_pos hn⟩
    | ident hn hT => exact ⟨.inr ⟨_, hT⟩, by rw [identTy, if_neg hn, hT]; rfl⟩
  · rintro ⟨hT, rfl⟩
    by_cases hn : n.symbol = Γ.tables.known .self
    · rw [identTy, if_pos hn]
      exact .self hn
    · obtain ⟨T, hT⟩ := hT.resolve_left hn
      rw [identTy, if_neg hn, hT]
      exact .ident hn hT

theorem Decides.block {es : List Expr} {s : Span} {t : Option Ty}
    (ih : ∀ e ∈ es, Γ.Decides C e) : Γ.Decides C (.block es s t) := by
  intro env henv T
  have hes : ∀ {Ts}, HasTypes Γ C env es Ts ↔ _ := hasTypes_iff henv ih
  have hlast : Γ.lastTy C env es = (es.map (Γ.infer C env)).getLast?.getD Γ.top := by
    rw [lastTy_eq, List.getLast?_map]
  rw [reports, infer, hlast]
  constructor
  · intro h
    cases h with
    | block ht =>
      obtain ⟨hr, rfl⟩ := hes.mp ht
      exact ⟨hr, rfl⟩
  · rintro ⟨hr, rfl⟩
    exact .block (hes.mpr ⟨hr, rfl⟩)

section

variable (hΓ : Γ.Regular) (hC : Γ.Checkable C)

include hΓ hC

theorem Decides.assign {n : Name} {e : Expr} {s : Span} {t : Option Ty} (ih : Γ.Decides C e) :
    Γ.Decides C (.assign n e s t) := by
  intro env henv T
  rw [reports, infer, List.append_eq_nil_iff, assignReports_eq_nil_iff hΓ hC henv]
  constructor
  · intro h
    cases h with
    | assign hn hU he hconf =>
      obtain ⟨hr, rfl⟩ := (ih env henv _).mp he
      exact ⟨⟨hr, hn, _, hU, hconf⟩, rfl⟩
  · rintro ⟨⟨hr, hn, U, hU, hconf⟩, rfl⟩
    exact .assign hn hU (ih.hasType henv hr) hconf

theorem Decides.call {r : Receiver} {m : Name} {args : List Expr} {s : Span} {t : Option Ty}
    (ihr : ∀ o ∈ r.object?, Γ.Decides C o) (ihargs : ∀ e ∈ args, Γ.Decides C e) :
    Γ.Decides C (.call r m args s t) := by
  intro env henv T
  have hargs : ∀ {Ts}, HasTypes Γ C env args Ts ↔ _ :=
    hasTypes_iff henv ihargs
  rw [reports, infer, List.append_eq_nil_iff, List.append_eq_nil_iff, List.append_eq_nil_iff]
  cases r with
  | implicit =>
    rw [show Γ.target? C (Γ.receiverTy C env .implicit) .implicit = some C from rfl,
      callReports_eq_nil_iff hΓ hC henv]
    constructor
    · intro h
      cases h with
      | callImplicit hes hsig hconf =>
        obtain ⟨hr, rfl⟩ := hargs.mp hes
        refine ⟨⟨⟨⟨rfl, rfl⟩, hr⟩, _, hsig, hconf⟩, ?_⟩
        rw [resultTy_of_method hsig]
        exact Ty.orSelf_selfType _
    · rintro ⟨⟨⟨-, hr⟩, sig, hsig, hconf⟩, rfl⟩
      rw [resultTy_of_method hsig, show Γ.receiverTy C env .implicit = .selfType from rfl,
        Ty.orSelf_selfType]
      exact .callImplicit (hargs.mpr ⟨hr, rfl⟩) hsig hconf
  | dynamic o =>
    rw [show Γ.target? C (Γ.receiverTy C env (.dynamic o)) (.dynamic o) =
      some ((Γ.infer C env o).within C) from rfl, callReports_eq_nil_iff hΓ hC henv]
    constructor
    · intro h
      cases h with
      | callDynamic ho hes hsig hconf =>
        obtain ⟨hro, rfl⟩ := (ihr o rfl env henv _).mp ho
        obtain ⟨hr, rfl⟩ := hargs.mp hes
        exact ⟨⟨⟨⟨hro, rfl⟩, hr⟩, _, hsig, hconf⟩, resultTy_of_method hsig⟩
    · rintro ⟨⟨⟨⟨hro, -⟩, hr⟩, sig, hsig, hconf⟩, rfl⟩
      rw [resultTy_of_method hsig]
      exact .callDynamic ((ihr o rfl).hasType henv hro) (hargs.mpr ⟨hr, rfl⟩) hsig hconf
  | static o n =>
    rw [show Γ.target? C (Γ.receiverTy C env (.static o n)) (.static o n) = Γ.classOf? n from rfl,
      targetReports_static_eq_nil_iff hΓ hC henv]
    constructor
    · intro h
      cases h with
      | callStatic ho hK hoK hes hsig hconf =>
        obtain ⟨hro, rfl⟩ := (ihr o rfl env henv _).mp ho
        obtain ⟨hr, rfl⟩ := hargs.mp hes
        rw [classOf_of_resolve hK, callReports_eq_nil_iff hΓ hC henv]
        exact ⟨⟨⟨⟨hro, _, hK, hoK⟩, hr⟩, _, hsig, hconf⟩, resultTy_of_method hsig⟩
    · rintro ⟨⟨⟨⟨hro, K, hK, hoK⟩, hr⟩, hcall⟩, rfl⟩
      rw [classOf_of_resolve hK] at hcall ⊢
      obtain ⟨sig, hsig, hconf⟩ := (callReports_eq_nil_iff hΓ hC henv).mp hcall
      rw [resultTy_of_method hsig]
      exact .callStatic ((ihr o rfl).hasType henv hro) hK hoK (hargs.mpr ⟨hr, rfl⟩) hsig hconf

theorem Decides.cond {a b c : Expr} {s : Span} {t : Option Ty} (iha : Γ.Decides C a)
    (ihb : Γ.Decides C b) (ihc : Γ.Decides C c) : Γ.Decides C (.cond a b c s t) := by
  intro env henv T
  rw [reports, infer, List.append_eq_nil_iff, List.append_eq_nil_iff, List.append_eq_nil_iff,
    expectReports_eq_nil_iff hΓ hC henv]
  have hjoin := hΓ.rooted.isJoin_join
    ((hΓ.infer_declares hC henv b).contains_within hC.contains)
    ((hΓ.infer_declares hC henv c).contains_within hC.contains)
  constructor
  · intro h
    cases h with
    | cond ha hconf hb hc hJ =>
      obtain ⟨hra, rfl⟩ := (iha env henv _).mp ha
      obtain ⟨hrb, rfl⟩ := (ihb env henv _).mp hb
      obtain ⟨hrc, rfl⟩ := (ihc env henv _).mp hc
      have hends := hΓ.rooted.ends (hΓ.infer_declares hC henv (.cond a b c s t))
      exact ⟨⟨⟨⟨hra, hrb⟩, hrc⟩, hconf⟩, congrArg Ty.named (hjoin.unique hJ hends)⟩
  · rintro ⟨⟨⟨⟨hra, hrb⟩, hrc⟩, hconf⟩, rfl⟩
    exact .cond (iha.hasType henv hra) hconf (ihb.hasType henv hrb)
      (ihc.hasType henv hrc) hjoin

theorem Decides.loop {a b : Expr} {s : Span} {t : Option Ty} (iha : Γ.Decides C a)
    (ihb : Γ.Decides C b) : Γ.Decides C (.loop a b s t) := by
  intro env henv T
  rw [reports, infer, List.append_eq_nil_iff, List.append_eq_nil_iff,
    expectReports_eq_nil_iff hΓ hC henv]
  constructor
  · intro h
    cases h with
    | loop ha hconf hb =>
      obtain ⟨hra, rfl⟩ := (iha env henv _).mp ha
      obtain ⟨hrb, -⟩ := (ihb env henv _).mp hb
      exact ⟨⟨⟨hra, hrb⟩, hconf⟩, rfl⟩
  · rintro ⟨⟨⟨hra, hrb⟩, hconf⟩, rfl⟩
    exact .loop (iha.hasType henv hra) hconf (ihb.hasType henv hrb)

theorem Decides.letIn {b : Binding} {e : Expr} {s : Span} {t : Option Ty}
    (ihi : ∀ i ∈ b.init, Γ.Decides C i) (ih : Γ.Decides C e) : Γ.Decides C (.letIn b e s t) := by
  intro env henv T
  obtain ⟨n, tn, init, bs⟩ := b
  have hbody : ∀ {U}, Γ.signatures.resolve? tn.symbol = some U → ∀ {T},
      HasType Γ C (env.bind n.symbol U) e T ↔ _ := fun hU =>
    ih _ (henv.bind (hΓ.resolve_declares hU)) _
  rw [reports, infer, List.append_eq_nil_iff, List.append_eq_nil_iff, List.append_eq_nil_iff,
    typeReports_eq_nil_iff, bindReports_eq_nil_iff]
  constructor
  · intro h
    cases h with
    | letIn hU hn he =>
      obtain ⟨hr, rfl⟩ := (hbody hU).mp he
      rw [nameTy_of_resolve hU, bound_of_ne hn]
      exact ⟨⟨⟨⟨⟨_, hU⟩, rfl⟩, hn⟩, hr⟩, rfl⟩
    | letInit hU hi hconf hn he =>
      obtain ⟨hr, rfl⟩ := (hbody hU).mp he
      obtain ⟨hri, rfl⟩ := (ihi _ rfl env henv _).mp hi
      rw [nameTy_of_resolve hU, bound_of_ne hn]
      refine ⟨⟨⟨⟨⟨_, hU⟩, ?_⟩, hn⟩, hr⟩, rfl⟩
      exact List.append_eq_nil_iff.mpr ⟨hri, (expectReports_eq_nil_iff hΓ hC henv).mpr hconf⟩
  · rintro ⟨⟨⟨⟨⟨U, hU⟩, hinit⟩, hn⟩, hr⟩, rfl⟩
    rw [nameTy_of_resolve hU] at hr hinit ⊢
    rw [bound_of_ne hn] at hr ⊢
    have he := (hbody hU).mpr ⟨hr, rfl⟩
    cases init with
    | none => exact .letIn hU hn he
    | some i =>
      obtain ⟨hri, hconf⟩ := List.append_eq_nil_iff.mp hinit
      exact .letInit hU ((ihi i rfl).hasType henv hri)
        ((expectReports_eq_nil_iff hΓ hC henv).mp hconf) hn he

theorem Decides.caseOf {e : Expr} {arms : List Arm} {s : Span} {t : Option Ty}
    (ih : Γ.Decides C e) (iharms : ∀ arm ∈ arms, Γ.Decides C arm.body) :
    Γ.Decides C (.caseOf e arms s t) := by
  intro env henv T
  have harms : ∀ {Ks Ts}, HasArms Γ C env arms Ks Ts ↔ _ :=
    hasArms_iff hΓ henv iharms
  rw [reports, infer, List.append_eq_nil_iff, List.append_eq_nil_iff, distinctReports_eq_nil_iff]
  have hdeclared : ∀ T ∈ Γ.armTys C env arms, Γ.hierarchy.Declares T :=
    hΓ.armTys_declares henv fun arm _ env henv => hΓ.infer_declares hC henv arm.body
  cases arms with
  | nil =>
    constructor
    · intro h
      cases h with
      | caseOf _ _ _ _ hne => exact absurd rfl hne
      | caseNone he =>
        obtain ⟨hr, -⟩ := (ih env henv _).mp he
        exact ⟨⟨⟨hr, List.nodup_nil, fun _ h => absurd h List.not_mem_nil⟩, rfl⟩, rfl⟩
    · rintro ⟨⟨⟨hr, -⟩, -⟩, rfl⟩
      exact .caseNone (ih.hasType henv hr)
  | cons arm rest =>
    obtain ⟨j, hj, hmem, hjoin⟩ := hΓ.rooted.isJoin_joinAll?
      (fun T hT => (hdeclared T hT).contains_within hC.contains)
      (show Γ.armTys C env (arm :: rest) ≠ [] by cases arm; exact List.cons_ne_nil _ _)
    rw [joinTy, hj]
    constructor
    · intro h
      cases h with
      | caseOf he has hnodup hJ _ =>
        obtain ⟨hr, -⟩ := (ih env henv _).mp he
        obtain ⟨hrs, rfl, rfl⟩ := harms.mp has
        exact ⟨⟨⟨hr, hnodup, fun _ _ => List.not_mem_nil⟩, hrs⟩,
          congrArg Ty.named (hjoin.unique hJ (hΓ.rooted.ends hmem))⟩
    · rintro ⟨⟨⟨hr, hnodup, -⟩, hrs⟩, rfl⟩
      exact .caseOf (ih.hasType henv hr) (harms.mpr ⟨hrs, rfl, rfl⟩) hnodup hjoin
        (List.cons_ne_nil _ _)

theorem Decides.binary {op : BinaryOp} {a b : Expr} {s : Span} {t : Option Ty}
    (iha : Γ.Decides C a) (ihb : Γ.Decides C b) : Γ.Decides C (.binary op a b s t) := by
  intro env henv T
  rw [reports, infer, List.append_eq_nil_iff, List.append_eq_nil_iff]
  cases op with
  | equals =>
    rw [binaryReports, comparableReports_eq_nil_iff]
    constructor
    · intro h
      cases h with
      | equals ha hb heq =>
        obtain ⟨hra, rfl⟩ := (iha env henv _).mp ha
        obtain ⟨hrb, rfl⟩ := (ihb env henv _).mp hb
        exact ⟨⟨⟨hra, hrb⟩, heq⟩, rfl⟩
      | arithmetic hop | order hop => exact absurd hop (by simp)
    · rintro ⟨⟨⟨hra, hrb⟩, heq⟩, rfl⟩
      exact .equals (iha.hasType henv hra) (ihb.hasType henv hrb) heq
  | add | subtract | multiply | divide =>
    rw [binaryReports, List.append_eq_nil_iff, expectReports_eq_nil_iff hΓ hC henv,
      expectReports_eq_nil_iff hΓ hC henv]
    constructor
    · intro h
      cases h with
      | arithmetic _ ha hA hb hB =>
        obtain ⟨hra, rfl⟩ := (iha env henv _).mp ha
        obtain ⟨hrb, rfl⟩ := (ihb env henv _).mp hb
        exact ⟨⟨⟨hra, hrb⟩, hA, hB⟩, rfl⟩
      | order hop => exact absurd hop (by simp)
    · rintro ⟨⟨⟨hra, hrb⟩, hA, hB⟩, rfl⟩
      exact .arithmetic (by simp) (iha.hasType henv hra) hA (ihb.hasType henv hrb) hB
  | lessThan | lessEquals =>
    rw [binaryReports, List.append_eq_nil_iff, expectReports_eq_nil_iff hΓ hC henv,
      expectReports_eq_nil_iff hΓ hC henv]
    constructor
    · intro h
      cases h with
      | order _ ha hA hb hB =>
        obtain ⟨hra, rfl⟩ := (iha env henv _).mp ha
        obtain ⟨hrb, rfl⟩ := (ihb env henv _).mp hb
        exact ⟨⟨⟨hra, hrb⟩, hA, hB⟩, rfl⟩
      | arithmetic hop => exact absurd hop (by simp)
    · rintro ⟨⟨⟨hra, hrb⟩, hA, hB⟩, rfl⟩
      exact .order (by simp) (iha.hasType henv hra) hA (ihb.hasType henv hrb) hB

theorem Decides.unary {op : UnaryOp} {a : Expr} {s : Span} {t : Option Ty}
    (ih : Γ.Decides C a) : Γ.Decides C (.unary op a s t) := by
  intro env henv T
  rw [reports, infer, List.append_eq_nil_iff]
  cases op with
  | isVoid =>
    constructor
    · intro h
      cases h with
      | isVoid ha =>
        obtain ⟨hr, -⟩ := (ih env henv _).mp ha
        exact ⟨⟨hr, rfl⟩, rfl⟩
    · rintro ⟨⟨hr, -⟩, rfl⟩
      exact .isVoid (ih.hasType henv hr)
  | complement =>
    rw [unaryReports, expectReports_eq_nil_iff hΓ hC henv]
    constructor
    · intro h
      cases h with
      | complement ha hA =>
        obtain ⟨hr, rfl⟩ := (ih env henv _).mp ha
        exact ⟨⟨hr, hA⟩, rfl⟩
    · rintro ⟨⟨hr, hA⟩, rfl⟩
      exact .complement (ih.hasType henv hr) hA
  | not =>
    rw [unaryReports, expectReports_eq_nil_iff hΓ hC henv]
    constructor
    · intro h
      cases h with
      | not ha hA =>
        obtain ⟨hr, rfl⟩ := (ih env henv _).mp ha
        exact ⟨⟨hr, hA⟩, rfl⟩
    · rintro ⟨⟨hr, hA⟩, rfl⟩
      exact .not (ih.hasType henv hr) hA

/-- The check decides whether an expression has a type. -/
theorem decides (e : Expr) : Γ.Decides C e := by
  induction e using Expr.induction with
  | assign n e s t ih => exact .assign hΓ hC ih
  | call r m args s t ihr ihargs => exact .call hΓ hC ihr ihargs
  | cond a b c s t iha ihb ihc => exact .cond hΓ hC iha ihb ihc
  | loop a b s t iha ihb => exact .loop hΓ hC iha ihb
  | block es s t ih => exact .block ih
  | letIn b e s t ihi ih => exact .letIn hΓ hC ihi ih
  | caseOf e arms s t ih iharms => exact .caseOf hΓ hC ih iharms
  | new n s t => exact .new n s t
  | binary op a b s t iha ihb => exact .binary hΓ hC iha ihb
  | unary op a s t ih => exact .unary hΓ hC ih
  | ident n t => exact .ident n t
  | int v s t => exact .literal (fun _ => rfl) (fun _ => .int) (by rintro _ _ ⟨⟩; rfl)
  | string v s t => exact .literal (fun _ => rfl) (fun _ => .string) (by rintro _ _ ⟨⟩; rfl)
  | bool v s t => exact .literal (fun _ => rfl) (fun _ => .bool) (by rintro _ _ ⟨⟩; rfl)
  | absent s t => exact .literal (fun _ => rfl) (fun _ => .absent) (by rintro _ _ ⟨⟩; rfl)

end

/-- An expression has a type if and only if nothing is reported in it, and then it is the inferred
one. -/
theorem hasType_iff (hΓ : Γ.Regular) (hC : Γ.Checkable C) (henv : env.Declared Γ.hierarchy)
    {e : Expr} {T : Ty} :
    HasType Γ C env e T ↔ Γ.reports C env e = [] ∧ Γ.infer C env e = T :=
  decides hΓ hC e env henv T

end Setting

end CoolTypes
