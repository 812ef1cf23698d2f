import CoolTypes.Proofs.Classes.Within
import CoolTypes.Proofs.Typing.Declarations
import CoolTypes.Proofs.Typing.Units

/-!
# Classes that the check comes to

If the type names of an expression are among some classes, and so is all that the setting has to offer,
then the type that the check finds for the expression is among them (`Within.infer`).
-/

namespace CoolTypes

variable {S : Symbol → Prop}

/-- All types of the environment are among some classes. -/
def Env.In (S : Symbol → Prop) (env : Env) : Prop := ∀ n T, env n = some T → T.In S

theorem Env.In.none : Env.In S fun _ => none := fun _ _ h => absurd h (by simp)

theorem Ty.In.within {T : Ty} (h : T.In S) {C : Symbol} (hC : S C) : S (T.within C) := by
  cases T with
  | named c => exact h
  | selfType => exact hC

theorem Ty.In.orSelf {T U : Ty} (h : T.In S) (hU : U.In S) : (T.orSelf U).In S := by
  cases T with
  | named c => exact h
  | selfType => exact hU

namespace Setting

/-- The classes of the hierarchy, the built-in ones and those in signatures are among some classes. -/
structure Within (S : Symbol → Prop) (Γ : Setting) : Prop where
  builtin : ∀ b : BuiltinClass, S (b.symbol Γ.tables)
  hierarchy : Γ.hierarchy.Within S
  method : ∀ c n sig, Γ.signatures.method? c n = some sig → sig.In S
  attr : ∀ c n a, Γ.signatures.attr? c n = some a → a.ty.In S

namespace Within

variable {Γ : Setting} (hΓ : Γ.Within S) {C : Symbol} (hC : S C) {env : Env} (henv : env.In S)

/-! ## Names -/

theorem resolve {n : Name} (hn : S n.symbol) {T : Ty}
    (h : Γ.signatures.resolve? n.symbol = some T) : T.In S := by
  unfold Signatures.resolve? at h
  split at h
  · cases h
    trivial
  · split at h
    · cases h
      exact hn
    · exact absurd h (by simp)

theorem classOf {n : Name} (hn : S n.symbol) : ∀ c ∈ Γ.classOf? n, S c := by
  intro c hc
  obtain ⟨T, hT, hTc⟩ := Option.bind_eq_some_iff.mp hc
  cases T with
  | named d =>
    cases hTc
    exact resolve hn hT
  | selfType => exact absurd hTc (by simp [Ty.className?])

include henv in
theorem bound {n : Name} {T : Ty} (hT : T.In S) : (Γ.bound env n T).In S := by
  unfold Setting.bound
  split
  · exact henv
  · intro m U hm
    unfold Env.bind at hm
    split at hm
    · exact Option.some.inj hm ▸ hT
    · exact henv m U hm

include hC in
theorem target {T : Ty} (hT : T.In S) {r : Receiver} (hn : ∀ n ∈ r.typeName?, S n.symbol) :
    ∀ c ∈ Γ.target? C T r, S c := by
  intro c hc
  cases r with
  | implicit | dynamic o =>
    cases hc
    exact hT.within hC
  | static o n => exact classOf (hn n rfl) c hc

include hΓ

theorem top : Γ.top.In S := hΓ.hierarchy.root

theorem declaredTy {n : Name} (hn : S n.symbol) : (Γ.declaredTy n).In S := by
  unfold Setting.declaredTy
  split
  · exact hn
  · cases h : Γ.signatures.resolve? n.symbol with
    | none => exact hΓ.top
    | some T => exact resolve hn h

theorem nameTy {n : Name} (hn : S n.symbol) : (Γ.nameTy n).In S := by
  unfold Setting.nameTy
  cases h : Γ.signatures.resolve? n.symbol with
  | none => exact hΓ.top
  | some T => exact resolve hn h

theorem armTy {n : Name} (hn : S n.symbol) : (Γ.armTy n).In S := (hΓ.nameTy hn).orSelf hΓ.top

theorem formalTy {f : Formal} (hf : S f.typeName.symbol) : (Γ.formalTy f).In S :=
  (hΓ.declaredTy hf).orSelf hΓ.top

/-! ## Types -/

theorem resultTy {T : Ty} (hT : T.In S) (target : Option Symbol) (m : Name) :
    (Γ.resultTy T target m).In S := by
  unfold Setting.resultTy
  split
  · next sig hsig =>
    obtain ⟨c, _, hc⟩ := Option.bind_eq_some_iff.mp hsig
    exact (hΓ.method c m.symbol sig hc).ret.orSelf hT
  · exact hΓ.top

theorem joinTy {Ts : List Ty} (hTs : ∀ T ∈ Ts, S (T.within C)) : (Γ.joinTy C Ts).In S := by
  unfold Setting.joinTy
  cases hj : Γ.hierarchy.joinAll? C Ts with
  | none => exact hΓ.top
  | some j => exact hΓ.hierarchy.joinAll? hTs j hj

include henv

theorem lookup {n : Name} {T : Ty} (h : Γ.lookup? C env n = some T) : T.In S := by
  unfold lookup? at h
  cases hn : env n.symbol with
  | some U =>
    rw [hn] at h
    cases h
    exact henv _ _ hn
  | none =>
    rw [hn, Option.none_or, Option.map_eq_some_iff] at h
    obtain ⟨a, ha, rfl⟩ := h
    exact hΓ.attr C n.symbol a ha

theorem identTy (n : Name) : (Γ.identTy C env n).In S := by
  unfold Setting.identTy
  split
  · trivial
  · cases h : Γ.lookup? C env n with
    | none => exact hΓ.top
    | some T => exact hΓ.lookup henv h

include hC

theorem armTys {arms : List Arm} (htn : ∀ arm ∈ arms, S arm.typeName.symbol)
    (h : ∀ arm ∈ arms, ∀ env : Env, env.In S → (Γ.infer C env arm.body).In S) :
    ∀ T ∈ Γ.armTys C env arms, S (T.within C) := by
  induction arms with
  | nil => exact List.forall_mem_nil _
  | cons arm rest ih =>
    obtain ⟨n, tn, e, s⟩ := arm
    rw [List.forall_mem_cons] at htn h
    rw [Setting.armTys, List.forall_mem_cons]
    exact ⟨(h.1 _ (bound henv (hΓ.armTy htn.1))).within hC, ih htn.2 h.2⟩

/-- The type of an expression. -/
theorem infer {e : Expr} (h : e.TypesIn S) : (Γ.infer C env e).In S := by
  induction h generalizing env with
  | assign _ ih => exact ih henv
  | @call r m args s ty _ _ _ iho _ =>
    refine hΓ.resultTy ?_ _ m
    cases r with
    | implicit => trivial
    | dynamic o => exact iho o rfl henv
    | static o n => exact iho o rfl henv
  | cond _ _ _ _ ihb _ => exact hΓ.hierarchy.join ((ihb henv).within hC)
  | loop | absent => exact hΓ.top
  | @block es _ _ _ ih =>
    rw [Setting.infer, lastTy_eq]
    cases he : es.getLast? with
    | none => exact hΓ.top
    | some e => exact ih e (List.mem_of_getLast? he) henv
  | letIn htn _ _ _ ih => exact ih (bound henv (hΓ.nameTy htn))
  | caseOf _ htn _ _ iharms =>
    exact hΓ.joinTy (hΓ.armTys hC henv htn fun arm harm env henv => iharms arm harm henv)
  | new hn => exact (hΓ.nameTy hn).within hC
  | @binary op => cases op <;> exact hΓ.builtin _
  | @unary op => cases op <;> exact hΓ.builtin _
  | ident => exact hΓ.identTy henv _
  | int | string | bool => exact hΓ.builtin _

theorem receiverTy {r : Receiver} (ho : ∀ o ∈ r.object?, o.TypesIn S) :
    (Γ.receiverTy C env r).In S := by
  cases r with
  | implicit => trivial
  | dynamic o | static o n => exact hΓ.infer hC henv (ho o rfl)

/-! ## Parameters -/

omit hC henv in
theorem bindFormal {scope : SymbolMap Ty} (h : Env.In S scope.get?) {f : Formal}
    (hf : S f.typeName.symbol) : Env.In S (Γ.bindFormal scope f).get? := by
  intro n T hT
  unfold Setting.bindFormal at hT
  split at hT
  · exact h n T hT
  · rcases SymbolMap.get?_insert_cases hT with hT | ⟨_, rfl⟩
    · exact h n T hT
    · exact hΓ.formalTy hf

omit hC henv in
theorem paramScope {params : List Formal} (h : ∀ f ∈ params, S f.typeName.symbol) :
    Env.In S (Γ.paramScope params).get? :=
  List.foldlRecOn (motive := fun scope => Env.In S scope.get?) params Γ.bindFormal Env.In.none
    fun _ hscope f hf => hΓ.bindFormal hscope (h f hf)

omit hC in
theorem methodEnv {params : List Formal} (h : ∀ f ∈ params, S f.typeName.symbol) :
    (Γ.methodEnv env params).In S := by
  intro n T hT
  rcases Option.or_eq_some_iff.mp hT with hT | ⟨_, hT⟩
  · exact hΓ.paramScope h n T hT
  · exact henv n T hT

end Within

end Setting

/-- The setting over classes whose type names are among some classes. -/
theorem settingOf_within {t : SymbolTables} {classes : List Class}
    (hbuiltin : ∀ b : BuiltinClass, S (b.symbol t)) (h : ∀ c ∈ classes, c.TypesIn S) :
    (settingOf t classes).Within S := by
  have hh : (hierarchyOf t classes).Within S := hierarchyOf_within (hbuiltin .object) h
  have htables := Signatures.collect_within (t := t) hh.root h
  refine ⟨hbuiltin, hh, fun c n sig hsig => ?_, fun c n a ha => ?_⟩
  · obtain ⟨tab, htab, hsig⟩ := Option.bind_eq_some_iff.mp hsig
    exact (htables c tab htab).methods n sig hsig
  · obtain ⟨tab, htab, ha⟩ := Option.bind_eq_some_iff.mp ha
    exact (htables c tab htab).attrs n a ha

end CoolTypes
