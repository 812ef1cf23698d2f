import CoolTypes.Proofs.Classes.Inherited
import CoolTypes.Proofs.Typing.Inference

/-!
# Regular settings

The setting of a unit with a well-formed hierarchy is regular: its classes form a rooted hierarchy and
all types in its tables are declared. Then every type that the check can come to is the self type or a
class of the hierarchy, whatever is wrong with the code (`Regular.infer_declares`).
-/

namespace CoolTypes

/-- All types of the environment are declared. -/
def Env.Declared (h : ClassHierarchy) (env : Env) : Prop := ∀ n T, env n = some T → h.Declares T

theorem Env.Declared.bind {h : ClassHierarchy} {env : Env} (henv : env.Declared h) {n : Symbol}
    {T : Ty} (hT : h.Declares T) : (env.bind n T).Declared h := by
  intro m U hm
  unfold Env.bind at hm
  by_cases hmn : m = n
  · rw [if_pos hmn] at hm
    exact Option.some.inj hm ▸ hT
  · rw [if_neg hmn] at hm
    exact henv m U hm

namespace Setting

/-- The classes of the setting form a rooted hierarchy in which the types of all signatures are
declared, and nothing inherits from a primitive class. -/
structure Regular (Γ : Setting) : Prop where
  rooted : Γ.hierarchy.Rooted
  contains : ∀ n, Γ.signatures.contains n = true ↔ Γ.hierarchy.contains n = true
  builtin : ∀ b : BuiltinClass, Γ.hierarchy.contains (b.symbol Γ.tables) = true
  method : ∀ c n sig, Γ.signatures.method? c n = some sig →
    Signatures.MethodDeclares Γ.hierarchy sig
  attr : ∀ c n a, ¬ Γ.tables.IsPrimitive c → Γ.signatures.attr? c n = some a →
    Γ.hierarchy.Declares a.ty
  final : ∀ c d, Γ.tables.IsPrimitive c → Γ.hierarchy.graph.Reaches d c → d = c

/-- A class whose code is checked: it is declared and not primitive. -/
structure Checkable (Γ : Setting) (C : Symbol) : Prop where
  contains : Γ.hierarchy.contains C = true
  notPrimitive : ¬ Γ.tables.IsPrimitive C

namespace Regular

variable {Γ : Setting} {C : Symbol} {env : Env}

/-! ## Declared types -/

theorem resolve_declares (hΓ : Γ.Regular) {n : Symbol} {T : Ty}
    (h : Γ.signatures.resolve? n = some T) : Γ.hierarchy.Declares T := by
  unfold Signatures.resolve? at h
  split at h
  · cases h
    trivial
  · split at h
    · next hn =>
      cases h
      exact (hΓ.contains n).mp hn
    · exact absurd h (by simp)

theorem top_declares (Γ : Setting) : Γ.hierarchy.Declares Γ.top := ClassHierarchy.contains_root

theorem nameTy_declares (hΓ : Γ.Regular) (n : Name) : Γ.hierarchy.Declares (Γ.nameTy n) := by
  unfold nameTy
  cases h : Γ.signatures.resolve? n.symbol with
  | none => exact top_declares Γ
  | some T => exact hΓ.resolve_declares h

theorem armTy_declares (hΓ : Γ.Regular) (n : Name) : Γ.hierarchy.Declares (Γ.armTy n) :=
  (hΓ.nameTy_declares n).orSelf (top_declares Γ)

theorem bound_declared (henv : env.Declared Γ.hierarchy) {n : Name} {T : Ty}
    (hT : Γ.hierarchy.Declares T) : (Γ.bound env n T).Declared Γ.hierarchy := by
  unfold bound
  split
  · exact henv
  · exact henv.bind hT

theorem lookup_declares (hΓ : Γ.Regular) (hC : Γ.Checkable C) (henv : env.Declared Γ.hierarchy)
    {n : Name} {T : Ty} (h : Γ.lookup? C env n = some T) : Γ.hierarchy.Declares T := by
  unfold lookup? at h
  cases hn : env n.symbol with
  | some U =>
    rw [hn] at h
    cases h
    exact henv _ _ hn
  | none =>
    rw [hn, Option.none_or, Option.map_eq_some_iff] at h
    obtain ⟨a, ha, rfl⟩ := h
    exact hΓ.attr C n.symbol a hC.notPrimitive ha

theorem resultTy_declares (hΓ : Γ.Regular) {T : Ty} (hT : Γ.hierarchy.Declares T)
    (target : Option Symbol) (m : Name) : Γ.hierarchy.Declares (Γ.resultTy T target m) := by
  unfold resultTy
  split
  · next sig hsig =>
    obtain ⟨c, _, hc⟩ := Option.bind_eq_some_iff.mp hsig
    exact (hΓ.method c m.symbol sig hc).ret.orSelf hT
  · exact top_declares Γ

theorem joinTy_declares (hΓ : Γ.Regular) (hC : Γ.hierarchy.contains C = true) {Ts : List Ty}
    (hTs : ∀ T ∈ Ts, Γ.hierarchy.Declares T) : Γ.hierarchy.Declares (Γ.joinTy C Ts) := by
  unfold joinTy
  cases Ts with
  | nil => exact top_declares Γ
  | cons T rest =>
    obtain ⟨j, hj, hmem, _⟩ := hΓ.rooted.isJoin_joinAll?
      (fun U hU => (hTs U hU).contains_within hC) (List.cons_ne_nil T rest)
    rw [hj]
    exact hmem

theorem armTys_declares (hΓ : Γ.Regular) (henv : env.Declared Γ.hierarchy) {arms : List Arm}
    (h : ∀ arm ∈ arms, ∀ env : Env, env.Declared Γ.hierarchy →
      Γ.hierarchy.Declares (Γ.infer C env arm.body)) :
    ∀ T ∈ Γ.armTys C env arms, Γ.hierarchy.Declares T := by
  induction arms with
  | nil => exact fun _ hT => absurd hT List.not_mem_nil
  | cons arm rest ih =>
    obtain ⟨n, tn, e, s⟩ := arm
    rw [armTys, List.forall_mem_cons]
    exact ⟨h _ List.mem_cons_self _ (bound_declared henv (hΓ.armTy_declares tn)),
      ih fun arm harm => h arm (List.mem_cons_of_mem _ harm)⟩

/-- The type of an expression is declared, even if there is something to report in it. -/
theorem infer_declares (hΓ : Γ.Regular) (hC : Γ.Checkable C) (henv : env.Declared Γ.hierarchy)
    (e : Expr) : Γ.hierarchy.Declares (Γ.infer C env e) := by
  induction e using Expr.induction generalizing env with
  | assign n e s t ih => exact ih henv
  | call r m args s t ihr ihargs =>
    refine hΓ.resultTy_declares ?_ _ m
    cases r with
    | implicit => trivial
    | dynamic o => exact ihr o rfl henv
    | static o n => exact ihr o rfl henv
  | cond a b c s t iha ihb ihc =>
    exact hΓ.rooted.contains_join ((ihb henv).contains_within hC.contains)
      ((ihc henv).contains_within hC.contains)
  | loop a b s t iha ihb => exact top_declares Γ
  | block es s t ih =>
    rw [infer]
    induction es with
    | nil => exact top_declares Γ
    | cons e rest ihes =>
      cases rest with
      | nil => exact ih e List.mem_cons_self henv
      | cons e' rest => exact ihes fun e he => ih e (List.mem_cons_of_mem _ he)
  | letIn b e s t ihi ih => exact ih (bound_declared henv (hΓ.nameTy_declares _))
  | caseOf e arms s t ih iharms =>
    exact hΓ.joinTy_declares hC.contains
      (hΓ.armTys_declares henv fun arm harm env henv => iharms arm harm henv)
  | new n s t => exact (hΓ.nameTy_declares n).contains_within hC.contains
  | binary op a b s t iha ihb => cases op <;> exact hΓ.builtin _
  | unary op a s t ih => cases op <;> exact hΓ.builtin _
  | ident n t =>
    rw [infer, identTy]
    split
    · trivial
    · cases h : Γ.lookup? C env n with
      | none => exact top_declares Γ
      | some T => exact hΓ.lookup_declares hC henv h
  | int v s t | string v s t | bool v s t => exact hΓ.builtin _
  | absent s t => exact top_declares Γ

end Regular

end Setting

end CoolTypes
