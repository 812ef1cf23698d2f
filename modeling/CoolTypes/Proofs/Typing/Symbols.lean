import CoolTypes.Proofs.Classes.Symbols
import CoolTypes.Proofs.Typing.Within

/-!
# Symbols in the check

Over a setting whose symbols belong to the identifier table, the type that the check finds for a
symbol-valid expression and the reports that it makes in it name symbols of the table only
(`SymbolValid.infer`, `SymbolValid.reports`).
-/

namespace CoolTypes

/-- All types of the environment belong to the identifier table. -/
def Env.SymbolValid (t : SymbolTables) (env : Env) : Prop := ∀ n T, env n = some T → T.SymbolValid t

namespace Setting

/-- All symbols of the setting that the check can come to belong to the identifier table. -/
def SymbolValid (Γ : Setting) : Prop := Γ.Within (Γ.tables.Has .ids)

namespace SymbolValid

variable {Γ : Setting} (hΓ : Γ.SymbolValid) {C : Symbol} (hC : Γ.tables.Has .ids C) {env : Env}
  (henv : env.SymbolValid Γ.tables)

include hΓ hC henv

/-! ## Reports -/

theorem expectReports {e : Expr} (he : e.SymbolValid Γ.tables) {T : Ty}
    (hT : T.SymbolValid Γ.tables) : ReportsValid Γ.tables (Γ.expectReports C env e T) := by
  unfold Setting.expectReports conformReports
  split
  · exact .nil
  · refine .one ?_ _
    exact ⟨hT, hΓ.infer hC henv he.typesIn⟩

omit hΓ hC henv in
theorem typeReports {n : Name} (hn : n.SymbolValid Γ.tables) :
    ReportsValid Γ.tables (Γ.typeReports n) := by
  unfold Setting.typeReports
  split
  · exact .nil
  · refine .one ?_ _
    exact hn

omit hΓ hC henv in
theorem bindReports (n : Name) : ReportsValid Γ.tables (Γ.bindReports n) := by
  unfold Setting.bindReports
  split
  · refine .one ?_ _
    trivial
  · exact .nil

omit hΓ hC henv in
theorem classReports {n : Name} (hn : n.SymbolValid Γ.tables) (place : SelfTypePlace) :
    ReportsValid Γ.tables (Γ.classReports n place) := by
  unfold Setting.classReports
  split
  · exact .nil
  · refine .one ?_ _
    trivial
  · refine .one ?_ _
    exact hn

theorem assignReports {n : Name} (hn : n.SymbolValid Γ.tables) {e : Expr}
    (he : e.SymbolValid Γ.tables) : ReportsValid Γ.tables (Γ.assignReports C env n e) := by
  unfold Setting.assignReports
  split
  · refine .one ?_ _
    trivial
  · cases h : Γ.lookup? C env n with
    | none =>
      refine .one ?_ _
      exact hn
    | some T => exact hΓ.expectReports hC henv he (hΓ.lookup henv h)

theorem comparableReports {a b : Expr} (ha : a.SymbolValid Γ.tables)
    (hb : b.SymbolValid Γ.tables) : ReportsValid Γ.tables (Γ.comparableReports C env a b) := by
  have ha' := hΓ.infer hC henv ha.typesIn
  have hb' := hΓ.infer hC henv hb.typesIn
  unfold Setting.comparableReports
  dsimp only
  split
  · split
    · refine .one ?_ _
      exact ⟨ha', hb'⟩
    · refine .one ?_ _
      exact ⟨hb', ha'⟩
  · exact .nil

theorem binaryReports (op : BinaryOp) {a b : Expr} (ha : a.SymbolValid Γ.tables)
    (hb : b.SymbolValid Γ.tables) : ReportsValid Γ.tables (Γ.binaryReports C env op a b) := by
  have hint := fun {e : Expr} (he : e.SymbolValid Γ.tables) =>
    hΓ.expectReports hC henv he (T := Γ.builtin .int) (hΓ.builtin .int)
  cases op with
  | equals => exact hΓ.comparableReports hC henv ha hb
  | add | subtract | multiply | divide | lessThan | lessEquals => exact (hint ha).append (hint hb)

theorem unaryReports (op : UnaryOp) {a : Expr} (ha : a.SymbolValid Γ.tables) :
    ReportsValid Γ.tables (Γ.unaryReports C env op a) := by
  cases op with
  | isVoid => exact .nil
  | complement | not => exact hΓ.expectReports hC henv ha (hΓ.builtin _)

theorem argumentReports {es : List Expr} (hes : ∀ e ∈ es, e.SymbolValid Γ.tables) {Ts : List Ty}
    (hTs : ∀ T ∈ Ts, T.SymbolValid Γ.tables) :
    ReportsValid Γ.tables (Γ.argumentReports C env es Ts) := by
  induction es generalizing Ts with
  | nil => exact .nil
  | cons e rest ih =>
    cases Ts with
    | nil => exact .nil
    | cons T Ts =>
      rw [List.forall_mem_cons] at hes hTs
      exact (hΓ.expectReports hC henv hes.1 hTs.1).append (ih hes.2 hTs.2)

theorem targetReports {r : Receiver} (ho : ∀ o ∈ r.object?, o.SymbolValid Γ.tables)
    (hn : ∀ n ∈ r.typeName?, n.SymbolValid Γ.tables) :
    ReportsValid Γ.tables (Γ.targetReports C env r) := by
  cases r with
  | implicit | dynamic o => exact .nil
  | static o n =>
    rw [Setting.targetReports]
    split
    · next c hc => exact hΓ.expectReports hC henv (ho o rfl) (Within.resolve (hn n rfl) hc)
    · refine .one ?_ _
      trivial
    · refine .one ?_ _
      exact hn n rfl

theorem callReports {target : Option Symbol} (htarget : ∀ c ∈ target, Γ.tables.Has .ids c)
    {m : Name} (hm : m.SymbolValid Γ.tables) {args : List Expr}
    (hargs : ∀ e ∈ args, e.SymbolValid Γ.tables) (span : Span) :
    ReportsValid Γ.tables (Γ.callReports C env target m args span) := by
  unfold Setting.callReports
  cases target with
  | none => exact .nil
  | some c =>
    dsimp only
    cases hsig : Γ.signatures.method? c m.symbol with
    | none =>
      refine .one ?_ _
      exact ⟨htarget c rfl, hm⟩
    | some sig =>
      refine .append ?_ (hΓ.argumentReports hC henv hargs (hΓ.method c _ sig hsig).params)
      split
      · exact .nil
      · refine .one ?_ _
        trivial

omit hΓ hC henv in
theorem distinctReports (seen : List Symbol) {arms : List Arm}
    (htn : ∀ arm ∈ arms, arm.typeName.SymbolValid Γ.tables) :
    ReportsValid Γ.tables (Γ.distinctReports seen arms) := by
  induction arms generalizing seen with
  | nil => exact .nil
  | cons arm rest ih =>
    rw [List.forall_mem_cons] at htn
    unfold Setting.distinctReports
    cases hc : Γ.classOf? arm.typeName with
    | none => exact ih seen htn.2
    | some c =>
      refine .append ?_ (ih _ htn.2)
      split
      · refine .one ?_ _
        exact Within.classOf htn.1 c hc
      · exact .nil

omit hΓ hC henv in
theorem reportsAll {es : List Expr} (h : ∀ e ∈ es, ReportsValid Γ.tables (Γ.reports C env e)) :
    ReportsValid Γ.tables (Γ.reportsAll C env es) := by
  induction es with
  | nil => exact .nil
  | cons e rest ih =>
    rw [List.forall_mem_cons] at h
    exact h.1.append (ih h.2)

omit hC in
theorem armReports {arms : List Arm} (htn : ∀ arm ∈ arms, arm.typeName.SymbolValid Γ.tables)
    (h : ∀ arm ∈ arms, ∀ env : Env, env.SymbolValid Γ.tables →
      ReportsValid Γ.tables (Γ.reports C env arm.body)) :
    ReportsValid Γ.tables (Γ.armReports C env arms) := by
  induction arms with
  | nil => exact .nil
  | cons arm rest ih =>
    obtain ⟨n, tn, e, s⟩ := arm
    rw [List.forall_mem_cons] at htn h
    have hbody := h.1 _ (Within.bound (Γ := Γ) henv (n := n) (hΓ.armTy htn.1))
    exact (((classReports htn.1 _).append (bindReports n)).append hbody).append (ih htn.2 h.2)

theorem initReports {T : Ty} (hT : T.SymbolValid Γ.tables) {init : Option Expr}
    (hi : ∀ i ∈ init, i.SymbolValid Γ.tables)
    (h : ∀ i ∈ init, ReportsValid Γ.tables (Γ.reports C env i)) :
    ReportsValid Γ.tables (Γ.initReports C env T init) := by
  cases init with
  | none => exact .nil
  | some i => exact (h i rfl).append (hΓ.expectReports hC henv (hi i rfl) hT)

/-- The reports in a symbol-valid expression. -/
theorem reports {e : Expr} (h : e.SymbolValid Γ.tables) :
    ReportsValid Γ.tables (Γ.reports C env e) := by
  induction h generalizing env with
  | assign hn he _ ih => exact (ih henv).append (hΓ.assignReports hC henv hn he)
  | @call r m args s ty ho hn hm hargs _ iho ihargs =>
    rw [Setting.reports]
    have hobject : ReportsValid Γ.tables (Γ.receiverReports C env r) := by
      cases r with
      | implicit => exact .nil
      | dynamic o | static o n => exact iho o rfl henv
    have htarget := Within.target (Γ := Γ) hC (hΓ.receiverTy hC henv fun o h => (ho o h).typesIn) hn
    exact ((hobject.append (hΓ.targetReports hC henv ho hn)).append
      (reportsAll fun e he => ihargs e he henv)).append (hΓ.callReports hC henv htarget hm hargs s)
  | cond ha _ _ _ iha ihb ihc =>
    exact (((iha henv).append (ihb henv)).append (ihc henv)).append
      (hΓ.expectReports hC henv ha (hΓ.builtin _))
  | loop ha _ _ iha ihb =>
    exact ((iha henv).append (ihb henv)).append (hΓ.expectReports hC henv ha (hΓ.builtin _))
  | block _ _ ih => exact reportsAll fun e he => ih e he henv
  | @letIn b e s ty hn htn hi _ _ ihi ih =>
    obtain ⟨n, tn, init, bs⟩ := b
    rw [Setting.reports]
    have hT := hΓ.nameTy htn
    exact (((typeReports htn).append
      (hΓ.initReports hC henv hT hi fun i h => ihi i h henv)).append (bindReports n)).append
        (ih (Within.bound henv hT))
  | caseOf _ _ htn _ _ ih iharms =>
    exact ((ih henv).append (distinctReports [] htn)).append
      (hΓ.armReports henv htn fun arm harm env henv => iharms arm harm henv)
  | new hn _ => exact typeReports hn
  | binary ha hb _ iha ihb =>
    exact ((iha henv).append (ihb henv)).append (hΓ.binaryReports hC henv _ ha hb)
  | unary ha _ ih => exact (ih henv).append (hΓ.unaryReports hC henv _ ha)
  | ident hn _ =>
    rw [Setting.reports, identReports]
    split
    · exact .nil
    · split
      · exact .nil
      · refine .one ?_ _
        exact hn
  | int | string | bool | absent => exact .nil

end SymbolValid

end Setting

end CoolTypes
