import CoolTypes.Proofs.Typing.Symbols

/-!
# Symbols of checked programs

The check of a symbol-valid program leaves it symbol-valid with the types that it writes, and names
symbols of the table only in its reports (`SymbolValid.annotateProgram`, `SymbolValid.programReports`).
-/

namespace CoolTypes

namespace Setting

namespace SymbolValid

variable {Γ : Setting} (hΓ : Γ.SymbolValid) {C : Symbol} (hC : Γ.tables.Has .ids C) {env : Env}
  (henv : env.SymbolValid Γ.tables)

include hΓ hC henv

/-! ## Expressions -/

omit hC in
theorem annotateArms {arms : List Arm} (hn : ∀ arm ∈ arms, arm.name.SymbolValid Γ.tables)
    (htn : ∀ arm ∈ arms, arm.typeName.SymbolValid Γ.tables)
    (h : ∀ arm ∈ arms, ∀ env : Env, env.SymbolValid Γ.tables →
      (Γ.annotate C env arm.body).SymbolValid Γ.tables) :
    ∀ arm ∈ Γ.annotateArms C env arms, arm.SymbolValid Γ.tables := by
  induction arms with
  | nil => exact List.forall_mem_nil _
  | cons arm rest ih =>
    obtain ⟨n, tn, e, s⟩ := arm
    rw [List.forall_mem_cons] at hn htn h
    rw [Setting.annotateArms, List.forall_mem_cons]
    exact ⟨⟨hn.1, htn.1, h.1 _ (Within.bound henv (hΓ.armTy htn.1))⟩, ih hn.2 htn.2 h.2⟩

/-- The type that the check writes on a symbol-valid expression. -/
theorem written {e : Expr} (h : e.SymbolValid Γ.tables) :
    ∀ T ∈ some (Γ.infer C env e), T.SymbolValid Γ.tables := by
  rintro T ⟨⟩
  exact hΓ.infer hC henv h.typesIn

/-- A symbol-valid expression with the types that the check writes on it. -/
theorem annotate {e : Expr} (h : e.SymbolValid Γ.tables) :
    (Γ.annotate C env e).SymbolValid Γ.tables := by
  induction h generalizing env with
  | assign hn he hty ih =>
    exact .assign hn (ih henv) (hΓ.written hC henv (.assign hn he hty))
  | @call r m args s ty ho hn hm hargs hty iho ihargs =>
    rw [Setting.annotate, annotateAll_eq]
    refine .call ?_ ?_ hm ?_ (hΓ.written hC henv (.call ho hn hm hargs hty))
    · cases r with
      | implicit => simp [annotateReceiver, Receiver.object?]
      | dynamic o | static o n => simpa [annotateReceiver, Receiver.object?] using iho o rfl henv
    · cases r with
      | implicit | dynamic o => simp [annotateReceiver, Receiver.typeName?]
      | static o n => simpa [annotateReceiver, Receiver.typeName?] using hn n rfl
    · exact List.forall_mem_map.mpr fun e he => ihargs e he henv
  | cond ha hb hc hty iha ihb ihc =>
    exact .cond (iha henv) (ihb henv) (ihc henv) (hΓ.written hC henv (.cond ha hb hc hty))
  | loop ha hb hty iha ihb =>
    exact .loop (iha henv) (ihb henv) (hΓ.written hC henv (.loop ha hb hty))
  | block hes hty ih =>
    rw [Setting.annotate, annotateAll_eq]
    refine .block ?_ (hΓ.written hC henv (.block hes hty))
    exact List.forall_mem_map.mpr fun e he => ih e he henv
  | @letIn b e s ty hn htn hi he hty ihi ih =>
    obtain ⟨n, tn, init, bs⟩ := b
    have hbody := ih (Within.bound (Γ := Γ) henv (n := n) (hΓ.nameTy htn))
    rw [Setting.annotate]
    refine .letIn hn htn ?_ hbody (hΓ.written hC henv (.letIn hn htn hi he hty))
    cases init with
    | none => simp [annotateInit]
    | some i => simpa [annotateInit] using ihi i rfl henv
  | caseOf he hn htn hbody hty ih iharms =>
    have harms := hΓ.annotateArms henv hn htn fun arm harm env henv => iharms arm harm henv
    exact .caseOf (ih henv) (fun arm h => (harms arm h).name) (fun arm h => (harms arm h).typeName)
      (fun arm h => (harms arm h).body) (hΓ.written hC henv (.caseOf he hn htn hbody hty))
  | new hn hty => exact .new hn (hΓ.written hC henv (.new hn hty))
  | binary ha hb hty iha ihb =>
    exact .binary (iha henv) (ihb henv) (hΓ.written hC henv (.binary ha hb hty))
  | unary ha hty ih => exact .unary (ih henv) (hΓ.written hC henv (.unary ha hty))
  | ident hn hty => exact .ident hn (hΓ.written hC henv (.ident hn hty))
  | int hv hty => exact .int hv (hΓ.written hC henv (.int hv hty))
  | string hv hty => exact .string hv (hΓ.written hC henv (.string hv hty))
  | bool hty => exact .bool (hΓ.written hC henv (.bool hty))
  | absent hty => exact .absent (hΓ.written hC henv (.absent hty))

/-! ## Parameters -/

omit hΓ hC henv in
theorem paramReports (scope : SymbolMap Ty) {params : List Formal}
    (h : ∀ f ∈ params, f.SymbolValid Γ.tables) :
    ReportsValid Γ.tables (Γ.paramReports scope params) := by
  induction params generalizing scope with
  | nil => exact .nil
  | cons f rest ih =>
    rw [List.forall_mem_cons] at h
    refine .append ?_ (ih _ h.2)
    unfold formalReports
    split
    · refine .one ?_ _
      trivial
    · split
      · refine .one ?_ _
        exact h.1.name
      · exact .nil

/-! ## Features -/

theorem annotateFeature {f : Feature} (h : f.SymbolValid Γ.tables) :
    (Γ.annotateFeature C env f).SymbolValid Γ.tables := by
  cases f with
  | method m =>
    have h : m.SymbolValid Γ.tables := h
    have hparams := hΓ.methodEnv henv fun f hf => (h.params f hf).typeName
    exact ⟨h.name, h.params, h.returnType, hΓ.annotate hC hparams h.body⟩
  | attr b =>
    obtain ⟨n, tn, init, s⟩ := b
    have h : Binding.SymbolValid Γ.tables ⟨n, tn, init, s⟩ := h
    refine ⟨h.name, h.typeName, ?_⟩
    cases init with
    | none => simp [annotateAttr, annotateInit]
    | some i => simpa [annotateAttr, annotateInit] using hΓ.annotate hC henv (h.init i rfl)

theorem featureReports {f : Feature} (h : f.SymbolValid Γ.tables) :
    ReportsValid Γ.tables (Γ.featureReports C env f) := by
  cases f with
  | method m =>
    have h : m.SymbolValid Γ.tables := h
    have hbody := hΓ.methodEnv henv fun f hf => (h.params f hf).typeName
    refine ((paramReports _ h.params).append (hΓ.reports hC hbody h.body)).append ?_
    unfold returnReports
    split
    · exact .nil
    · exact hΓ.expectReports hC hbody h.body (hΓ.declaredTy h.returnType)
  | attr b =>
    have h : b.SymbolValid Γ.tables := h
    exact hΓ.initReports hC henv (hΓ.declaredTy h.typeName) h.init
      fun i hi => hΓ.reports hC henv (h.init i hi)

/-! ## Programs -/

omit hC

theorem annotateProgram {p : Program} (h : p.SymbolValid Γ.tables) :
    (Γ.annotateProgram env p).SymbolValid Γ.tables := by
  refine List.forall_mem_map.mpr fun c hc => ?_
  have hc := h c hc
  unfold annotateClass
  split
  · refine ⟨hc.name, hc.parent, hc.file, List.forall_mem_map.mpr fun f hf => ?_⟩
    exact hΓ.annotateFeature hc.name henv (hc.features f hf)
  · exact hc

theorem programReports {p : Program} (h : p.SymbolValid Γ.tables) :
    ReportsValid Γ.tables (Γ.programReports env p) := by
  refine .flatMap fun c hc => ?_
  have hc := h c hc
  unfold codeReports
  split
  · exact .flatMap fun f hf => hΓ.featureReports hc.name henv (hc.features f hf)
  · exact .nil

end SymbolValid

end Setting

end CoolTypes
