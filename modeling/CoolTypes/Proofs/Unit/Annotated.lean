import CoolTypes.Proofs.Typing.Within
import CoolTypes.Proofs.Unit.Bounds

/-!
# Bounds of checked programs

The static types that the check writes name classes that are written in the program or built in, so a
program whose numbers are within bounds stays so (`fits_annotateProgram`).
-/

namespace CoolTypes

/-! ## Type names -/

/-- The type names of an expression within the bounds are within them. -/
theorem Expr.Fits.typesIn {e : Expr} (h : e.Fits) : e.TypesIn Symbol.Fits := by
  induction h with
  | assign _ _ _ _ ih => exact .assign ih
  | call _ hn _ _ _ _ iho ihargs => exact .call iho (fun n h => (hn n h).symbol) ihargs
  | cond _ _ _ _ _ iha ihb ihc => exact .cond iha ihb ihc
  | loop _ _ _ _ iha ihb => exact .loop iha ihb
  | block _ _ _ ih => exact .block ih
  | letIn _ htn _ _ _ _ _ ihi ih => exact .letIn htn.symbol ihi ih
  | caseOf _ _ htn _ _ _ _ ih iharms => exact .caseOf ih (fun arm h => (htn arm h).symbol) iharms
  | new hn _ _ => exact .new hn.symbol
  | binary _ _ _ _ iha ihb => exact .binary iha ihb
  | unary _ _ _ ih => exact .unary ih
  | ident => exact .ident
  | int => exact .int
  | string => exact .string
  | bool => exact .bool
  | absent => exact .absent

theorem Class.Fits.typesIn {c : Class} (h : c.Fits) : c.TypesIn Symbol.Fits := by
  refine ⟨h.name.symbol, h.parent.symbol, fun f hf => ?_⟩
  have hfits := h.features f hf
  cases f with
  | method m =>
    have hm : m.Fits := hfits
    exact ⟨fun f hf => (hm.params f hf).typeName.symbol, hm.returnType.symbol, hm.body.typesIn⟩
  | attr b =>
    have hb : b.Fits := hfits
    exact ⟨hb.typeName.symbol, fun i hi => (hb.init i hi).typesIn⟩

/-! ## Static types -/

namespace Setting.Within

variable {Γ : Setting} (hΓ : Γ.Within Symbol.Fits) {C : Symbol} (hC : C.Fits) {env : Env}
  (henv : env.In Symbol.Fits)

include hΓ hC henv

omit hC in
theorem fits_annotateArms {arms : List Arm} (hn : ∀ arm ∈ arms, arm.name.Fits)
    (htn : ∀ arm ∈ arms, arm.typeName.Fits) (hs : ∀ arm ∈ arms, arm.span.Fits)
    (h : ∀ arm ∈ arms, ∀ env : Env, env.In Symbol.Fits → (Γ.annotate C env arm.body).Fits) :
    ∀ arm ∈ Γ.annotateArms C env arms, arm.name.Fits ∧ arm.typeName.Fits ∧ arm.body.Fits ∧
      arm.span.Fits := by
  induction arms with
  | nil => exact List.forall_mem_nil _
  | cons arm rest ih =>
    obtain ⟨n, tn, e, s⟩ := arm
    rw [List.forall_mem_cons] at hn htn hs h
    rw [annotateArms, List.forall_mem_cons]
    have hbody := h.1 _ (bound (Γ := Γ) henv (n := n) (hΓ.armTy htn.1.symbol))
    exact ⟨⟨hn.1, htn.1, hbody, hs.1⟩, ih hn.2 htn.2 hs.2 h.2⟩

/-- The type that the check writes on an expression. -/
theorem fits_written {e : Expr} (h : e.Fits) : ∀ T ∈ some (Γ.infer C env e), T.Fits := by
  rintro T ⟨⟩
  exact hΓ.infer hC henv h.typesIn

theorem fits_annotate {e : Expr} (h : e.Fits) : (Γ.annotate C env e).Fits := by
  induction h generalizing env with
  | assign hn he hs hty ih =>
    exact .assign hn (ih henv) hs (hΓ.fits_written hC henv (.assign hn he hs hty))
  | @call r m args s ty ho hn hm hargs hs hty iho ihargs =>
    rw [annotate, annotateAll_eq]
    refine .call ?_ ?_ hm ?_ hs (hΓ.fits_written hC henv (.call ho hn hm hargs hs hty))
    · cases r with
      | implicit => simp [annotateReceiver, Receiver.object?]
      | dynamic o | static o n => simpa [annotateReceiver, Receiver.object?] using iho o rfl henv
    · cases r with
      | implicit | dynamic o => simp [annotateReceiver, Receiver.typeName?]
      | static o n => simpa [annotateReceiver, Receiver.typeName?] using hn n rfl
    · exact List.forall_mem_map.mpr fun e he => ihargs e he henv
  | cond ha hb hc hs hty iha ihb ihc =>
    exact .cond (iha henv) (ihb henv) (ihc henv) hs
      (hΓ.fits_written hC henv (.cond ha hb hc hs hty))
  | loop ha hb hs hty iha ihb =>
    exact .loop (iha henv) (ihb henv) hs (hΓ.fits_written hC henv (.loop ha hb hs hty))
  | block hes hs hty ih =>
    rw [annotate, annotateAll_eq]
    refine .block ?_ hs (hΓ.fits_written hC henv (.block hes hs hty))
    exact List.forall_mem_map.mpr fun e he => ih e he henv
  | @letIn b e s ty hn htn hi hbs he hs hty ihi ih =>
    obtain ⟨n, tn, init, bs⟩ := b
    have hbody := ih (bound (Γ := Γ) henv (n := n) (hΓ.nameTy htn.symbol))
    rw [annotate]
    refine .letIn hn htn ?_ hbs hbody hs (hΓ.fits_written hC henv (.letIn hn htn hi hbs he hs hty))
    cases init with
    | none => simp [annotateInit]
    | some i => simpa [annotateInit] using ihi i rfl henv
  | caseOf he hn htn hbody hspans hs hty ih iharms =>
    have harms := hΓ.fits_annotateArms henv hn htn hspans fun arm harm env henv => iharms arm harm henv
    exact .caseOf (ih henv) (fun arm h => (harms arm h).1) (fun arm h => (harms arm h).2.1)
      (fun arm h => (harms arm h).2.2.1) (fun arm h => (harms arm h).2.2.2) hs
      (hΓ.fits_written hC henv (.caseOf he hn htn hbody hspans hs hty))
  | new hn hs hty => exact .new hn hs (hΓ.fits_written hC henv (.new hn hs hty))
  | binary ha hb hs hty iha ihb =>
    exact .binary (iha henv) (ihb henv) hs (hΓ.fits_written hC henv (.binary ha hb hs hty))
  | unary ha hs hty ih => exact .unary (ih henv) hs (hΓ.fits_written hC henv (.unary ha hs hty))
  | ident hn hty => exact .ident hn (hΓ.fits_written hC henv (.ident hn hty))
  | int hv hs hty => exact .int hv hs (hΓ.fits_written hC henv (.int hv hs hty))
  | string hv hs hty => exact .string hv hs (hΓ.fits_written hC henv (.string hv hs hty))
  | bool hs hty => exact .bool hs (hΓ.fits_written hC henv (.bool hs hty))
  | absent hs hty => exact .absent hs (hΓ.fits_written hC henv (.absent hs hty))

theorem fits_annotateFeature {f : Feature} (h : f.Fits) : (Γ.annotateFeature C env f).Fits := by
  cases f with
  | method m =>
    have h : m.Fits := h
    have hbody := hΓ.methodEnv henv fun f hf => (h.params f hf).typeName.symbol
    exact ⟨h.name, h.params, h.returnType, hΓ.fits_annotate hC hbody h.body, h.span⟩
  | attr b =>
    obtain ⟨n, tn, init, s⟩ := b
    have h : Binding.Fits ⟨n, tn, init, s⟩ := h
    refine ⟨h.name, h.typeName, ?_, h.span⟩
    cases init with
    | none => simp [annotateAttr, annotateInit]
    | some i => simpa [annotateAttr, annotateInit] using hΓ.fits_annotate hC henv (h.init i rfl)

omit hC in
theorem fits_annotateProgram {p : Program} (h : p.Fits) : (Γ.annotateProgram env p).Fits := by
  refine ⟨List.forall_mem_map.mpr fun c hc => ?_, h.span⟩
  have hc := h.classes c hc
  unfold annotateClass
  split
  · refine ⟨hc.name, hc.parent, hc.file, List.forall_mem_map.mpr fun f hf => ?_, hc.span⟩
    exact hΓ.fits_annotateFeature hc.name.symbol henv (hc.features f hf)
  · exact hc

end Setting.Within

end CoolTypes
