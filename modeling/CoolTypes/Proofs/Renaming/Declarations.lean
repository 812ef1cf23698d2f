import CoolTypes.Proofs.Renaming.Typing

/-!
# Corresponding programs after the check

The check writes corresponding types on corresponding programs and makes corresponding reports in them
(`annotateProgram`, `programReports`).
-/

namespace CoolTypes

namespace Setting.Related

variable {R : SymbolRel} {Γ Γ' : Setting} (hΓ : Γ.Related R Γ') {C C' : Symbol} (hC : R.id C C')
  {env env' : Env} (henv : env.Related R env')

include hΓ

/-! ## Expressions -/

section

include henv

theorem annotateArms {arms arms' : List Arm} (harms : List.Forall₂ (Arm.Related R) arms arms')
    (h : ∀ arm ∈ arms, ∀ {env env' : Env} {e'}, env.Related R env' → arm.body.Related R e' →
      (Γ.annotate C env arm.body).Related R (Γ'.annotate C' env' e')) :
    List.Forall₂ (Arm.Related R) (Γ.annotateArms C env arms) (Γ'.annotateArms C' env' arms') := by
  induction harms with
  | nil => exact .nil
  | cons harm _ ih =>
    obtain ⟨hn, htn, he⟩ := harm
    rw [List.forall_mem_cons] at h
    exact .cons (.mk hn htn (h.1 (hΓ.bound henv hn (hΓ.armTy htn)) he)) (ih h.2)

omit hΓ henv in
theorem annotateAll {es es' : List Expr} (hes : List.Forall₂ (fun e e' =>
      (Γ.annotate C env e).Related R (Γ'.annotate C' env' e')) es es') :
    List.Forall₂ (Expr.Related R) (Γ.annotateAll C env es) (Γ'.annotateAll C' env' es') := by
  induction hes with
  | nil => exact .nil
  | cons he _ ih => exact .cons he ih

include hC

/-- The types that the check writes on corresponding expressions. -/
theorem written {e e' : Expr} (h : e.Related R e') :
    Option.Rel (Ty.Related R) (some (Γ.infer C env e)) (some (Γ'.infer C' env' e')) :=
  .some (hΓ.infer hC henv h)

/-- The check writes corresponding types on each node of corresponding expressions. -/
theorem annotate {e e' : Expr} (h : e.Related R e') :
    (Γ.annotate C env e).Related R (Γ'.annotate C' env' e') := by
  induction e using Expr.induction generalizing env env' e' with
  | assign n e s t ih =>
    cases h with
    | assign hn he ht => exact .assign hn (ih henv he) (hΓ.written hC henv (.assign hn he ht))
  | call r m args s t ihr ihargs =>
    cases h with
    | call hr hm hargs ht =>
      have hall := annotateAll (forall₂_of_left hargs fun e he e' h => ihargs e he henv h)
      refine .call ?_ hm hall (hΓ.written hC henv (.call hr hm hargs ht))
      cases hr with
      | implicit => exact .implicit
      | dynamic ho => exact .dynamic (ihr _ rfl henv ho)
      | static ho hn => exact .static (ihr _ rfl henv ho) hn
  | cond a b c s t iha ihb ihc =>
    cases h with
    | cond ha hb hc ht =>
      exact .cond (iha henv ha) (ihb henv hb) (ihc henv hc)
        (hΓ.written hC henv (.cond ha hb hc ht))
  | loop a b s t iha ihb =>
    cases h with
    | loop ha hb ht =>
      exact .loop (iha henv ha) (ihb henv hb) (hΓ.written hC henv (.loop ha hb ht))
  | block es s t ih =>
    cases h with
    | block hes ht =>
      have hall := annotateAll (forall₂_of_left hes fun e he e' h => ih e he henv h)
      exact .block hall (hΓ.written hC henv (.block hes ht))
  | letIn b e s t ihi ih =>
    cases h with
    | letIn hb he ht =>
      obtain ⟨hn, htn, hi⟩ := hb
      refine .letIn (.mk hn htn ?_) (ih (hΓ.bound henv hn (hΓ.nameTy htn)) he)
        (hΓ.written hC henv (.letIn (.mk hn htn hi) he ht))
      cases hi with
      | none => exact .none
      | some hi => exact .some (ihi _ rfl henv hi)
  | caseOf e arms s t ih iharms =>
    cases h with
    | caseOf he harms ht =>
      refine .caseOf (ih henv he) ?_ (hΓ.written hC henv (.caseOf he harms ht))
      exact hΓ.annotateArms henv harms fun arm harm _ _ _ henv he => iharms arm harm henv he
  | new n s t => cases h with | new hn ht => exact .new hn (hΓ.written hC henv (.new hn ht))
  | binary op a b s t iha ihb =>
    cases h with
    | binary ha hb ht =>
      exact .binary (iha henv ha) (ihb henv hb) (hΓ.written hC henv (.binary ha hb ht))
  | unary op a s t ih =>
    cases h with
    | unary ha ht => exact .unary (ih henv ha) (hΓ.written hC henv (.unary ha ht))
  | ident n t => cases h with | ident hn ht => exact .ident hn (hΓ.written hC henv (.ident hn ht))
  | int v s t => cases h with | int hv ht => exact .int hv (hΓ.written hC henv (.int hv ht))
  | string v s t =>
    cases h with
    | string hv ht => exact .string hv (hΓ.written hC henv (.string hv ht))
  | bool v s t => cases h with | bool ht => exact .bool (hΓ.written hC henv (.bool ht))
  | absent s t => cases h with | absent ht => exact .absent (hΓ.written hC henv (.absent ht))

end

/-! ## Parameters -/

section

variable {scope scope' : SymbolMap Ty} (hscope : scope.Related R (Ty.Related R) scope')

include hscope

theorem bindFormal {f f' : Formal} (hf : f.Related R f') :
    (Γ.bindFormal scope f).Related R (Ty.Related R) (Γ'.bindFormal scope' f') := by
  have hseen := isSome_eq_of_rel (hscope.get? hΓ.faithful.biUnique hf.name.symbol)
  have hty := (hΓ.declaredTy hf.typeName).orSelf hΓ.top
  refine rel_ite (or_congr (hΓ.isSelf hf.name) ?_) hscope
    (hscope.insert hΓ.faithful.biUnique hf.name.symbol hty)
  rw [hseen]

theorem formalReports {f f' : Formal} (hf : f.Related R f') :
    ReportsRelated R (Γ.formalReports scope f) (Γ'.formalReports scope' f') := by
  have hseen := isSome_eq_of_rel (hscope.get? hΓ.faithful.biUnique hf.name.symbol)
  refine rel_ite (hΓ.isSelf hf.name) (Violation.Related.illegalSelf.report hf.name.span)
    (rel_ite ?_ ?_ .nil)
  · rw [hseen]
  · exact (Violation.Related.multipleDefinition hf.name.symbol).report hf.name.span

theorem paramReports {params params' : List Formal}
    (h : List.Forall₂ (Formal.Related R) params params') :
    ReportsRelated R (Γ.paramReports scope params) (Γ'.paramReports scope' params') := by
  induction h generalizing scope scope' with
  | nil => exact .nil
  | cons hf _ ih =>
    exact List.rel_append (hΓ.formalReports hscope hf) (ih (hΓ.bindFormal hscope hf))

end

theorem paramScope {params params' : List Formal}
    (h : List.Forall₂ (Formal.Related R) params params') :
    (Γ.paramScope params).Related R (Ty.Related R) (Γ'.paramScope params') :=
  List.rel_foldl (R := Formal.Related R) (P := SymbolMap.Related R (Ty.Related R))
    (fun _ _ hscope _ _ hf => hΓ.bindFormal hscope hf) SymbolMap.related_empty h

/-! ## Features -/

include henv

theorem methodEnv {params params' : List Formal}
    (h : List.Forall₂ (Formal.Related R) params params') :
    (Γ.methodEnv env params).Related R (Γ'.methodEnv env' params') :=
  fun n n' hn => rel_or ((hΓ.paramScope h).get? hΓ.faithful.biUnique hn) (henv n n' hn)

section

variable {f f' : Feature} (hf : f.Related R f')

include hC hf

theorem annotateFeature :
    (Γ.annotateFeature C env f).Related R (Γ'.annotateFeature C' env' f') := by
  cases hf with
  | method hm =>
    have hbody := hΓ.annotate hC (hΓ.methodEnv henv hm.params) hm.body
    exact .method ⟨hm.name, hm.params, hm.returnType, hbody, hm.span⟩
  | attr hb =>
    obtain ⟨hn, htn, hi⟩ := hb
    refine .attr (.mk hn htn ?_)
    cases hi with
    | none => exact .none
    | some hi => exact .some (hΓ.annotate hC henv hi)

theorem featureReports :
    ReportsRelated R (Γ.featureReports C env f) (Γ'.featureReports C' env' f') := by
  cases hf with
  | method hm =>
    have hbody := hΓ.methodEnv henv hm.params
    refine List.rel_append (List.rel_append (hΓ.paramReports SymbolMap.related_empty hm.params)
      (hΓ.reports hC hbody hm.body)) (rel_ite ?_ .nil ?_)
    · rw [hm.body.isAbsent]
    · exact hΓ.expectReports hC hbody hm.body (hΓ.declaredTy hm.returnType)
  | attr hb =>
    obtain ⟨_, htn, hi⟩ := hb
    exact hΓ.initReports hC henv (hΓ.declaredTy htn) hi fun _ _ _ h => hΓ.reports hC henv h

end

/-! ## Programs -/

theorem annotateClass {c c' : Class} (hc : c.Related R c') :
    (Γ.annotateClass env c).Related R (Γ'.annotateClass env' c') := by
  refine rel_ite ?_ ⟨hc.name, hc.parent, hc.file, ?_, hc.span⟩ hc
  · rw [hΓ.signatures.contains hΓ.faithful hc.name.symbol]
  · exact List.rel_map (fun _ _ hf => hΓ.annotateFeature hc.name.symbol henv hf) hc.features

theorem codeReports {c c' : Class} (hc : c.Related R c') :
    ReportsRelated R (Γ.codeReports env c) (Γ'.codeReports env' c') := by
  refine rel_ite ?_ ?_ .nil
  · rw [hΓ.signatures.contains hΓ.faithful hc.name.symbol]
  · exact List.rel_flatMap hc.features fun _ _ hf => hΓ.featureReports hc.name.symbol henv hf

/-- The programs after the check. -/
theorem annotateProgram {p p' : Program} (hp : p.Related R p') :
    (Γ.annotateProgram env p).Related R (Γ'.annotateProgram env' p') :=
  ⟨List.rel_map (fun _ _ hc => hΓ.annotateClass henv hc) hp.classes, hp.span⟩

/-- The reports of the check. -/
theorem programReports {p p' : Program} (hp : p.Related R p') :
    ReportsRelated R (Γ.programReports env p) (Γ'.programReports env' p') :=
  List.rel_flatMap hp.classes fun _ _ hc => hΓ.codeReports henv hc

end Setting.Related

end CoolTypes
