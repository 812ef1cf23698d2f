import CoolTypes.Proofs.Typing.Narrowing
import CoolTypes.Proofs.Typing.Units
import CoolTypes.Syntax.Walk

/-!
# The check of inherited code

In a unit with a valid hierarchy and sound signatures, code in which nothing is reported under a class
needs no check under a descendant (`inherited_code_sound`): nothing would be reported there, and each
type that would be written narrows the one that was.
-/

namespace CoolTypes

/-- The nodes of two annotations of one expression: types narrow, all else is the same. -/
inductive Visit.Narrows (g : InheritanceGraph) : Visit → Visit → Prop
  | expr {T T' s} : g.Narrows T T' → Visit.Narrows g (.expr (some T) s) (.expr (some T') s)
  | other {v} : (∀ t s, v ≠ .expr t s) → Visit.Narrows g v v

theorem narrows_append {g : InheritanceGraph} {l l' m m' : List Visit}
    (hl : List.Forall₂ (Visit.Narrows g) l l') (hm : List.Forall₂ (Visit.Narrows g) m m') :
    List.Forall₂ (Visit.Narrows g) (l ++ m) (l' ++ m') :=
  List.rel_append hl hm

/-- A node with a narrowed type that is not a literal. -/
theorem narrows_form {g : InheritanceGraph} {T T' : Ty} {l l' : List Visit} (f : ExprForm)
    (s : Span) (hT : g.Narrows T T') (hl : List.Forall₂ (Visit.Narrows g) l l') :
    List.Forall₂ (Visit.Narrows g) (.expr (some T) s :: .form f s :: l)
      (.expr (some T') s :: .form f s :: l') :=
  .cons (.expr hT) (.cons (.other (by simp)) hl)

theorem narrows_name {g : InheritanceGraph} {l l' : List Visit} (n : Name)
    (hl : List.Forall₂ (Visit.Narrows g) l l') :
    List.Forall₂ (Visit.Narrows g) (.name n :: l) (.name n :: l') :=
  .cons (.other (by simp)) hl

theorem narrows_typeVisits {g : InheritanceGraph} (n : Name) :
    List.Forall₂ (Visit.Narrows g) n.typeVisits n.typeVisits :=
  .cons (.other (by simp)) (narrows_name n .nil)

namespace Setting

variable {Γ : Setting} {C D : Symbol} {env : Env}

/-- Nothing is reported in the code of the descendant, and the inferred types refine each other. -/
theorem refines_infer (hCD : Γ.Below C D) (henv : env.Declared Γ.hierarchy) {e : Expr}
    (hr : Γ.reports C env e = []) :
    Γ.reports D env e = [] ∧ Γ.Refines (Γ.infer C env e) (Γ.infer D env e) := by
  obtain ⟨T', hT', href⟩ := persists hCD e env henv _
    ((hasType_iff hCD.regular hCD.upper henv).mpr ⟨hr, rfl⟩)
  obtain ⟨hr', rfl⟩ := (hasType_iff hCD.regular hCD.lower henv).mp hT'
  exact ⟨hr', href⟩

/-! ## Annotated nodes -/

/-- The nodes of the two annotated expressions are the same but for narrowed types. -/
def NodesNarrow (Γ : Setting) (C D : Symbol) (e : Expr) : Prop :=
  ∀ env : Env, env.Declared Γ.hierarchy → Γ.reports C env e = [] →
    List.Forall₂ (Visit.Narrows Γ.hierarchy.graph) (Γ.annotate C env e).visits
      (Γ.annotate D env e).visits

theorem nodesNarrow_all (henv : env.Declared Γ.hierarchy) {es : List Expr}
    (h : ∀ e ∈ es, Γ.NodesNarrow C D e) (hr : Γ.reportsAll C env es = []) :
    List.Forall₂ (Visit.Narrows Γ.hierarchy.graph) (Expr.visitsAll (Γ.annotateAll C env es))
      (Expr.visitsAll (Γ.annotateAll D env es)) := by
  induction es with
  | nil => exact .nil
  | cons e rest ih =>
    obtain ⟨he, hrest⟩ := List.append_eq_nil_iff.mp hr
    exact List.rel_append (h e List.mem_cons_self env henv he)
      (ih (fun e he => h e (List.mem_cons_of_mem _ he)) hrest)

theorem nodesNarrow_arms (hΓ : Γ.Regular) (henv : env.Declared Γ.hierarchy) {arms : List Arm}
    (h : ∀ arm ∈ arms, Γ.NodesNarrow C D arm.body) (hr : Γ.armReports C env arms = []) :
    List.Forall₂ (Visit.Narrows Γ.hierarchy.graph) (Expr.visitsArms (Γ.annotateArms C env arms))
      (Expr.visitsArms (Γ.annotateArms D env arms)) := by
  induction arms with
  | nil => exact .nil
  | cons arm rest ih =>
    obtain ⟨n, tn, e, s⟩ := arm
    rw [armReports, List.append_eq_nil_iff, List.append_eq_nil_iff] at hr
    obtain ⟨⟨-, he⟩, hrest⟩ := hr
    have hbody := h _ List.mem_cons_self _
      (Regular.bound_declared henv (hΓ.armTy_declares tn) (n := n)) he
    have htail := ih (fun arm harm => h arm (List.mem_cons_of_mem _ harm)) hrest
    have hhead : List.Forall₂ (Visit.Narrows Γ.hierarchy.graph)
        (.arm s :: .name n :: tn.typeVisits) (.arm s :: .name n :: tn.typeVisits) :=
      .cons (.other (by simp)) (narrows_name n (narrows_typeVisits tn))
    exact narrows_append (narrows_append hhead hbody) htail

theorem nodesNarrow (hCD : Γ.Below C D) (e : Expr) : Γ.NodesNarrow C D e := by
  induction e using Expr.induction with
  | assign n e s t ih =>
    intro env henv hr
    have hty := (refines_infer hCD henv hr).2.narrows
    rw [reports, List.append_eq_nil_iff] at hr
    exact narrows_form .assign s hty (narrows_name n (ih env henv hr.1))
  | call r m args s t ihr ihargs =>
    intro env henv hr
    have hty := (refines_infer hCD henv hr).2.narrows
    rw [reports, List.append_eq_nil_iff, List.append_eq_nil_iff, List.append_eq_nil_iff] at hr
    obtain ⟨⟨⟨hro, -⟩, hrargs⟩, -⟩ := hr
    have hargs := narrows_name m (nodesNarrow_all henv ihargs hrargs)
    have hcall : ∀ {l l'}, List.Forall₂ (Visit.Narrows Γ.hierarchy.graph) l l' →
        List.Forall₂ (Visit.Narrows Γ.hierarchy.graph)
          (.expr (some (Γ.infer C env (.call r m args s t))) s :: .form .call s :: .receiver :: l)
          (.expr (some (Γ.infer D env (.call r m args s t))) s :: .form .call s :: .receiver :: l') :=
      fun hl => narrows_form .call s hty (.cons (.other (by simp)) hl)
    cases r with
    | implicit => exact hcall hargs
    | dynamic o => exact hcall (narrows_append (ihr o rfl env henv hro) hargs)
    | static o n =>
      exact hcall (narrows_append
        (narrows_append (ihr o rfl env henv hro) (narrows_typeVisits n)) hargs)
  | cond a b c s t iha ihb ihc =>
    intro env henv hr
    have hty := (refines_infer hCD henv hr).2.narrows
    rw [reports, List.append_eq_nil_iff, List.append_eq_nil_iff, List.append_eq_nil_iff] at hr
    obtain ⟨⟨⟨hra, hrb⟩, hrc⟩, -⟩ := hr
    exact narrows_append (narrows_append (narrows_form .cond s hty (iha env henv hra))
      (ihb env henv hrb)) (ihc env henv hrc)
  | loop a b s t iha ihb =>
    intro env henv hr
    have hty := (refines_infer hCD henv hr).2.narrows
    rw [reports, List.append_eq_nil_iff, List.append_eq_nil_iff] at hr
    obtain ⟨⟨hra, hrb⟩, -⟩ := hr
    exact narrows_append (narrows_form .loop s hty (iha env henv hra)) (ihb env henv hrb)
  | block es s t ih =>
    intro env henv hr
    have hty := (refines_infer hCD henv hr).2.narrows
    exact narrows_form .block s hty (nodesNarrow_all henv ih hr)
  | letIn b e s t ihi ih =>
    intro env henv hr
    have hty := (refines_infer hCD henv hr).2.narrows
    obtain ⟨n, tn, init, bs⟩ := b
    rw [reports, List.append_eq_nil_iff, List.append_eq_nil_iff, List.append_eq_nil_iff] at hr
    obtain ⟨⟨⟨-, hri⟩, -⟩, hre⟩ := hr
    have hbody := ih _ (Regular.bound_declared henv (hCD.regular.nameTy_declares tn)) hre
    have hhead := narrows_form .letIn s hty (.cons (.other (v := .binding bs) (by simp))
      (narrows_name n (narrows_typeVisits tn)))
    cases init with
    | none => exact narrows_append (narrows_append hhead .nil) hbody
    | some i =>
      rw [initReports, List.append_eq_nil_iff] at hri
      exact narrows_append (narrows_append hhead (ihi i rfl env henv hri.1)) hbody
  | caseOf e arms s t ih iharms =>
    intro env henv hr
    have hty := (refines_infer hCD henv hr).2.narrows
    rw [reports, List.append_eq_nil_iff, List.append_eq_nil_iff] at hr
    obtain ⟨⟨hre, -⟩, hrarms⟩ := hr
    exact narrows_append (narrows_form .caseOf s hty (ih env henv hre))
      (nodesNarrow_arms hCD.regular henv iharms hrarms)
  | new n s t =>
    intro env henv hr
    have hty := (refines_infer hCD henv hr).2.narrows
    exact narrows_form .new s hty (narrows_typeVisits n)
  | binary op a b s t iha ihb =>
    intro env henv hr
    have hty := (refines_infer hCD henv hr).2.narrows
    rw [reports, List.append_eq_nil_iff, List.append_eq_nil_iff] at hr
    obtain ⟨⟨hra, hrb⟩, -⟩ := hr
    exact narrows_append (narrows_form .binary s hty (iha env henv hra)) (ihb env henv hrb)
  | unary op a s t ih =>
    intro env henv hr
    have hty := (refines_infer hCD henv hr).2.narrows
    rw [reports, List.append_eq_nil_iff] at hr
    exact narrows_form .unary s hty (ih env henv hr.1)
  | ident n t =>
    intro env henv hr
    exact narrows_form .ident n.span (refines_infer hCD henv hr).2.narrows (narrows_name n .nil)
  | int v s t | string v s t | bool v s t | absent s t =>
    intro env henv hr
    exact .cons (.expr (refines_infer hCD henv hr).2.narrows) (.cons (.other (by simp)) .nil)

end Setting

theorem WellFormedHierarchy.coherent {t : SymbolTables} {classes : List Class}
    (hw : WellFormedHierarchy t classes)
    (hsilent : (Signatures.collect t (hierarchyOf t classes) classes).2 = []) :
    (settingOf t classes).Coherent where
  attr _ _ _ _ hdc h := Signatures.attr_of_reaches hw hdc h
  method _ _ _ _ hdc h := Signatures.method_of_reaches hw hsilent hdc h

namespace CompilationUnit

variable {u : CompilationUnit}

/-- A class with a descendant whose code can be checked is one itself. -/
theorem Valid.below (hu : u.Valid) (hsilent : u.signatureReports = []) {C D : Symbol}
    (hD : u.setting.Checkable D) (hDC : u.setting.hierarchy.graph.Reaches D C) :
    u.setting.Below C D where
  regular := hu.regular
  coherent := hu.wellFormed.coherent hsilent
  upper :=
    ⟨hu.regular.rooted.contains_of_reaches hD.contains hDC, fun hprim =>
      hD.notPrimitive (hu.regular.final C D hprim hDC ▸ hprim)⟩
  lower := hD
  reaches := hDC

end CompilationUnit

/-- If the check of an expression reports nothing in the code of a class, it reports nothing in the
code of a descendant that is not primitive, under the same scopes. At each node it writes the self type
in both cases, or a class in the first and one that inherits from it in the second. -/
theorem inherited_code_sound (u : CompilationUnit) (hu : u.Valid)
    (hsilent : u.signatureReports = []) {D : Symbol} (hD : u.setting.Checkable D) (s : CheckState)
    (hDC : u.setting.hierarchy.graph.Reaches D s.current)
    (henv : Env.Declared u.setting.hierarchy s.scopes.resolve?) (e e' : Expr)
    (h : StateT.run (u.setting.expr e) s = .ok (e', s)) :
    ∃ e'', StateT.run (u.setting.expr e) { s with current := D } =
        .ok (e'', { s with current := D }) ∧
      List.Forall₂ (Visit.Narrows u.setting.hierarchy.graph) e'.visits e''.visits := by
  have hCD := hu.below hsilent hD hDC
  have hrun := Setting.expr_gives u.setting s.current s.scopes.resolve? e s rfl rfl
  rw [h] at hrun
  injection hrun with hrun
  injection hrun with he hs
  have hr : u.setting.reports s.current s.scopes.resolve? e = [] := by
    have hlog := congrArg CheckState.reports hs
    exact List.self_eq_append_right.mp hlog
  have hrun' := Setting.expr_gives u.setting D s.scopes.resolve? e { s with current := D } rfl rfl
  rw [(Setting.refines_infer hCD henv hr).1, List.append_nil] at hrun'
  exact ⟨_, hrun', he ▸ Setting.nodesNarrow hCD e s.scopes.resolve? henv hr⟩

/-- A unit with a main class and a class that inherits from it. -/
def heirUnit : CompilationUnit where
  tables := .initial
  program := ⟨[⟨BasicClass.name .initial .main, BasicClass.name .initial .object,
      SymbolTables.known .initial .main, [], .synthetic⟩,
    ⟨BasicClass.name .initial .copy, BasicClass.name .initial .main,
      SymbolTables.known .initial .main, [], .synthetic⟩], .synthetic⟩

/-- An object of the class whose code is running. -/
def newSelf : Expr := .new (BasicClass.name .initial .selfType) .synthetic none

theorem heirUnit_valid : heirUnit.Valid where
  ownFiles := by decide
  valid := by decide +kernel

theorem inherited_code_sound_newSelf :
    let s : CheckState := { current := SymbolTables.known .initial .main }
    let D : Symbol := SymbolTables.known .initial .copy
    heirUnit.Valid ∧ heirUnit.signatureReports = [] ∧ heirUnit.setting.Checkable D ∧
      heirUnit.setting.hierarchy.graph.Reaches D s.current ∧
      Env.Declared heirUnit.setting.hierarchy s.scopes.resolve? ∧
      ∃ e' e'', StateT.run (heirUnit.setting.expr newSelf) s = .ok (e', s) ∧
        StateT.run (heirUnit.setting.expr newSelf) { s with current := D } =
          .ok (e'', { s with current := D }) ∧
        List.Forall₂ (Visit.Narrows heirUnit.setting.hierarchy.graph) e'.visits e''.visits := by
  intro s D
  have hsilent : heirUnit.signatureReports = [] := by decide +kernel
  have hD : heirUnit.setting.Checkable D := ⟨by decide +kernel, by decide +kernel⟩
  have hDC : heirUnit.setting.hierarchy.graph.Reaches D s.current :=
    Relation.ReflTransGen.single (by
      show heirUnit.setting.hierarchy.graph.get? D = some s.current
      decide +kernel)
  have henv : Env.Declared heirUnit.setting.hierarchy s.scopes.resolve? :=
    fun n T h => absurd h (by simp [s, Scopes.resolve?, Scopes.toList])
  have hr : heirUnit.setting.reports s.current s.scopes.resolve? newSelf = [] := by decide +kernel
  have hrun := Setting.expr_gives heirUnit.setting s.current s.scopes.resolve? newSelf s rfl rfl
  rw [hr, List.append_nil] at hrun
  obtain ⟨e'', hrun', hnarrows⟩ :=
    inherited_code_sound heirUnit heirUnit_valid hsilent hD s hDC henv newSelf _ hrun
  exact ⟨heirUnit_valid, hsilent, hD, hDC, henv, _, e'', hrun, hrun', hnarrows⟩

end CoolTypes
