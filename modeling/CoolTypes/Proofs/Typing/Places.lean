import CoolTypes.Proofs.Classes.Tables
import CoolTypes.Proofs.Syntax.Visits
import CoolTypes.Proofs.Typing.Declarations

/-!
# Places of reports

Whatever is reported about the signatures or the code of a class has the span of a node of this class, and
it breaks a rule about code, not one about the inheritance relation (`ownTable_at`, `codeReports_at`).
-/

namespace CoolTypes

/-- The span of a node. A receiver has none of its own. -/
def Visit.span? : Visit → Option Span
  | program s | «class» _ s | feature s | method s | «attribute» s | expr _ s | form _ s | int _ s
  | string _ s | formal s | arm s | typeName s | binding s => some s
  | name n => some n.span
  | receiver => none

/-- The rule is about code, and not about the inheritance relation. -/
def Violation.OfCode {ν τ : Type} : Violation ν τ → Prop
  | illegalParent .. | builtinRedefined _ | multipleClassDefinition _ | unresolvedParent ..
  | noMainClass | inheritanceCycle _ => False
  | illegalSelfType place => place ≠ .className
  | undeclaredType _ | undeclaredIdentifier _ | undeclaredMethod .. | mismatchedTypes ..
  | argumentCount .. | duplicateCaseType _ | multipleDefinition .. | invalidOverride ..
  | illegalSelf => True

/-- A report about code at the place of one of some nodes. -/
structure TypeError.At (nodes : List Visit) (r : Report) : Prop where
  ofCode : r.violation.OfCode
  place : ∃ v ∈ nodes, v.span? = some r.span

/-- All reports are about code at places of some nodes. -/
def ReportsAt (nodes : List Visit) (rs : List Report) : Prop := ∀ r ∈ rs, r.At nodes

namespace ReportsAt

variable {nodes : List Visit} {rs rs' : List Report}

theorem nil : ReportsAt nodes [] := List.forall_mem_nil _

theorem append (h : ReportsAt nodes rs) (h' : ReportsAt nodes rs') : ReportsAt nodes (rs ++ rs') :=
  List.forall_mem_append.mpr ⟨h, h'⟩

theorem flatMap {α : Type} {f : α → List Report} {l : List α} (h : ∀ a ∈ l, ReportsAt nodes (f a)) :
    ReportsAt nodes (l.flatMap f) :=
  List.forall_mem_flatMap.mpr h

theorem one {v : Violation Symbol Ty} {node : Visit} {span : Span} (hnode : node ∈ nodes)
    (hspan : node.span? = some span) (hv : v.OfCode) : ReportsAt nodes [v.place span] := by
  refine List.forall_mem_singleton.mpr ?_
  have hplace : v.place span = ⟨v, span⟩ := by
    cases v <;> first | rfl | exact hv.elim
  rw [hplace]
  exact ⟨hv, node, hnode, hspan⟩

theorem atName {v : Violation Symbol Ty} {n : Name} (hn : .name n ∈ nodes) (hv : v.OfCode) :
    ReportsAt nodes [v.place n.span] :=
  one hn rfl hv

end ReportsAt

/-- An expression has its span. -/
theorem Expr.exists_visit_span (e : Expr) : ∃ v ∈ e.visits, v.span? = some e.span := by
  cases e with
  | letIn b =>
    rw [visits_letIn]
    exact ⟨_, List.mem_cons_self, rfl⟩
  | _ =>
    unfold visits
    exact ⟨_, List.mem_cons_self, rfl⟩

theorem Class.visits_of_mem_features {c : Class} {f : Feature} (h : f ∈ c.features) :
    f.visits ⊆ c.visits :=
  fun _ hv => List.mem_append_right _ (List.mem_flatMap.mpr ⟨f, h, hv⟩)

namespace Setting

variable (Γ : Setting) (C : Symbol) (env : Env) {nodes : List Visit}

/-! ## Names and expectations -/

theorem expectReports_at {e : Expr} (he : e.visits ⊆ nodes) (T : Ty) :
    ReportsAt nodes (Γ.expectReports C env e T) := by
  obtain ⟨v, hv, hspan⟩ := e.exists_visit_span
  unfold expectReports conformReports
  split
  · exact .nil
  · exact .one (he hv) hspan trivial

theorem typeReports_at {n : Name} (hn : .name n ∈ nodes) : ReportsAt nodes (Γ.typeReports n) := by
  unfold typeReports
  split
  · exact .nil
  · exact .atName hn trivial

theorem classReports_at {n : Name} (hn : .name n ∈ nodes) {place : SelfTypePlace}
    (hplace : place ≠ .className) : ReportsAt nodes (Γ.classReports n place) := by
  unfold classReports
  split
  · exact .nil
  · exact .atName hn hplace
  · exact .atName hn trivial

theorem bindReports_at {n : Name} (hn : .name n ∈ nodes) : ReportsAt nodes (Γ.bindReports n) := by
  unfold bindReports
  split
  · exact .atName hn trivial
  · exact .nil

theorem identReports_at {n : Name} (hn : .name n ∈ nodes) :
    ReportsAt nodes (Γ.identReports C env n) := by
  unfold identReports
  split
  · exact .nil
  · split
    · exact .nil
    · exact .atName hn trivial

theorem assignReports_at {n : Name} (hn : .name n ∈ nodes) {e : Expr} (he : e.visits ⊆ nodes) :
    ReportsAt nodes (Γ.assignReports C env n e) := by
  unfold assignReports
  split
  · exact .atName hn trivial
  · split
    · exact Γ.expectReports_at C env he _
    · exact .atName hn trivial

/-! ## Operands and calls -/

theorem comparableReports_at {a b : Expr} (ha : a.visits ⊆ nodes) (hb : b.visits ⊆ nodes) :
    ReportsAt nodes (Γ.comparableReports C env a b) := by
  obtain ⟨v, hv, hspan⟩ := a.exists_visit_span
  obtain ⟨w, hw, hspan'⟩ := b.exists_visit_span
  unfold comparableReports
  dsimp only
  split
  · split
    · exact .one (hb hw) hspan' trivial
    · exact .one (ha hv) hspan trivial
  · exact .nil

theorem binaryReports_at (op : BinaryOp) {a b : Expr} (ha : a.visits ⊆ nodes)
    (hb : b.visits ⊆ nodes) : ReportsAt nodes (Γ.binaryReports C env op a b) := by
  cases op with
  | equals => exact Γ.comparableReports_at C env ha hb
  | add | subtract | multiply | divide | lessThan | lessEquals =>
    exact (Γ.expectReports_at C env ha _).append (Γ.expectReports_at C env hb _)

theorem unaryReports_at (op : UnaryOp) {a : Expr} (ha : a.visits ⊆ nodes) :
    ReportsAt nodes (Γ.unaryReports C env op a) := by
  cases op with
  | isVoid => exact .nil
  | complement | not => exact Γ.expectReports_at C env ha _

theorem argumentReports_at {es : List Expr} (hes : es.flatMap Expr.visits ⊆ nodes) (Ts : List Ty) :
    ReportsAt nodes (Γ.argumentReports C env es Ts) := by
  induction es generalizing Ts with
  | nil => exact .nil
  | cons e rest ih =>
    cases Ts with
    | nil => exact .nil
    | cons T Ts =>
      rw [List.flatMap_cons, List.append_subset] at hes
      exact (Γ.expectReports_at C env hes.1 T).append (ih hes.2 Ts)

theorem targetReports_at {r : Receiver} (hr : r.visits ⊆ nodes) :
    ReportsAt nodes (Γ.targetReports C env r) := by
  cases r with
  | implicit | dynamic o => exact .nil
  | static o n =>
    rw [Receiver.visits, List.append_subset] at hr
    have hn : .name n ∈ nodes := hr.2 (by simp [Receiver.typeName?, Name.typeVisits])
    rw [targetReports]
    split
    · exact Γ.expectReports_at C env hr.1 _
    · refine .atName hn ?_
      exact SelfTypePlace.noConfusion
    · exact .atName hn trivial

theorem callReports_at (target : Option Symbol) {m : Name} (hm : .name m ∈ nodes)
    {args : List Expr} (hargs : args.flatMap Expr.visits ⊆ nodes) {span : Span} {node : Visit}
    (hnode : node ∈ nodes) (hspan : node.span? = some span) :
    ReportsAt nodes (Γ.callReports C env target m args span) := by
  unfold callReports
  split
  · exact .nil
  · split
    · exact .atName hm trivial
    · refine .append ?_ (Γ.argumentReports_at C env hargs _)
      split
      · exact .nil
      · exact .one hnode hspan trivial

theorem distinctReports_at (seen : List Symbol) {arms : List Arm}
    (h : arms.flatMap Arm.visits ⊆ nodes) : ReportsAt nodes (Γ.distinctReports seen arms) := by
  induction arms generalizing seen with
  | nil => exact .nil
  | cons arm rest ih =>
    rw [List.flatMap_cons, List.append_subset] at h
    have hn : .name arm.typeName ∈ nodes := h.1 (by simp [Arm.visits, Name.typeVisits])
    unfold distinctReports
    split
    · refine .append ?_ (ih _ h.2)
      split
      · exact .atName hn trivial
      · exact .nil
    · exact ih _ h.2

/-! ## Expressions -/

theorem reportsAll_at {es : List Expr} (hes : es.flatMap Expr.visits ⊆ nodes)
    (h : ∀ e ∈ es, e.visits ⊆ nodes → ReportsAt nodes (Γ.reports C env e)) :
    ReportsAt nodes (Γ.reportsAll C env es) := by
  induction es with
  | nil => exact .nil
  | cons e rest ih =>
    rw [List.flatMap_cons, List.append_subset] at hes
    rw [List.forall_mem_cons] at h
    exact (h.1 hes.1).append (ih hes.2 h.2)

theorem armReports_at {arms : List Arm} (harms : arms.flatMap Arm.visits ⊆ nodes)
    (h : ∀ arm ∈ arms, ∀ env, arm.body.visits ⊆ nodes → ReportsAt nodes (Γ.reports C env arm.body)) :
    ReportsAt nodes (Γ.armReports C env arms) := by
  induction arms with
  | nil => exact .nil
  | cons arm rest ih =>
    obtain ⟨n, tn, e, s⟩ := arm
    rw [List.flatMap_cons, List.append_subset] at harms
    rw [List.forall_mem_cons] at h
    obtain ⟨harm, hrest⟩ := harms
    simp only [Arm.visits, Name.typeVisits, List.cons_append, List.nil_append, List.cons_subset] at harm
    obtain ⟨-, hn, -, htn, hbody⟩ := harm
    rw [armReports]
    exact (((Γ.classReports_at htn SelfTypePlace.noConfusion).append (Γ.bindReports_at hn)).append
      (h.1 _ hbody)).append (ih hrest h.2)

theorem initReports_at (T : Ty) {init : Option Expr} (hinit : (init.map Expr.visits).getD [] ⊆ nodes)
    (h : ∀ i ∈ init, i.visits ⊆ nodes → ReportsAt nodes (Γ.reports C env i)) :
    ReportsAt nodes (Γ.initReports C env T init) := by
  cases init with
  | none => exact .nil
  | some i => exact (h i rfl hinit).append (Γ.expectReports_at C env hinit T)

/-- Reports in an expression are about its nodes. -/
theorem reports_at {e : Expr} (h : e.visits ⊆ nodes) : ReportsAt nodes (Γ.reports C env e) := by
  induction e using Expr.induction generalizing env with
  | assign n e s t ih =>
    simp only [Expr.visits, List.cons_subset] at h
    obtain ⟨-, -, hn, he⟩ := h
    rw [reports]
    exact (ih env he).append (Γ.assignReports_at C env hn he)
  | call r m args s t iho ihargs =>
    simp only [Expr.visits_call, List.cons_append, List.cons_subset, List.append_subset] at h
    obtain ⟨-, hform, -, hr, hm, hargs⟩ := h
    have hobject : ReportsAt nodes (Γ.receiverReports C env r) := by
      cases r with
      | implicit => exact .nil
      | dynamic o | static o n => exact iho o rfl env (List.append_subset.mp hr).1
    rw [reports]
    exact ((hobject.append (Γ.targetReports_at C env hr)).append
      (Γ.reportsAll_at C env hargs fun e he => ihargs e he env)).append
        (Γ.callReports_at C env _ hm hargs hform rfl)
  | cond a b c s t iha ihb ihc =>
    simp only [Expr.visits, List.cons_append, List.cons_subset, List.append_subset] at h
    obtain ⟨-, -, ⟨ha, hb⟩, hc⟩ := h
    rw [reports]
    exact (((iha env ha).append (ihb env hb)).append (ihc env hc)).append
      (Γ.expectReports_at C env ha _)
  | loop a b s t iha ihb =>
    simp only [Expr.visits, List.cons_append, List.cons_subset, List.append_subset] at h
    obtain ⟨-, -, ha, hb⟩ := h
    rw [reports]
    exact ((iha env ha).append (ihb env hb)).append (Γ.expectReports_at C env ha _)
  | block es s t ih =>
    simp only [Expr.visits, Expr.visitsAll_eq, List.cons_subset] at h
    obtain ⟨-, -, hes⟩ := h
    rw [reports]
    exact Γ.reportsAll_at C env hes fun e he => ih e he env
  | letIn b e s t ihi ih =>
    obtain ⟨n, tn, init, bs⟩ := b
    simp only [Expr.visits_letIn, Binding.visits, Name.typeVisits, List.cons_append, List.nil_append,
      List.cons_subset, List.append_subset] at h
    obtain ⟨-, -, -, hn, -, htn, hinit, he⟩ := h
    rw [reports]
    exact (((Γ.typeReports_at htn).append
      (Γ.initReports_at C env _ hinit fun i hi => ihi i hi env)).append
        (Γ.bindReports_at hn)).append (ih _ he)
  | caseOf e arms s t ih iharms =>
    simp only [Expr.visits, Expr.visitsArms_eq, List.cons_append, List.cons_subset,
      List.append_subset] at h
    obtain ⟨-, -, he, harms⟩ := h
    rw [reports]
    exact ((ih env he).append (Γ.distinctReports_at _ harms)).append (Γ.armReports_at C env harms iharms)
  | new n s t =>
    simp only [Expr.visits, Name.typeVisits, List.cons_subset] at h
    rw [reports]
    exact Γ.typeReports_at h.2.2.2.1
  | binary op a b s t iha ihb =>
    simp only [Expr.visits, List.cons_append, List.cons_subset, List.append_subset] at h
    obtain ⟨-, -, ha, hb⟩ := h
    rw [reports]
    exact ((iha env ha).append (ihb env hb)).append (Γ.binaryReports_at C env op ha hb)
  | unary op a s t ih =>
    simp only [Expr.visits, List.cons_subset] at h
    obtain ⟨-, -, ha⟩ := h
    rw [reports]
    exact (ih env ha).append (Γ.unaryReports_at C env op ha)
  | ident n t =>
    simp only [Expr.visits, List.cons_subset] at h
    rw [reports]
    exact Γ.identReports_at C env h.2.2.1
  | int | string | bool | absent => exact .nil

/-! ## Classes -/

theorem paramReports_at (scope : SymbolMap Ty) {params : List Formal}
    (h : params.flatMap Formal.visits ⊆ nodes) : ReportsAt nodes (Γ.paramReports scope params) := by
  induction params generalizing scope with
  | nil => exact .nil
  | cons f rest ih =>
    rw [List.flatMap_cons, List.append_subset] at h
    have hn : .name f.name ∈ nodes := h.1 (by simp [Formal.visits])
    rw [paramReports]
    refine .append ?_ (ih _ h.2)
    unfold formalReports
    split
    · exact .atName hn trivial
    · split
      · exact .atName hn trivial
      · exact .nil

theorem featureReports_at {f : Feature} (h : f.visits ⊆ nodes) :
    ReportsAt nodes (Γ.featureReports C env f) := by
  cases f with
  | method m =>
    simp only [Feature.visits, List.cons_append, List.cons_subset, List.append_subset] at h
    obtain ⟨-, -, -, ⟨hparams, -⟩, hbody⟩ := h
    refine ((Γ.paramReports_at .empty hparams).append (Γ.reports_at C _ hbody)).append ?_
    unfold returnReports
    split
    · exact .nil
    · exact Γ.expectReports_at C _ hbody _
  | attr b =>
    simp only [Feature.visits, Binding.visits, List.cons_append, List.cons_subset,
      List.append_subset] at h
    obtain ⟨-, -, -, -, -, hinit⟩ := h
    exact Γ.initReports_at C env _ hinit fun i _ => Γ.reports_at C env

/-- Reports in the code of a class are about its nodes. -/
theorem codeReports_at (c : Class) : ReportsAt c.visits (Γ.codeReports env c) := by
  unfold codeReports
  split
  · exact .flatMap fun f hf => Γ.featureReports_at _ env (Class.visits_of_mem_features hf)
  · exact .nil

end Setting

/-! ## Signatures -/

namespace Signatures

variable (Γ : Ground) {nodes : List Visit}

theorem declaredType_at {n : Name} (hn : .name n ∈ nodes) : ReportsAt nodes (declaredType Γ n).2 := by
  unfold declaredType
  split
  · exact .nil
  · split
    · exact .nil
    · exact .atName hn trivial

theorem paramType_at {n : Name} (hn : .name n ∈ nodes) : ReportsAt nodes (paramType Γ n).2 := by
  have hdeclared := declaredType_at Γ hn
  unfold paramType
  split
  · next rs heq =>
    rw [heq] at hdeclared
    exact hdeclared.append (.atName hn SelfTypePlace.noConfusion)
  · next rs heq =>
    rw [heq] at hdeclared
    exact hdeclared

theorem attrType_at (basic : Bool) {n : Name} (hn : .name n ∈ nodes) :
    ReportsAt nodes (attrType Γ basic n).2 := by
  unfold attrType
  split
  · exact .nil
  · exact declaredType_at Γ hn

theorem methodSig_at (c : Symbol) {m : Method} (hm : (Feature.method m).visits ⊆ nodes) :
    ReportsAt nodes (methodSig Γ c m).2 := by
  simp only [methodSig, List.flatMap_map]
  refine .append (.flatMap fun f hf => paramType_at Γ (hm ?_)) (declaredType_at Γ (hm ?_))
  · simp only [Feature.visits, List.cons_append, List.mem_cons, List.mem_append, List.mem_flatMap]
    exact .inr (.inr (.inr (.inl (.inl ⟨f, hf, by simp [Formal.visits, Name.typeVisits]⟩))))
  · simp [Feature.visits, Name.typeVisits]

theorem addAttr_at (c : Symbol) (basic : Bool) {acc : Collected} (hacc : ReportsAt nodes acc.2)
    {b : Binding} (hb : (Feature.attr b).visits ⊆ nodes) :
    ReportsAt nodes (addAttr Γ c basic acc b).2 := by
  have htn : .name b.typeName ∈ nodes := hb (by simp [Feature.visits, Binding.visits, Name.typeVisits])
  have hn : .name b.name ∈ nodes := hb (by simp [Feature.visits, Binding.visits])
  have hlog := hacc.append (attrType_at Γ basic htn)
  unfold addAttr
  dsimp only
  split
  · exact hlog.append (.atName hn trivial)
  · split
    · exact hlog.append (.atName hn trivial)
    · exact hlog

theorem addMethod_at (c : Symbol) {acc : Collected} (hacc : ReportsAt nodes acc.2) {m : Method}
    (hm : (Feature.method m).visits ⊆ nodes) : ReportsAt nodes (addMethod Γ c acc m).2 := by
  have hn : .name m.name ∈ nodes := hm (by simp [Feature.visits])
  have hlog := hacc.append (methodSig_at Γ c hm)
  unfold addMethod
  dsimp only
  split
  · exact hlog
  · split
    · exact hlog.append (.atName hn trivial)
    · split
      · exact hlog
      · exact hlog.append (.atName hn trivial)

/-- Reports about the signatures of a class are about its nodes. -/
theorem ownTable_at (c : Class) (start : ClassTable) : ReportsAt c.visits (ownTable Γ c start).2 := by
  have hattrs := List.foldlRecOn (motive := fun acc : Collected => ReportsAt c.visits acc.2)
    c.attributes (addAttr Γ c.name.symbol (c.file == Γ.tables.known .basicFile)) (b := (start, []))
    .nil fun acc hacc b hb =>
      addAttr_at Γ _ _ hacc (Class.visits_of_mem_features (Class.feature_of_mem_attributes hb))
  exact List.foldlRecOn (motive := fun acc : Collected => ReportsAt c.visits acc.2) c.methods
    (addMethod Γ c.name.symbol) hattrs
    fun acc hacc m hm =>
      addMethod_at Γ _ hacc (Class.visits_of_mem_features (Class.feature_of_mem_methods hm))

end Signatures

end CoolTypes
