import Mathlib.Logic.Basic
import Mathlib.Logic.Relation
import CoolTypes.Proofs.Syntax.Visits

/-!
# Expressions inside of expressions

`Expr.children` lists the expressions that stand directly inside of one, `Expr.Holds` follows it to any
depth, and `Program.Holds` starts from the bodies and initial values of all classes. The expressions that
a walk over a program comes to are these and no other (`Program.expr_mem_visits_iff`).
-/

namespace CoolTypes

namespace Expr

/-- The expressions directly inside of an expression, in source order. -/
def children : Expr → List Expr
  | assign _ e _ _ => [e]
  | call r _ args _ _ => r.object?.toList ++ args
  | cond a b c _ _ => [a, b, c]
  | loop a b _ _ => [a, b]
  | block es _ _ => es
  | letIn b e _ _ => b.init.toList ++ [e]
  | caseOf e arms _ _ => e :: arms.map (·.body)
  | binary _ a b _ _ => [a, b]
  | unary _ a _ _ => [a]
  | new .. | ident .. | int .. | string .. | bool .. | absent .. => []

/-- The second expression is the first one or stands inside of it. -/
def Holds : Expr → Expr → Prop := Relation.ReflTransGen fun e d => d ∈ e.children

/-- Induction with one hypothesis for all children. -/
theorem children_induction {P : Expr → Prop} (step : ∀ e, (∀ d ∈ e.children, P d) → P e) (e : Expr) :
    P e := by
  induction e using Expr.induction with
  | assign n e s t ih => exact step _ (List.forall_mem_singleton.mpr ih)
  | call r m args s t iho ihargs =>
    refine step _ (List.forall_mem_append.mpr ⟨fun o ho => iho o ?_, ihargs⟩)
    simpa using ho
  | cond a b c s t iha ihb ihc => exact step _ (by simpa [children] using ⟨iha, ihb, ihc⟩)
  | loop a b s t iha ihb => exact step _ (by simpa [children] using ⟨iha, ihb⟩)
  | block es s t ih => exact step _ ih
  | letIn b e s t ihi ih =>
    refine step _ (List.forall_mem_append.mpr ⟨fun i hi => ihi i ?_, List.forall_mem_singleton.mpr ih⟩)
    simpa using hi
  | caseOf e arms s t ih iharms =>
    exact step _ (List.forall_mem_cons.mpr ⟨ih, List.forall_mem_map.mpr iharms⟩)
  | binary op a b s t iha ihb => exact step _ (by simpa [children] using ⟨iha, ihb⟩)
  | unary op a s t ih => exact step _ (List.forall_mem_singleton.mpr ih)
  | new | ident | int | string | bool | absent => exact step _ (List.forall_mem_nil _)

/-! ## Walks -/

/-- A walk over an expression comes to itself and then to what it comes to in its children. -/
theorem expr_mem_visits_iff_children {e : Expr} {ty : Option Ty} {s : Span} :
    .expr ty s ∈ e.visits ↔ (ty = e.ty ∧ s = e.span) ∨ ∃ d ∈ e.children, .expr ty s ∈ d.visits := by
  cases e with
  | call r m args sp t =>
    rw [visits_call]
    cases r <;>
      simp [Receiver.visits, Receiver.object?, Receiver.typeName?, Name.typeVisits, children, Expr.ty,
        span, or_and_right, exists_or]
  | letIn b e sp t =>
    rw [visits_letIn]
    cases hb : b.init <;>
      simp [Binding.visits, hb, Name.typeVisits, children, Expr.ty, span]
  | caseOf e arms sp t =>
    simp [visits, visitsArms_eq, Arm.visits, Name.typeVisits, children, Expr.ty, span]
  | block es sp t => simp [visits, visitsAll_eq, children, Expr.ty, span]
  | cond a b c sp t => simp [visits, children, Expr.ty, span]
  | _ => simp [visits, Name.typeVisits, children, Expr.ty, span]

/-- A walk over an expression comes to the expressions that it holds. -/
theorem expr_mem_visits_iff {e : Expr} {ty : Option Ty} {s : Span} :
    .expr ty s ∈ e.visits ↔ ∃ d, e.Holds d ∧ d.ty = ty ∧ d.span = s := by
  constructor
  · intro h
    induction e using children_induction with
    | step e ih =>
      rcases expr_mem_visits_iff_children.mp h with hself | ⟨c, hc, hvisit⟩
      · exact ⟨e, .refl, hself.1.symm, hself.2.symm⟩
      · obtain ⟨d, hd, heq⟩ := ih c hc hvisit
        exact ⟨d, .head hc hd, heq⟩
  · rintro ⟨d, hd, rfl, rfl⟩
    induction hd using Relation.ReflTransGen.head_induction_on with
    | refl => exact expr_mem_visits_iff_children.mpr (.inl ⟨rfl, rfl⟩)
    | head hc _ ih => exact expr_mem_visits_iff_children.mpr (.inr ⟨_, hc, ih⟩)

end Expr

/-! ## Programs -/

/-- The expressions at the top of the code of a feature: a body, or an initial value if there is one. -/
def Feature.code : Feature → List Expr
  | method m => [m.body]
  | attr b => b.init.toList

/-- The expression is code of a class, at the top or inside of other code. -/
def Class.Holds (c : Class) (d : Expr) : Prop := ∃ f ∈ c.features, ∃ e ∈ f.code, e.Holds d

/-- The expression is code of some class of the program. -/
def Program.Holds (p : Program) (d : Expr) : Prop := ∃ c ∈ p.classes, c.Holds d

theorem Feature.expr_mem_visits_iff {f : Feature} {ty : Option Ty} {s : Span} :
    .expr ty s ∈ f.visits ↔ ∃ e ∈ f.code, .expr ty s ∈ e.visits := by
  cases f with
  | method m => simp [visits, code, Formal.visits, Name.typeVisits]
  | attr b => cases hb : b.init <;> simp [visits, code, Binding.visits, Name.typeVisits, hb]

/-- A walk over a program comes to the expressions of its code. -/
theorem Program.expr_mem_visits_iff {p : Program} {ty : Option Ty} {s : Span} :
    .expr ty s ∈ p.visits ↔ ∃ d, p.Holds d ∧ d.ty = ty ∧ d.span = s := by
  have hclass : ∀ c : Class, .expr ty s ∈ c.visits ↔ ∃ f ∈ c.features, .expr ty s ∈ f.visits := by
    intro c
    simp [Class.visits, Name.typeVisits]
  simp only [visits, List.mem_cons, reduceCtorEq, false_or, List.mem_flatMap, hclass,
    Feature.expr_mem_visits_iff, Expr.expr_mem_visits_iff, Holds, Class.Holds]
  constructor
  · rintro ⟨c, hc, f, hf, e, he, d, hd, heq⟩
    exact ⟨d, ⟨c, hc, f, hf, e, he, hd⟩, heq⟩
  · rintro ⟨d, ⟨c, hc, f, hf, e, he, hd⟩, heq⟩
    exact ⟨c, hc, f, hf, e, he, d, hd, heq⟩

end CoolTypes
