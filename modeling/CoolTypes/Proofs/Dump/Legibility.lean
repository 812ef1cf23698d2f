import CoolTypes.Proofs.Dump.Outline
import CoolTypes.Proofs.Syntax.Visits

/-!
# Legible outlines

A program is legible if no printed name or number has a separator in it and no class is printed like the self
type. The rows of its outline can then be told from the text (`Program.rows_unbroken`), and static types from
theirs (`Visit.Clear.ty_eq`).
-/

namespace CoolTypes

/-! ## What an outline prints -/

/-- The static type that a node carries, if it carries one. -/
def Visit.annotation? : Visit → Option Ty
  | .expr ty _ => ty
  | _ => none

/-- The names and numbers that the line of a node shows, its static type included. -/
def Visit.words (t : SymbolTables) : Visit → List String
  | .name n => [t.textOf n.symbol]
  | .int v _ => [t.textIn .ints v]
  | .expr (some (.named c)) _ => [t.textOf c]
  | _ => []

/-- The printed names and numbers can be told apart from what is between them, and no class is printed like
the self type. -/
structure Program.Legible (t : SymbolTables) (p : Program) : Prop where
  words : ∀ v ∈ p.visits, ∀ w ∈ v.words t, Text.Unbroken w
  annotations : ∀ v ∈ p.visits, v.annotation? ≠ some (.named (t.known .selfType))

/-- The symbol of a node has a text, and nothing else is printed like it. -/
structure Visit.Clear (t : SymbolTables) (v : Visit) : Prop where
  valid : v.SymbolValid t
  words : ∀ w ∈ v.words t, Text.Unbroken w
  annotation : v.annotation? ≠ some (.named (t.known .selfType))

namespace Visit.Clear

variable {t : SymbolTables}

theorem ty_unbroken {ty : Option Ty} {s : Span} (h : (Visit.expr ty s).Clear t) :
    ∀ T ∈ ty.map (Ty.textOf t), Text.Unbroken T := by
  intro w hw
  obtain ⟨T, rfl, rfl⟩ := Option.map_eq_some_iff.mp hw
  cases T with
  | named c => exact h.words _ List.mem_cons_self
  | selfType =>
    show Text.Unbroken "SELF_TYPE"
    decide

theorem name_unbroken {n : Name} (h : (Visit.name n).Clear t) : Text.Unbroken (t.textOf n.symbol) :=
  h.words _ List.mem_cons_self

theorem textOf_ne_selfType {c : Symbol} {s : Span} (h : (Visit.expr (some (.named c)) s).Clear t) :
    t.textOf c ≠ "SELF_TYPE" := by
  intro hself
  have hc : t.ids.get? c = some (t.textOf c) := SymbolTables.Has.get?_eq (k := .ids) (h.valid _ rfl)
  have hknown : c = t.known .selfType :=
    Interner.get?_injective (hc.trans (congrArg some hself)) (t.get?_known _)
  exact h.annotation (congrArg (some ∘ Ty.named) hknown)

/-- A static type is told by its text. -/
theorem ty_eq {ty ty' : Option Ty} {s s' : Span} (h : (Visit.expr ty s).Clear t)
    (h' : (Visit.expr ty' s').Clear t) (heq : ty.map (Ty.textOf t) = ty'.map (Ty.textOf t)) :
    ty = ty' := by
  cases ty with
  | none =>
    cases ty' with
    | none => rfl
    | some T' => cases heq
  | some T =>
    cases ty' with
    | none => cases heq
    | some T' =>
      have hT : T.textOf t = T'.textOf t := Option.some.inj heq
      cases T with
      | named c =>
        cases T' with
        | named c' =>
          rw [SymbolTables.Has.eq_of_textIn_eq (k := .ids) (h.valid _ rfl) (h'.valid _ rfl) hT]
        | selfType => exact absurd hT h.textOf_ne_selfType
      | selfType =>
        cases T' with
        | named c' => exact absurd hT.symm h'.textOf_ne_selfType
        | selfType => rfl

end Visit.Clear

section Parts

variable {t : SymbolTables}

theorem Name.clear_of_typeVisits {n : Name} (h : ∀ v ∈ n.typeVisits, v.Clear t) : (Visit.name n).Clear t :=
  h _ (List.mem_cons_of_mem _ List.mem_cons_self)

theorem Receiver.clear_of_visits {r : Receiver} (h : ∀ v ∈ r.visits, v.Clear t) :
    (∀ o ∈ r.object?, ∀ v ∈ o.visits, v.Clear t) ∧ ∀ n ∈ r.typeName?, (Visit.name n).Clear t := by
  rw [visits, List.forall_mem_append] at h
  refine ⟨fun o ho => ?_, fun n hn => Name.clear_of_typeVisits ?_⟩
  · simpa [Option.mem_def.mp ho] using h.1
  · simpa [Option.mem_def.mp hn] using h.2

theorem Binding.clear_of_visits {b : Binding} (h : ∀ v ∈ b.visits, v.Clear t) :
    (Visit.name b.name).Clear t ∧ (Visit.name b.typeName).Clear t ∧
      ∀ i ∈ b.init, ∀ v ∈ i.visits, v.Clear t := by
  simp only [visits, List.cons_append, List.forall_mem_cons, List.forall_mem_append] at h
  obtain ⟨-, hn, htn, hinit⟩ := h
  refine ⟨hn, Name.clear_of_typeVisits htn, fun i hi => ?_⟩
  rwa [Option.mem_def.mp hi] at hinit

theorem Arm.clear_of_visits {a : Arm} (h : ∀ v ∈ a.visits, v.Clear t) :
    (Visit.name a.name).Clear t ∧ (Visit.name a.typeName).Clear t ∧ ∀ v ∈ a.body.visits, v.Clear t := by
  simp only [visits, List.cons_append, List.forall_mem_cons, List.forall_mem_append] at h
  obtain ⟨-, hn, htn, hbody⟩ := h
  exact ⟨hn, Name.clear_of_typeVisits htn, hbody⟩

end Parts

/-! ## Printed words -/

section Words

open Outline

variable {t : SymbolTables}

/-- The rows of a branch tell their words. -/
def Outline.Branch.Unbroken (b : Branch) : Prop := ∀ depth, ∀ r ∈ b.rows depth, r.Unbroken

theorem Outline.Branch.unbroken_rowsAll {bs : List Branch} (h : ∀ b ∈ bs, b.Unbroken) (depth : Nat) :
    ∀ r ∈ rowsAll depth bs, r.Unbroken := by
  induction bs with
  | nil => exact List.forall_mem_nil _
  | cons b rest ih =>
    rw [List.forall_mem_cons] at h
    exact List.forall_mem_append.mpr ⟨h.1 depth, ih h.2⟩

theorem Outline.Branch.Unbroken.node {l : Label} {ty : Option String} {children : List Branch}
    (hl : l.detail.Unbroken) (hty : ∀ T ∈ ty, Text.Unbroken T) (h : ∀ b ∈ children, b.Unbroken) :
    (node l ty children).Unbroken :=
  fun depth => List.forall_mem_cons.mpr ⟨⟨hl, hty⟩, unbroken_rowsAll h (depth + 1)⟩

/-- A branch without static type and children. -/
theorem Outline.Branch.Unbroken.leaf {l : Label} (hl : l.detail.Unbroken) :
    (Branch.node l none []).Unbroken :=
  .node hl (by simp) (List.forall_mem_nil _)

theorem Receiver.branches_unbroken {r : Receiver} (h : ∀ v ∈ r.visits, v.Clear t)
    (ih : ∀ o ∈ r.object?, (∀ v ∈ o.visits, v.Clear t) → (o.branch t).Unbroken) :
    ∀ b ∈ r.branches t, b.Unbroken := by
  obtain ⟨ho, hn⟩ := clear_of_visits h
  cases r with
  | implicit =>
    have hself : ∀ T ∈ some "SELF_TYPE", Text.Unbroken T := by decide
    exact List.forall_mem_singleton.mpr (.node trivial hself (List.forall_mem_nil _))
  | dynamic o => exact List.forall_mem_singleton.mpr (ih o rfl (ho o rfl))
  | static o n =>
    simp only [branches, List.forall_mem_cons]
    exact ⟨ih o rfl (ho o rfl), .leaf (hn n rfl).name_unbroken, List.forall_mem_nil _⟩

/-- The branch of an initial value, if there is one. -/
theorem Outline.Branch.unbroken_init {init : Option Expr}
    (h : ∀ i ∈ init, (∀ v ∈ i.visits, v.Clear t) → (i.branch t).Unbroken)
    (hinit : ∀ i ∈ init, ∀ v ∈ i.visits, v.Clear t) :
    ∀ b ∈ (init.map (Expr.branch t)).toList, b.Unbroken := by
  cases init with
  | none => exact List.forall_mem_nil _
  | some i => exact List.forall_mem_singleton.mpr (h i rfl (hinit i rfl))

theorem Expr.branch_unbroken {e : Expr} (h : ∀ v ∈ e.visits, v.Clear t) : (e.branch t).Unbroken := by
  induction e using Expr.induction with
  | assign n e s ty ih =>
    simp only [visits, List.forall_mem_cons] at h
    obtain ⟨hty, -, hn, he⟩ := h
    exact .node hn.name_unbroken hty.ty_unbroken (List.forall_mem_singleton.mpr (ih he))
  | call r m args s ty ihr ihargs =>
    simp only [visits_call, List.cons_append, List.forall_mem_cons, List.forall_mem_append,
      List.forall_mem_flatMap] at h
    obtain ⟨hty, -, -, hr, hm, hargs⟩ := h
    rw [branch_call]
    refine .node hm.name_unbroken hty.ty_unbroken (List.forall_mem_append.mpr ⟨?_, ?_⟩)
    · exact r.branches_unbroken hr ihr
    · exact List.forall_mem_map.mpr fun e he => ihargs e he (hargs e he)
  | cond a b c s ty iha ihb ihc =>
    simp only [visits, List.cons_append, List.forall_mem_cons, List.forall_mem_append] at h
    obtain ⟨hty, -, ⟨ha, hb⟩, hc⟩ := h
    exact .node trivial hty.ty_unbroken (by simp [iha ha, ihb hb, ihc hc])
  | loop a b s ty iha ihb | binary op a b s ty iha ihb =>
    simp only [visits, List.cons_append, List.forall_mem_cons, List.forall_mem_append] at h
    obtain ⟨hty, -, ha, hb⟩ := h
    exact .node trivial hty.ty_unbroken (by simp [iha ha, ihb hb])
  | block es s ty ih =>
    simp only [visits, visitsAll_eq, List.forall_mem_cons, List.forall_mem_flatMap] at h
    obtain ⟨hty, -, hes⟩ := h
    rw [branch, branches_eq]
    exact .node trivial hty.ty_unbroken (List.forall_mem_map.mpr fun e he => ih e he (hes e he))
  | letIn b e s ty ihi ih =>
    simp only [visits_letIn, List.cons_append, List.forall_mem_cons, List.forall_mem_append] at h
    obtain ⟨hty, -, hb, he⟩ := h
    obtain ⟨hn, htn, hi⟩ := Binding.clear_of_visits hb
    rw [branch_letIn]
    refine .node ⟨hn.name_unbroken, htn.name_unbroken⟩ hty.ty_unbroken (List.forall_mem_append.mpr ⟨?_, ?_⟩)
    · exact Branch.unbroken_init ihi hi
    · exact List.forall_mem_singleton.mpr (ih he)
  | caseOf e arms s ty ih iharms =>
    simp only [visits, visitsArms_eq, List.forall_mem_cons, List.forall_mem_append,
      List.forall_mem_flatMap, List.cons_append] at h
    obtain ⟨hty, -, he, harms⟩ := h
    rw [branch, armBranches_eq]
    refine .node trivial hty.ty_unbroken (List.forall_mem_cons.mpr ⟨ih he, ?_⟩)
    refine List.forall_mem_map.mpr fun a ha => ?_
    obtain ⟨hn, htn, hbody⟩ := Arm.clear_of_visits (harms a ha)
    exact .node ⟨hn.name_unbroken, htn.name_unbroken⟩ (by simp)
      (List.forall_mem_singleton.mpr (iharms a ha hbody))
  | new n s ty =>
    simp only [visits, Name.typeVisits, List.forall_mem_cons] at h
    obtain ⟨hty, -, -, hn, -⟩ := h
    exact .node hn.name_unbroken hty.ty_unbroken (List.forall_mem_nil _)
  | unary op a s ty ih =>
    simp only [visits, List.forall_mem_cons] at h
    obtain ⟨hty, -, ha⟩ := h
    exact .node trivial hty.ty_unbroken (List.forall_mem_singleton.mpr (ih ha))
  | ident n ty =>
    simp only [visits, List.forall_mem_cons] at h
    obtain ⟨hty, -, hn, -⟩ := h
    exact .node hn.name_unbroken hty.ty_unbroken (List.forall_mem_nil _)
  | int v s ty =>
    simp only [visits, List.forall_mem_cons] at h
    obtain ⟨hty, hv, -⟩ := h
    exact .node (hv.words _ List.mem_cons_self) hty.ty_unbroken (List.forall_mem_nil _)
  | string v s ty | absent s ty =>
    rw [visits, List.forall_mem_cons] at h
    exact .node trivial h.1.ty_unbroken (List.forall_mem_nil _)
  | bool v s ty =>
    rw [visits, List.forall_mem_cons] at h
    have hv : Text.Unbroken (toString v) := by cases v <;> decide
    exact .node hv h.1.ty_unbroken (List.forall_mem_nil _)

theorem Feature.branch_unbroken {f : Feature} (h : ∀ v ∈ f.visits, v.Clear t) :
    (f.branch t).Unbroken := by
  cases f with
  | method m =>
    simp only [visits, List.cons_append, List.forall_mem_cons, List.forall_mem_append,
      List.forall_mem_flatMap] at h
    obtain ⟨-, -, hn, ⟨hparams, hret⟩, hbody⟩ := h
    have hret := Name.clear_of_typeVisits hret
    refine .node ⟨hn.name_unbroken, hret.name_unbroken⟩ (by simp) (List.forall_mem_append.mpr ⟨?_, ?_⟩)
    · refine List.forall_mem_map.mpr fun f hf => ?_
      have hf := hparams f hf
      simp only [Formal.visits, List.forall_mem_cons] at hf
      exact .leaf ⟨hf.2.1.name_unbroken, (Name.clear_of_typeVisits hf.2.2).name_unbroken⟩
    · exact List.forall_mem_singleton.mpr (Expr.branch_unbroken hbody)
  | attr b =>
    simp only [visits, List.forall_mem_cons] at h
    obtain ⟨hn, htn, hi⟩ := Binding.clear_of_visits h.2.2
    exact .node ⟨hn.name_unbroken, htn.name_unbroken⟩ (by simp)
      (Branch.unbroken_init (fun i _ => Expr.branch_unbroken) hi)

theorem Class.branch_unbroken {c : Class} (h : ∀ v ∈ c.visits, v.Clear t) : (c.branch t).Unbroken := by
  simp only [visits, List.cons_append, List.forall_mem_cons, List.forall_mem_append,
    List.forall_mem_flatMap] at h
  obtain ⟨-, ⟨hn, hparent⟩, hfeatures⟩ := h
  have hn := Name.clear_of_typeVisits hn
  have hparent := Name.clear_of_typeVisits hparent
  exact .node ⟨hn.name_unbroken, hparent.name_unbroken⟩ (by simp)
    (List.forall_mem_map.mpr fun f hf => Feature.branch_unbroken (hfeatures f hf))

/-- The rows of a program tell their words. -/
theorem Program.rows_unbroken {p : Program} (h : ∀ v ∈ p.visits, v.Clear t) :
    ∀ r ∈ Branch.rowsAll 0 (p.branches t), r.Unbroken := by
  simp only [visits, List.forall_mem_cons, List.forall_mem_flatMap] at h
  exact Branch.unbroken_rowsAll
    (List.forall_mem_map.mpr fun c hc => Class.branch_unbroken (h.2 c hc)) 0

end Words

end CoolTypes
