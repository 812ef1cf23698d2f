import CoolTypes.Proofs.Dump.Legibility
import CoolTypes.Proofs.Syntax.Relabelling

/-!
# Programs from their outlines

An outline shows all of a program but spans and the files of classes. Programs over the same tables that are
legible and have the same outline differ in spans and files only (`outline_determines_program`).
-/

namespace CoolTypes

/-- Spans and files do not count. -/
def Relabelling.unplaced : Relabelling := ⟨id, fun _ => .synthetic, fun _ => ⟨0⟩⟩

/-! ## Branches tell programs -/

section Told

open Outline

/-- Lists with the same images under one function have the same images under another one, if their members
do. -/
theorem map_eq_of_map_eq {α β γ : Type} {f : α → β} {g : α → γ} {l l' : List α}
    (h : ∀ a ∈ l, ∀ a' ∈ l', f a = f a' → g a = g a') (heq : l.map f = l'.map f) :
    l.map g = l'.map g := by
  induction l generalizing l' with
  | nil => rw [List.map_eq_nil_iff.mp heq.symm]
  | cons a rest ih =>
    cases l' with
    | nil => cases heq
    | cons a' rest' =>
      obtain ⟨ha, hrest⟩ := List.cons.inj heq
      rw [List.map_cons, List.map_cons, h a List.mem_cons_self a' List.mem_cons_self ha,
        ih (fun b hb b' hb' => h b (List.mem_cons_of_mem _ hb) b' (List.mem_cons_of_mem _ hb')) hrest]

/-- A name is told by its text. -/
theorem Visit.Clear.relabel_eq {t : SymbolTables} {n n' : Name} (h : (Visit.name n).Clear t)
    (h' : (Visit.name n').Clear t) (heq : t.textOf n.symbol = t.textOf n'.symbol) :
    n.relabel .unplaced = n'.relabel .unplaced := by
  have hsymbol : n.symbol = n'.symbol := SymbolTables.Has.eq_of_textIn_eq (k := .ids) h.valid h'.valid heq
  simp [Name.relabel, Relabelling.unplaced, hsymbol]

/-- The form of an expression. -/
def Expr.form : Expr → ExprForm
  | assign .. => .assign
  | call .. => .call
  | cond .. => .cond
  | loop .. => .loop
  | block .. => .block
  | letIn .. => .letIn
  | caseOf .. => .caseOf
  | new .. => .new
  | binary .. => .binary
  | unary .. => .unary
  | ident .. => .ident
  | int .. => .int
  | string .. => .string
  | bool .. => .bool
  | absent .. => .absent

/-- The form of the expressions of a kind, if they are expressions. -/
def Outline.Kind.form? : Kind → Option ExprForm
  | assign => some .assign
  | dynamicDispatch | staticDispatch => some .call
  | cond => some .cond
  | loop => some .loop
  | block => some .block
  | letIn => some .letIn
  | caseOf => some .caseOf
  | new => some .new
  | binary _ => some .binary
  | unary _ => some .unary
  | object => some .ident
  | int => some .int
  | string => some .string
  | bool => some .bool
  | absent => some .absent
  | self | type | arm | formal | method | «attribute» | «class» => none

/-- The form of the expression that a branch shows, if it shows one. -/
def Outline.Branch.form? : Branch → Option ExprForm
  | node l _ _ => l.kind.form?

variable {t : SymbolTables}

theorem Expr.form?_branch (e : Expr) : (e.branch t).form? = some e.form := by
  cases e with
  | call r _ _ _ _ => cases r <;> rw [branch] <;> rfl
  | letIn b _ _ _ => rw [branch_letIn]; rfl
  | _ => rw [branch]; rfl

theorem Expr.form_eq_of_branch_eq {e e' : Expr} (h : e.branch t = e'.branch t) : e.form = e'.form :=
  Option.some.inj (e.form?_branch.symm.trans ((congrArg Branch.form? h).trans e'.form?_branch))

/-- An object that is written is not shown like one that is not. -/
theorem Expr.branch_ne_self (e : Expr) : e.branch t ≠ .self := by
  intro h
  have hform := (congrArg Branch.form? h).symm.trans e.form?_branch
  cases hform

/-- The branch of an expression tells the expression, but for spans. -/
def Expr.Told (t : SymbolTables) (e : Expr) : Prop :=
  (∀ v ∈ e.visits, v.Clear t) → ∀ e' : Expr, (∀ v ∈ e'.visits, v.Clear t) → e.branch t = e'.branch t →
    e.relabel .unplaced = e'.relabel .unplaced

theorem Receiver.told {r r' : Receiver} (ih : ∀ o ∈ r.object?, o.Told t) (h : ∀ v ∈ r.visits, v.Clear t)
    (h' : ∀ v ∈ r'.visits, v.Clear t) (hkind : r.kind = r'.kind) {bs bs' : List Branch}
    (heq : r.branches t ++ bs = r'.branches t ++ bs') :
    Expr.relabelReceiver .unplaced r = Expr.relabelReceiver .unplaced r' ∧ bs = bs' := by
  obtain ⟨ho, hn⟩ := clear_of_visits h
  obtain ⟨ho', hn'⟩ := clear_of_visits h'
  cases r with
  | implicit =>
    cases r' with
    | implicit => exact ⟨rfl, (List.cons.inj heq).2⟩
    | dynamic o' => exact absurd (List.cons.inj heq).1.symm o'.branch_ne_self
    | static o' n' => cases hkind
  | dynamic o =>
    cases r' with
    | implicit => exact absurd (List.cons.inj heq).1 o.branch_ne_self
    | dynamic o' =>
      obtain ⟨hobject, hbs⟩ := List.cons.inj heq
      rw [Expr.relabelReceiver, Expr.relabelReceiver, ih o rfl (ho o rfl) o' (ho' o' rfl) hobject]
      exact ⟨rfl, hbs⟩
    | static o' n' => cases hkind
  | static o n =>
    cases r' with
    | implicit | dynamic => cases hkind
    | static o' n' =>
      obtain ⟨hobject, htype⟩ := List.cons.inj heq
      obtain ⟨hname, hbs⟩ := List.cons.inj htype
      have hname : t.textOf n.symbol = t.textOf n'.symbol := by simpa [Name.label] using hname
      rw [Expr.relabelReceiver, Expr.relabelReceiver, ih o rfl (ho o rfl) o' (ho' o' rfl) hobject,
        (hn n rfl).relabel_eq (hn' n' rfl) hname]
      exact ⟨rfl, hbs⟩

theorem Binding.relabel_eq {k k' : Kind} {b b' : Binding} (ih : ∀ i ∈ b.init, i.Told t)
    (h : ∀ v ∈ b.visits, v.Clear t) (h' : ∀ v ∈ b'.visits, v.Clear t)
    (hlabel : b.name.typedLabel t k b.typeName = b'.name.typedLabel t k' b'.typeName)
    (hinit : (b.init.map (Expr.branch t)).toList = (b'.init.map (Expr.branch t)).toList) :
    b.relabel .unplaced = b'.relabel .unplaced := by
  obtain ⟨hn, htn, hi⟩ := clear_of_visits h
  obtain ⟨hn', htn', hi'⟩ := clear_of_visits h'
  simp only [Name.typedLabel, Label.mk.injEq, Detail.typed.injEq] at hlabel
  obtain ⟨-, hname, htype⟩ := hlabel
  have hvalue : b.init.map (Expr.relabel .unplaced) = b'.init.map (Expr.relabel .unplaced) := by
    cases hb : b.init with
    | none =>
      cases hb' : b'.init with
      | none => rfl
      | some i' => simp [hb, hb'] at hinit
    | some i =>
      cases hb' : b'.init with
      | none => simp [hb, hb'] at hinit
      | some i' =>
        have heq : i.branch t = i'.branch t := by simpa [hb, hb'] using hinit
        exact congrArg some (ih i hb (hi i hb) i' (hi' i' hb') heq)
  rw [relabel, relabel, hn.relabel_eq hn' hname, htn.relabel_eq htn' htype, hvalue]
  rfl

theorem Arm.relabel_eq {a a' : Arm} (ih : a.body.Told t) (h : ∀ v ∈ a.visits, v.Clear t)
    (h' : ∀ v ∈ a'.visits, v.Clear t) (heq : a.branch t = a'.branch t) :
    a.relabel .unplaced = a'.relabel .unplaced := by
  obtain ⟨hn, htn, hbody⟩ := clear_of_visits h
  obtain ⟨hn', htn', hbody'⟩ := clear_of_visits h'
  simp only [branch, Name.typedLabel, Branch.node.injEq, Label.mk.injEq, Detail.typed.injEq, true_and,
    List.cons.injEq, and_true] at heq
  obtain ⟨⟨hname, htype⟩, heq⟩ := heq
  rw [relabel, relabel, hn.relabel_eq hn' hname, htn.relabel_eq htn' htype, ih hbody a'.body hbody' heq]
  rfl

/-- A branch tells its expression, whatever the other expression is. -/
theorem Expr.told (e : Expr) : e.Told t := by
  induction e using Expr.induction with
  | assign n e s ty ih =>
    intro h e' h' heq
    have hform := form_eq_of_branch_eq heq
    cases e' with
    | assign n' e' s' ty' =>
      simp only [visits, List.forall_mem_cons] at h h'
      obtain ⟨hty, -, hn, he⟩ := h
      obtain ⟨hty', -, hn', he'⟩ := h'
      simp only [branch, Name.label, Branch.node.injEq, Label.mk.injEq, Detail.name.injEq, true_and,
        List.cons.injEq, and_true] at heq
      obtain ⟨hname, hann, heq⟩ := heq
      rw [relabel, relabel, hn.relabel_eq hn' hname, ih he e' he' heq, hty.ty_eq hty' hann]
      rfl
    | _ => cases hform
  | call r m args s ty ihr ihargs =>
    intro h e' h' heq
    have hform := form_eq_of_branch_eq heq
    cases e' with
    | call r' m' args' s' ty' =>
      simp only [visits_call, List.cons_append, List.forall_mem_cons, List.forall_mem_append,
        List.forall_mem_flatMap] at h h'
      obtain ⟨hty, -, -, hr, hm, hargs⟩ := h
      obtain ⟨hty', -, -, hr', hm', hargs'⟩ := h'
      simp only [branch_call, Name.label, Branch.node.injEq, Label.mk.injEq, Detail.name.injEq] at heq
      obtain ⟨⟨hkind, hname⟩, hann, heq⟩ := heq
      obtain ⟨hreceiver, heq⟩ := Receiver.told ihr hr hr' hkind heq
      have hall := map_eq_of_map_eq (g := relabel .unplaced)
        (fun e he e' he' => ihargs e he (hargs e he) e' (hargs' e' he')) heq
      rw [relabel, relabel, relabelAll_eq, relabelAll_eq, hreceiver, hm.relabel_eq hm' hname, hall,
        hty.ty_eq hty' hann]
      rfl
    | _ => cases hform
  | cond a b c s ty iha ihb ihc =>
    intro h e' h' heq
    have hform := form_eq_of_branch_eq heq
    cases e' with
    | cond a' b' c' s' ty' =>
      simp only [visits, List.cons_append, List.forall_mem_cons, List.forall_mem_append] at h h'
      obtain ⟨hty, -, ⟨ha, hb⟩, hc⟩ := h
      obtain ⟨hty', -, ⟨ha', hb'⟩, hc'⟩ := h'
      simp only [branch, Branch.node.injEq, true_and, List.cons.injEq, and_true] at heq
      obtain ⟨hann, heqa, heqb, heqc⟩ := heq
      rw [relabel, relabel, iha ha a' ha' heqa, ihb hb b' hb' heqb, ihc hc c' hc' heqc,
        hty.ty_eq hty' hann]
      rfl
    | _ => cases hform
  | loop a b s ty iha ihb =>
    intro h e' h' heq
    have hform := form_eq_of_branch_eq heq
    cases e' with
    | loop a' b' s' ty' =>
      simp only [visits, List.cons_append, List.forall_mem_cons, List.forall_mem_append] at h h'
      obtain ⟨hty, -, ha, hb⟩ := h
      obtain ⟨hty', -, ha', hb'⟩ := h'
      simp only [branch, Branch.node.injEq, true_and, List.cons.injEq, and_true] at heq
      obtain ⟨hann, heqa, heqb⟩ := heq
      rw [relabel, relabel, iha ha a' ha' heqa, ihb hb b' hb' heqb, hty.ty_eq hty' hann]
      rfl
    | _ => cases hform
  | block es s ty ih =>
    intro h e' h' heq
    have hform := form_eq_of_branch_eq heq
    cases e' with
    | block es' s' ty' =>
      simp only [visits, visitsAll_eq, List.forall_mem_cons, List.forall_mem_flatMap] at h h'
      obtain ⟨hty, -, hes⟩ := h
      obtain ⟨hty', -, hes'⟩ := h'
      simp only [branch, branches_eq, Branch.node.injEq, true_and] at heq
      obtain ⟨hann, heq⟩ := heq
      have hall := map_eq_of_map_eq (g := relabel .unplaced)
        (fun e he e' he' => ih e he (hes e he) e' (hes' e' he')) heq
      rw [relabel, relabel, relabelAll_eq, relabelAll_eq, hall, hty.ty_eq hty' hann]
      rfl
    | _ => cases hform
  | letIn b e s ty ihi ih =>
    intro h e' h' heq
    have hform := form_eq_of_branch_eq heq
    cases e' with
    | letIn b' e' s' ty' =>
      simp only [visits_letIn, List.cons_append, List.forall_mem_cons, List.forall_mem_append] at h h'
      obtain ⟨hty, -, hb, he⟩ := h
      obtain ⟨hty', -, hb', he'⟩ := h'
      simp only [branch_letIn, Branch.node.injEq] at heq
      obtain ⟨hlabel, hann, heq⟩ := heq
      -- the body is the last child, whether there is an initial value or not
      obtain ⟨hinit, heq⟩ := List.append_inj' heq rfl
      rw [relabel_letIn, relabel_letIn, Binding.relabel_eq ihi hb hb' hlabel hinit,
        ih he e' he' (List.cons.inj heq).1, hty.ty_eq hty' hann]
      rfl
    | _ => cases hform
  | caseOf e arms s ty ih iharms =>
    intro h e' h' heq
    have hform := form_eq_of_branch_eq heq
    cases e' with
    | caseOf e' arms' s' ty' =>
      simp only [visits, visitsArms_eq, List.cons_append, List.forall_mem_cons, List.forall_mem_append,
        List.forall_mem_flatMap] at h h'
      obtain ⟨hty, -, he, harms⟩ := h
      obtain ⟨hty', -, he', harms'⟩ := h'
      simp only [branch, armBranches_eq, Branch.node.injEq, true_and, List.cons.injEq] at heq
      obtain ⟨hann, hscrutinee, heq⟩ := heq
      have hall := map_eq_of_map_eq (g := Arm.relabel .unplaced)
        (fun a ha a' ha' => Arm.relabel_eq (iharms a ha) (harms a ha) (harms' a' ha')) heq
      rw [relabel, relabel, relabelArms_eq, relabelArms_eq, ih he e' he' hscrutinee, hall,
        hty.ty_eq hty' hann]
      rfl
    | _ => cases hform
  | new n s ty =>
    intro h e' h' heq
    have hform := form_eq_of_branch_eq heq
    cases e' with
    | new n' s' ty' =>
      simp only [visits, List.forall_mem_cons] at h h'
      obtain ⟨hty, -, hn⟩ := h
      obtain ⟨hty', -, hn'⟩ := h'
      simp only [branch, Name.label, Branch.node.injEq, Label.mk.injEq, Detail.name.injEq, true_and,
        and_true] at heq
      obtain ⟨hname, hann⟩ := heq
      rw [relabel, relabel, (Name.clear_of_typeVisits hn).relabel_eq (Name.clear_of_typeVisits hn') hname,
        hty.ty_eq hty' hann]
      rfl
    | _ => cases hform
  | binary op a b s ty iha ihb =>
    intro h e' h' heq
    have hform := form_eq_of_branch_eq heq
    cases e' with
    | binary op' a' b' s' ty' =>
      simp only [visits, List.cons_append, List.forall_mem_cons, List.forall_mem_append] at h h'
      obtain ⟨hty, -, ha, hb⟩ := h
      obtain ⟨hty', -, ha', hb'⟩ := h'
      simp only [branch, Branch.node.injEq, Label.mk.injEq, Kind.binary.injEq, List.cons.injEq,
        and_true] at heq
      obtain ⟨hop, hann, heqa, heqb⟩ := heq
      rw [relabel, relabel, hop, iha ha a' ha' heqa, ihb hb b' hb' heqb, hty.ty_eq hty' hann]
      rfl
    | _ => cases hform
  | unary op a s ty ih =>
    intro h e' h' heq
    have hform := form_eq_of_branch_eq heq
    cases e' with
    | unary op' a' s' ty' =>
      simp only [visits, List.forall_mem_cons] at h h'
      obtain ⟨hty, -, ha⟩ := h
      obtain ⟨hty', -, ha'⟩ := h'
      simp only [branch, Branch.node.injEq, Label.mk.injEq, Kind.unary.injEq, List.cons.injEq,
        and_true] at heq
      obtain ⟨hop, hann, heqa⟩ := heq
      rw [relabel, relabel, hop, ih ha a' ha' heqa, hty.ty_eq hty' hann]
      rfl
    | _ => cases hform
  | ident n ty =>
    intro h e' h' heq
    have hform := form_eq_of_branch_eq heq
    cases e' with
    | ident n' ty' =>
      simp only [visits, List.forall_mem_cons] at h h'
      obtain ⟨hty, -, hn, -⟩ := h
      obtain ⟨hty', -, hn', -⟩ := h'
      simp only [branch, Name.label, Branch.node.injEq, Label.mk.injEq, Detail.name.injEq, true_and,
        and_true] at heq
      obtain ⟨hname, hann⟩ := heq
      rw [relabel, relabel, hn.relabel_eq hn' hname, hty.ty_eq hty' hann]
    | _ => cases hform
  | int v s ty =>
    intro h e' h' heq
    have hform := form_eq_of_branch_eq heq
    cases e' with
    | int v' s' ty' =>
      simp only [visits, List.forall_mem_cons] at h h'
      obtain ⟨hty, hv, -⟩ := h
      obtain ⟨hty', hv', -⟩ := h'
      simp only [branch, Branch.node.injEq, Label.mk.injEq, Detail.name.injEq, true_and, and_true] at heq
      obtain ⟨hval, hann⟩ := heq
      rw [relabel, relabel, SymbolTables.Has.eq_of_textIn_eq hv.valid hv'.valid hval,
        hty.ty_eq hty' hann]
      rfl
    | _ => cases hform
  | string v s ty =>
    intro h e' h' heq
    have hform := form_eq_of_branch_eq heq
    cases e' with
    | string v' s' ty' =>
      simp only [visits, List.forall_mem_cons] at h h'
      obtain ⟨hty, hv, -⟩ := h
      obtain ⟨hty', hv', -⟩ := h'
      simp only [branch, Branch.node.injEq, Label.mk.injEq, Detail.quoted.injEq, true_and, and_true] at heq
      obtain ⟨hval, hann⟩ := heq
      rw [relabel, relabel, SymbolTables.Has.eq_of_textIn_eq hv.valid hv'.valid hval,
        hty.ty_eq hty' hann]
      rfl
    | _ => cases hform
  | bool v s ty =>
    intro h e' h' heq
    have hform := form_eq_of_branch_eq heq
    cases e' with
    | bool v' s' ty' =>
      rw [visits, List.forall_mem_cons] at h h'
      simp only [branch, Branch.node.injEq, Label.mk.injEq, Detail.name.injEq, true_and, and_true] at heq
      obtain ⟨hval, hann⟩ := heq
      have hv : v = v' := by
        revert hval
        cases v <;> cases v' <;> decide
      rw [relabel, relabel, hv, h.1.ty_eq h'.1 hann]
      rfl
    | _ => cases hform
  | absent s ty =>
    intro h e' h' heq
    have hform := form_eq_of_branch_eq heq
    cases e' with
    | absent s' ty' =>
      rw [visits, List.forall_mem_cons] at h h'
      simp only [branch, Branch.node.injEq, true_and, and_true] at heq
      rw [relabel, relabel, h.1.ty_eq h'.1 heq]
      rfl
    | _ => cases hform

theorem Formal.relabel_eq {f f' : Formal} (h : ∀ v ∈ f.visits, v.Clear t) (h' : ∀ v ∈ f'.visits, v.Clear t)
    (heq : f.branch t = f'.branch t) : f.relabel .unplaced = f'.relabel .unplaced := by
  simp only [visits, List.forall_mem_cons] at h h'
  obtain ⟨-, hn, htn⟩ := h
  obtain ⟨-, hn', htn'⟩ := h'
  simp only [branch, Name.typedLabel, Branch.node.injEq, Label.mk.injEq, Detail.typed.injEq, true_and,
    and_true] at heq
  obtain ⟨hname, htype⟩ := heq
  rw [relabel, relabel, hn.relabel_eq hn' hname,
    (Name.clear_of_typeVisits htn).relabel_eq (Name.clear_of_typeVisits htn') htype]
  rfl

theorem Feature.relabel_eq {f f' : Feature} (h : ∀ v ∈ f.visits, v.Clear t)
    (h' : ∀ v ∈ f'.visits, v.Clear t) (heq : f.branch t = f'.branch t) :
    f.relabel .unplaced = f'.relabel .unplaced := by
  cases f with
  | method m =>
    cases f' with
    | method m' =>
      simp only [visits, List.cons_append, List.forall_mem_cons, List.forall_mem_append,
        List.forall_mem_flatMap] at h h'
      obtain ⟨-, -, hn, ⟨hparams, hret⟩, hbody⟩ := h
      obtain ⟨-, -, hn', ⟨hparams', hret'⟩, hbody'⟩ := h'
      simp only [branch, Name.typedLabel, Branch.node.injEq, Label.mk.injEq, Detail.typed.injEq,
        true_and] at heq
      obtain ⟨⟨hname, htype⟩, heq⟩ := heq
      -- the body is the last child
      obtain ⟨hformals, heq⟩ := List.append_inj' heq rfl
      have hall := map_eq_of_map_eq (g := Formal.relabel .unplaced)
        (fun f hf f' hf' => Formal.relabel_eq (hparams f hf) (hparams' f' hf')) hformals
      rw [relabel, relabel, hn.relabel_eq hn' hname, hall,
        (Name.clear_of_typeVisits hret).relabel_eq (Name.clear_of_typeVisits hret') htype,
        m.body.told hbody m'.body hbody' (List.cons.inj heq).1]
      rfl
    | attr b' => simp [branch, Name.typedLabel] at heq
  | attr b =>
    cases f' with
    | method m' => simp [branch, Name.typedLabel] at heq
    | attr b' =>
      simp only [visits, List.forall_mem_cons] at h h'
      simp only [branch, Branch.node.injEq, true_and] at heq
      obtain ⟨hlabel, hinit⟩ := heq
      rw [relabel, relabel, Binding.relabel_eq (fun i _ => i.told) h.2.2 h'.2.2 hlabel hinit]

theorem Class.relabel_eq {c c' : Class} (h : ∀ v ∈ c.visits, v.Clear t) (h' : ∀ v ∈ c'.visits, v.Clear t)
    (heq : c.branch t = c'.branch t) : c.relabel .unplaced = c'.relabel .unplaced := by
  simp only [visits, List.cons_append, List.forall_mem_cons, List.forall_mem_append,
    List.forall_mem_flatMap] at h h'
  obtain ⟨-, ⟨hn, hparent⟩, hfeatures⟩ := h
  obtain ⟨-, ⟨hn', hparent'⟩, hfeatures'⟩ := h'
  simp only [branch, Branch.node.injEq, Label.mk.injEq, Detail.child.injEq, true_and] at heq
  obtain ⟨⟨hname, hpname⟩, heq⟩ := heq
  have hall := map_eq_of_map_eq (g := Feature.relabel .unplaced)
    (fun f hf f' hf' => Feature.relabel_eq (hfeatures f hf) (hfeatures' f' hf')) heq
  rw [relabel, relabel, hall, (Name.clear_of_typeVisits hn).relabel_eq (Name.clear_of_typeVisits hn') hname,
    (Name.clear_of_typeVisits hparent).relabel_eq (Name.clear_of_typeVisits hparent') hpname]
  rfl

/-- The forest of a program tells the program, but for spans and files. -/
theorem Program.relabel_eq_of_branches_eq {p q : Program} (h : ∀ v ∈ p.visits, v.Clear t)
    (h' : ∀ v ∈ q.visits, v.Clear t) (heq : p.branches t = q.branches t) :
    p.relabel .unplaced = q.relabel .unplaced := by
  simp only [visits, List.forall_mem_cons, List.forall_mem_flatMap] at h h'
  have hall := map_eq_of_map_eq (g := Class.relabel .unplaced)
    (fun c hc c' hc' => Class.relabel_eq (h.2 c hc) (h'.2 c' hc')) heq
  rw [relabel, relabel, hall]
  rfl

end Told

/-! ## Outlines show no more -/

section Relabelled

open Outline

variable (t : SymbolTables)

/-- What has the same branches one by one has them as a list. -/
theorem map_branch_relabel {α β : Type} {relabel : α → α} {branch : α → β} {l : List α}
    (h : ∀ a ∈ l, branch (relabel a) = branch a) : (l.map relabel).map branch = l.map branch := by
  rw [List.map_map]
  exact List.map_congr_left h

theorem Receiver.branches_relabel {r : Receiver}
    (h : ∀ o ∈ r.object?, (o.relabel .unplaced).branch t = o.branch t) :
    (Expr.relabelReceiver .unplaced r).kind = r.kind ∧
      (Expr.relabelReceiver .unplaced r).branches t = r.branches t := by
  cases r with
  | implicit => exact ⟨rfl, rfl⟩
  | dynamic o => exact ⟨rfl, congrArg (fun b => [b]) (h o rfl)⟩
  | static o n => exact ⟨rfl, congrArg (fun b => [b, _]) (h o rfl)⟩

theorem Outline.Branch.init_relabel {init : Option Expr}
    (h : ∀ i ∈ init, (i.relabel .unplaced).branch t = i.branch t) :
    (init.map (Expr.relabel .unplaced)).map (Expr.branch t) = init.map (Expr.branch t) := by
  cases init with
  | none => rfl
  | some i => exact congrArg some (h i rfl)

theorem Expr.branch_relabel (e : Expr) : (e.relabel .unplaced).branch t = e.branch t := by
  induction e using Expr.induction with
  | call r m args s ty ihr ihargs =>
    obtain ⟨hkind, hr⟩ := Receiver.branches_relabel t ihr
    rw [relabel, relabelAll_eq, branch_call, branch_call, hkind, hr, map_branch_relabel ihargs]
    rfl
  | block es s ty ih =>
    rw [relabel, relabelAll_eq, branch, branch, branches_eq, branches_eq, map_branch_relabel ih]
  | letIn b e s ty ihi ih =>
    rw [relabel_letIn, branch_letIn, branch_letIn, ih, Binding.relabel, Branch.init_relabel t ihi]
    rfl
  | caseOf e arms s ty ih iharms =>
    have harms : ∀ a ∈ arms, (a.relabel .unplaced).branch t = a.branch t := fun a ha =>
      congrArg (fun b => Branch.node (a.name.typedLabel t .arm a.typeName) none [b]) (iharms a ha)
    rw [relabel, relabelArms_eq, branch, branch, armBranches_eq, armBranches_eq, ih,
      map_branch_relabel harms]
  | assign n e s ty ih =>
    rw [relabel, branch, branch, ih]
    rfl
  | cond a b c s ty iha ihb ihc => rw [relabel, branch, branch, iha, ihb, ihc]
  | loop a b s ty iha ihb | binary op a b s ty iha ihb => rw [relabel, branch, branch, iha, ihb]
  | unary op a s ty ih => rw [relabel, branch, branch, ih]
  | new | ident | int | string | bool | absent => rfl

theorem Feature.branch_relabel (f : Feature) : (f.relabel .unplaced).branch t = f.branch t := by
  cases f with
  | method m =>
    have hparams : (m.params.map (Formal.relabel .unplaced)).map (Formal.branch t) =
        m.params.map (Formal.branch t) := map_branch_relabel fun _ _ => rfl
    rw [relabel, branch, branch, hparams, Expr.branch_relabel]
    rfl
  | attr b =>
    have hinit := Branch.init_relabel t fun i (_ : i ∈ b.init) => i.branch_relabel t
    rw [relabel, branch, branch, Binding.relabel, hinit]
    rfl

theorem Class.branch_relabel (c : Class) : (c.relabel .unplaced).branch t = c.branch t := by
  rw [relabel, branch, branch, map_branch_relabel fun f _ => f.branch_relabel t]
  rfl

theorem Program.branches_relabel (p : Program) : (p.relabel .unplaced).branches t = p.branches t :=
  map_branch_relabel fun c _ => c.branch_relabel t

end Relabelled

theorem Program.SymbolValid.outline_eq {t : SymbolTables} {p : Program} (h : p.SymbolValid t) :
    p.outline t = .ok (String.join ((Outline.Branch.lines 0 (p.branches t)).map OutlineLine.text)) :=
  bind_ok (Outline.program_eq h) rfl

/-- The outline of a symbol-valid program has the lines of its forest, indented by their depth. Programs over
the same tables whose printed words are legible have the same outline exactly if they differ in spans and
files only. -/
theorem outline_determines_program {t : SymbolTables} {p q : Program} (hp : p.SymbolValid t)
    (hq : q.SymbolValid t) (hp' : p.Legible t) (hq' : q.Legible t) :
    p.outline t = .ok (String.join ((Outline.Branch.lines 0 (p.branches t)).map OutlineLine.text)) ∧
      (p.outline t = q.outline t ↔ p.relabel .unplaced = q.relabel .unplaced) := by
  refine ⟨hp.outline_eq, fun heq => ?_, fun heq => ?_⟩
  · have hclear : ∀ {p : Program}, p.SymbolValid t → p.Legible t → ∀ v ∈ p.visits, v.Clear t :=
      fun hp hp' v hv => ⟨Program.visits_valid_iff.mpr hp v hv, hp'.words v hv, hp'.annotations v hv⟩
    rw [hp.outline_eq, hq.outline_eq] at heq
    have hlines := Except.ok.inj heq
    rw [Outline.Branch.lines, Outline.Branch.lines, List.map_map, List.map_map] at hlines
    have hrows := Outline.Row.eq_of_join_eq (Program.rows_unbroken (hclear hp hp'))
      (Program.rows_unbroken (hclear hq hq')) hlines
    have hforest := Outline.Branch.rowsAll_injective 0 hrows
    exact Program.relabel_eq_of_branches_eq (hclear hp hp') (hclear hq hq') hforest
  · rw [hp.outline_eq, hq.outline_eq, ← p.branches_relabel, heq, q.branches_relabel]

/-- Tables with the literals `-1_0` and a text that looks like the end of a line and another line. -/
def quotingTables : SymbolTables where
  ids := ((Interner.empty.insert "Main").insert "say").insertAll WellKnown.all
  strings := Interner.empty.insert "\") : Int\n -self : SELF_TYPE"
  ints := Interner.empty.insert "-1_0"
  complete w := Interner.text_mem_insertAll _ w.mem_all

/-- A class whose method calls another one with the literals, on a receiver and from a line. -/
def quotingProgram (o : Receiver) (line : Nat) : Program :=
  let name (k : Nat) : Name := ⟨⟨k⟩, .point line 1⟩
  let call : Expr := .call o (name 1)
    [.int ⟨0⟩ (.point line 2) (some (.named ⟨0⟩)), .string ⟨0⟩ (.point line 3) none] (.point line 4) none
  ⟨[⟨name 0, name 2, ⟨line⟩, [.method ⟨name 1, [], name 0, call, .point line 5⟩], .point line 6⟩],
    .point line 7⟩

theorem outline_determines_program_quoting :
    let t := quotingTables
    let self : Expr := .ident ⟨t.known .self, .point 1 1⟩ (some .selfType)
    let p := quotingProgram .implicit 1
    let q := quotingProgram .implicit 2
    let r := quotingProgram (.dynamic self) 1
    (p.SymbolValid t ∧ p.Legible t) ∧ (q.SymbolValid t ∧ q.Legible t) ∧ (r.SymbolValid t ∧ r.Legible t) ∧
      p.outline t = q.outline t ∧ p.outline t ≠ r.outline t := by
  intro t self p q r
  have hlegible : ∀ {o : Receiver} {line : Nat},
      (∀ v ∈ (quotingProgram o line).visits, ∀ w ∈ v.words t, w.toList.all Text.isNameChar = true) →
      (∀ v ∈ (quotingProgram o line).visits, v.annotation? ≠ some (.named (t.known .selfType))) →
      (quotingProgram o line).Legible t :=
    fun hwords hann => ⟨fun v hv w hw => Text.unbroken_of_nameChars (hwords v hv w hw), hann⟩
  have hvalid : ∀ {o : Receiver} {line : Nat},
      (CompilationUnit.checkSymbols ⟨t, quotingProgram o line⟩ {}).1 = true →
      (quotingProgram o line).SymbolValid t :=
    fun h => CompilationUnit.checkSymbols_eq_true_iff.mp h
  have hp : p.SymbolValid t ∧ p.Legible t :=
    ⟨hvalid (by decide +kernel), hlegible (by decide +kernel) (by decide +kernel)⟩
  have hq : q.SymbolValid t ∧ q.Legible t :=
    ⟨hvalid (by decide +kernel), hlegible (by decide +kernel) (by decide +kernel)⟩
  have hr : r.SymbolValid t ∧ r.Legible t :=
    ⟨hvalid (by decide +kernel), hlegible (by decide +kernel) (by decide +kernel)⟩
  refine ⟨hp, hq, hr, ?_, fun heq => ?_⟩
  · exact (outline_determines_program hp.1 hq.1 hp.2 hq.2).2.mpr rfl
  · have hrelabel := (outline_determines_program hp.1 hr.1 hp.2 hr.2).2.mp heq
    exact absurd (congrArg Program.visits hrelabel) (by decide +kernel)

end CoolTypes
