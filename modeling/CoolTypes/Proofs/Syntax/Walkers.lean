import CoolTypes.Proofs.Syntax.Validity

/-!
# Walks that rename

A walk that puts valid names in the place of valid names keeps a program symbol-valid
(`Walker.program_symbolValid`), so one name of a table can take the place of another one.
-/

namespace CoolTypes

namespace Walker

variable {t : SymbolTables} {σ α β : Type}

/-- Whatever the state, the result has the property. -/
def Yields (x : StateM σ α) (P : α → Prop) : Prop := ∀ s, P (x.run s).1

namespace Yields

variable {P : α → Prop} {Q : β → Prop}

theorem pure {a : α} (h : P a) : Yields (Pure.pure a : StateM σ α) P := fun _ => h

theorem bind {x : StateM σ α} {f : α → StateM σ β} (hx : Yields x P)
    (hf : ∀ a, P a → Yields (f a) Q) : Yields (x >>= f) Q :=
  fun s => hf _ (hx s) _

/-- A part whose result is not used. -/
theorem andThen {x : StateM σ α} {f : α → StateM σ β} (hf : ∀ a, Yields (f a) Q) :
    Yields (x >>= f) Q :=
  fun _ => hf _ _

/-- A node is visited as what it is in general and as one of its form before its parts are. -/
theorem entered {x y : StateM σ Unit} {z : StateM σ α} (hz : Yields z P) :
    Yields (do x; y; z) P :=
  .andThen fun _ => .andThen fun _ => hz

theorem mapM {f : α → StateM σ β} {l : List α} (h : ∀ a ∈ l, Yields (f a) Q) :
    Yields (l.mapM f) fun bs => ∀ b ∈ bs, Q b := by
  induction l with
  | nil => exact .pure (List.forall_mem_nil _)
  | cons a rest ih =>
    rw [List.mapM_cons]
    refine (h a List.mem_cons_self).bind fun b hb => ?_
    refine (ih fun a ha => h a (List.mem_cons_of_mem _ ha)).bind fun bs hbs => ?_
    exact .pure (List.forall_mem_cons.mpr ⟨hb, hbs⟩)

end Yields

variable {w : Walker σ}

theorem exprs_symbolValid {es : List Expr}
    (h : ∀ e ∈ es, Yields (w.expr e) (·.SymbolValid t)) :
    Yields (w.exprs es) fun es => ∀ e ∈ es, e.SymbolValid t := by
  induction es with
  | nil => exact .pure (List.forall_mem_nil _)
  | cons e rest ih =>
    rw [exprs]
    refine (h e List.mem_cons_self).bind fun e he => ?_
    refine (ih fun e he => h e (List.mem_cons_of_mem _ he)).bind fun es hes => ?_
    exact .pure (List.forall_mem_cons.mpr ⟨he, hes⟩)

variable (hw : ∀ n, n.SymbolValid t → Yields (w.rename n) (·.SymbolValid t))

include hw

theorem name_symbolValid {n : Name} (hn : n.SymbolValid t) :
    Yields (w.name n) (·.SymbolValid t) :=
  .andThen fun _ => hw n hn

theorem typeName_symbolValid {n : Name} (hn : n.SymbolValid t) :
    Yields (w.typeName n) (·.SymbolValid t) :=
  .andThen fun _ => name_symbolValid hw hn

theorem arms_symbolValid {arms : List Arm} (hn : ∀ arm ∈ arms, arm.name.SymbolValid t)
    (htn : ∀ arm ∈ arms, arm.typeName.SymbolValid t)
    (h : ∀ arm ∈ arms, Yields (w.expr arm.body) (·.SymbolValid t)) :
    Yields (w.arms arms) fun arms => ∀ arm ∈ arms, arm.SymbolValid t := by
  induction arms with
  | nil => exact .pure (List.forall_mem_nil _)
  | cons arm rest ih =>
    obtain ⟨n, tn, e, s⟩ := arm
    rw [List.forall_mem_cons] at hn htn h
    rw [Walker.arms]
    refine .andThen fun _ => (name_symbolValid hw hn.1).bind fun n hn' => ?_
    refine (typeName_symbolValid hw htn.1).bind fun tn htn' => h.1.bind fun e he => ?_
    refine (ih hn.2 htn.2 h.2).bind fun arms harms => ?_
    exact .pure (List.forall_mem_cons.mpr ⟨⟨hn', htn', he⟩, harms⟩)

/-- The walk through a call, once it has been through the receiver. -/
theorem call_symbolValid {x : StateM σ Receiver} {m : Name} {args : List Expr} {s : Span}
    {ty : Option Ty} (hx : Yields x fun r => (∀ o ∈ r.object?, o.SymbolValid t) ∧
      ∀ n ∈ r.typeName?, n.SymbolValid t)
    (hm : m.SymbolValid t) (hargs : ∀ e ∈ args, Yields (w.expr e) (·.SymbolValid t))
    (hty : ∀ T ∈ ty, T.SymbolValid t) :
    Yields
      (do
        let r ← x
        let m ← w.name m
        return Expr.call r m (← w.exprs args) s ty)
      (·.SymbolValid t) := by
  refine hx.bind fun r hr => (name_symbolValid hw hm).bind fun m hm' => ?_
  refine (exprs_symbolValid hargs).bind fun args hargs' => ?_
  exact .pure (.call hr.1 hr.2 hm' hargs' hty)

/-- An expression keeps valid symbols on a walk that keeps names valid. -/
theorem expr_symbolValid {e : Expr} (h : e.SymbolValid t) :
    Yields (w.expr e) (·.SymbolValid t) := by
  induction h with
  | assign hn _ hty ih =>
    rw [expr]
    refine .entered ((name_symbolValid hw hn).bind fun n hn' => ?_)
    exact ih.bind fun e he => .pure (.assign hn' he hty)
  | @call r m args s ty _ hn hm _ hty iho ihargs =>
    cases r with
    | implicit =>
      rw [expr]
      refine .entered (.andThen fun _ => ?_)
      refine call_symbolValid hw (.pure ?_) hm ihargs hty
      simp [Receiver.object?, Receiver.typeName?]
    | dynamic o =>
      rw [expr]
      refine .entered (.andThen fun _ => ?_)
      refine call_symbolValid hw ?_ hm ihargs hty
      refine (iho o rfl).bind fun o ho => .pure ?_
      simpa [Receiver.object?, Receiver.typeName?] using ho
    | static o n =>
      rw [expr]
      refine .entered (.andThen fun _ => ?_)
      refine (iho o rfl).bind fun o ho => ?_
      refine (typeName_symbolValid hw (hn n rfl)).bind fun n hn' => ?_
      refine call_symbolValid hw (.pure ?_) hm ihargs hty
      simpa [Receiver.object?, Receiver.typeName?] using ⟨ho, hn'⟩
  | cond _ _ _ hty iha ihb ihc =>
    rw [expr]
    refine .entered (iha.bind fun a ha => ihb.bind fun b hb => ?_)
    exact ihc.bind fun c hc => .pure (.cond ha hb hc hty)
  | loop _ _ hty iha ihb =>
    rw [expr]
    refine .entered (iha.bind fun a ha => ?_)
    exact ihb.bind fun b hb => .pure (.loop ha hb hty)
  | block _ hty ih =>
    rw [expr]
    refine .entered ((exprs_symbolValid ih).bind fun es hes => ?_)
    exact .pure (.block hes hty)
  | @letIn b e s ty hn htn _ _ hty ihi ih =>
    obtain ⟨n, tn, init, bs⟩ := b
    rw [expr]
    refine .entered (.andThen fun _ => ?_)
    refine (name_symbolValid hw hn).bind fun n hn' => ?_
    refine (typeName_symbolValid hw htn).bind fun tn htn' => ?_
    cases init with
    | none =>
      have hi : Yields (pure none : StateM σ (Option Expr)) fun i => ∀ e ∈ i, e.SymbolValid t :=
        .pure (by simp)
      exact hi.bind fun i hi => ih.bind fun e he => .pure (.letIn hn' htn' hi he hty)
    | some i =>
      have hi : Yields (some <$> w.expr i) fun i => ∀ e ∈ i, e.SymbolValid t :=
        (ihi i rfl).bind fun i hi => .pure (by simpa using hi)
      exact hi.bind fun i hi => ih.bind fun e he => .pure (.letIn hn' htn' hi he hty)
  | caseOf _ hn htn _ hty ih iharms =>
    rw [expr]
    refine .entered (ih.bind fun e he => ?_)
    refine (arms_symbolValid hw hn htn iharms).bind fun arms harms => .pure ?_
    exact .caseOf he (fun arm h => (harms arm h).name) (fun arm h => (harms arm h).typeName)
      (fun arm h => (harms arm h).body) hty
  | new hn hty =>
    rw [expr]
    refine .entered ((typeName_symbolValid hw hn).bind fun n hn' => ?_)
    exact .pure (.new hn' hty)
  | binary _ _ hty iha ihb =>
    rw [expr]
    refine .entered (iha.bind fun a ha => ?_)
    exact ihb.bind fun b hb => .pure (.binary ha hb hty)
  | unary _ hty ih =>
    rw [expr]
    exact .entered (ih.bind fun a ha => .pure (.unary ha hty))
  | ident hn hty =>
    rw [expr]
    refine .entered ((name_symbolValid hw hn).bind fun n hn' => ?_)
    exact .pure (.ident hn' hty)
  | int hv hty =>
    rw [expr]
    exact .entered (.pure (.int hv hty))
  | string hv hty =>
    rw [expr]
    exact .entered (.pure (.string hv hty))
  | bool hty =>
    rw [expr]
    exact .entered (.pure (.bool hty))
  | absent hty =>
    rw [expr]
    exact .entered (.pure (.absent hty))

theorem binding_symbolValid {b : Binding} (h : b.SymbolValid t) :
    Yields (w.binding b) (·.SymbolValid t) := by
  refine .andThen fun _ => (name_symbolValid hw h.name).bind fun n hn => ?_
  refine (typeName_symbolValid hw h.typeName).bind fun tn htn => ?_
  have hinit : Yields (b.init.mapM w.expr) fun i => ∀ e ∈ i, e.SymbolValid t := by
    cases hi : b.init with
    | none => exact .pure (by simp)
    | some i =>
      have hi' := expr_symbolValid hw (h.init i hi)
      exact hi'.bind fun i hi => .pure (by simpa using hi)
  exact hinit.bind fun i hi => .pure ⟨hn, htn, hi⟩

theorem formal_symbolValid {f : Formal} (h : f.SymbolValid t) :
    Yields (w.formal f) (·.SymbolValid t) := by
  refine .andThen fun _ => (name_symbolValid hw h.name).bind fun n hn => ?_
  exact (typeName_symbolValid hw h.typeName).bind fun tn htn => .pure ⟨hn, htn⟩

theorem feature_symbolValid {f : Feature} (h : f.SymbolValid t) :
    Yields (w.feature f) (·.SymbolValid t) := by
  cases f with
  | method m =>
    have h : m.SymbolValid t := h
    refine .entered ((name_symbolValid hw h.name).bind fun n hn => ?_)
    refine (Yields.mapM fun f hf => formal_symbolValid hw (h.params f hf)).bind fun params hp => ?_
    refine (typeName_symbolValid hw h.returnType).bind fun ret hret => ?_
    exact (expr_symbolValid hw h.body).bind fun body hbody => .pure ⟨hn, hp, hret, hbody⟩
  | attr b =>
    exact .entered ((binding_symbolValid hw h).bind fun b hb => .pure hb)

theorem class_symbolValid {c : Class} (h : c.SymbolValid t) :
    Yields (w.class c) (·.SymbolValid t) := by
  refine .andThen fun _ => (typeName_symbolValid hw h.name).bind fun n hn => ?_
  refine (typeName_symbolValid hw h.parent).bind fun parent hparent => ?_
  refine (Yields.mapM fun f hf => feature_symbolValid hw (h.features f hf)).bind fun fs hfs => ?_
  exact .pure ⟨hn, hparent, h.file, hfs⟩

/-- A program keeps valid symbols on a walk that keeps names valid. -/
theorem program_symbolValid {p : Program} (h : p.SymbolValid t) :
    Yields (w.program p) (·.SymbolValid t) := by
  refine .andThen fun _ => ?_
  exact (Yields.mapM fun c hc => class_symbolValid hw (h c hc)).bind fun cs hcs => .pure hcs

end Walker

/-- A name of the table can take the place of another one. -/
theorem Program.SymbolValid.rename {t : SymbolTables} {p : Program} (h : p.SymbolValid t)
    (old : Symbol) {new : Symbol} (hnew : t.Has .ids new) : (p.rename old new).1.SymbolValid t := by
  refine Walker.program_symbolValid (fun n hn count => ?_) h 0
  show (if n.symbol = old then ((⟨new, n.span⟩ : Name), count + 1) else (n, count)).1.SymbolValid t
  by_cases hold : n.symbol = old
  · rw [if_pos hold]
    exact hnew
  · rw [if_neg hold]
    exact hn

end CoolTypes
