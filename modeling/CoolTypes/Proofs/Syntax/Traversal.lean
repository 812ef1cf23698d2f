import CoolTypes.Proofs.Syntax.Nodes
import CoolTypes.Proofs.Syntax.Relabelling

/-!
# Walks with a state

A walk with a state comes to the nodes that `Program.visits` lists, in the same order
(`Walker.program_goes`): what it does to the program depends on what it does to names, and what it does to
the state is done node by node along the list. Replacing one symbol by another is such a walk
(`Program.rename_eq`).
-/

namespace CoolTypes

/-- The name that a walk comes to at a node, if it comes to one. -/
def Visit.name? : Visit → Option Name
  | .name n => some n
  | _ => none

namespace Walker

variable {σ α β : Type}

/-- What a walk does to the state at a node. At a name it also asks what takes the place of the name. -/
def pass (w : Walker σ) (s : σ) : Visit → σ
  | .name n => (w.rename n (w.enter (.name n) s).2).2
  | v => (w.enter v s).2

/-- The walk goes through the nodes one after the other and returns a value that does not depend on the
state. -/
def Goes (w : Walker σ) (x : StateM σ α) (a : α) (vs : List Visit) : Prop :=
  ∀ s, x.run s = (a, vs.foldl w.pass s)

namespace Goes

variable {w : Walker σ} {x : StateM σ α} {f : α → StateM σ β} {a : α} {b : β} {vs ws : List Visit}

theorem pure (a : α) : w.Goes (Pure.pure a) a [] := fun _ => rfl

theorem bind (hx : w.Goes x a vs) (hf : w.Goes (f a) b ws) : w.Goes (x >>= f) b (vs ++ ws) := by
  intro s
  rw [StateT.run_bind, hx s, List.foldl_append]
  exact hf _

/-- The result of a walk is used once it is there. -/
theorem map (g : α → β) (hx : w.Goes x a vs) :
    w.Goes (x >>= fun a => Pure.pure (g a)) (g a) vs := by
  rw [← List.append_nil vs]
  exact hx.bind (pure (g a))

theorem fmap (g : α → β) (hx : w.Goes x a vs) : w.Goes (g <$> x) (g a) vs := hx.map g

/-- The walk has come to a node that is no name. -/
theorem entering {z : StateM σ β} {v : Visit} (hv : v.name? = none) (hz : w.Goes z b ws) :
    w.Goes (do w.enter v; z) b (v :: ws) := by
  have hpass : ∀ s, w.pass s v = (w.enter v s).2 := by
    intro s
    cases v with
    | name n => cases hv
    | _ => rfl
  intro s
  rw [List.foldl_cons, hpass]
  exact hz _

/-- The walk has come to an expression and to its form. -/
theorem entered {z : StateM σ β} {t : Option Ty} {s : Span} {v : Visit} (hv : v.name? = none)
    (hz : w.Goes z b ws) :
    w.Goes (do w.enter (.expr t s); w.enter v; z) b (.expr t s :: v :: ws) :=
  entering rfl (entering hv hz)

theorem mapM {f : α → StateM σ β} {g : α → β} {visits : α → List Visit} {l : List α}
    (h : ∀ a ∈ l, w.Goes (f a) (g a) (visits a)) :
    w.Goes (l.mapM f) (l.map g) (l.flatMap visits) := by
  induction l with
  | nil => exact pure []
  | cons a rest ih =>
    rw [List.mapM_cons]
    have hrest := ih fun a ha => h a (List.mem_cons_of_mem _ ha)
    exact (h a List.mem_cons_self).bind (hrest.map _)

end Goes

/-- The walk puts names in the place of names by their symbols, whatever the state. -/
def Replaces (w : Walker σ) (ρ : Symbol → Symbol) : Prop :=
  ∀ n s, (w.rename n s).1 = ⟨ρ n.symbol, n.span⟩

variable {w : Walker σ} {ρ : Symbol → Symbol}

theorem exprs_goes {g : Expr → Expr} {es : List Expr}
    (h : ∀ e ∈ es, w.Goes (w.expr e) (g e) e.visits) :
    w.Goes (w.exprs es) (es.map g) (es.flatMap Expr.visits) := by
  induction es with
  | nil => exact .pure []
  | cons e rest ih =>
    rw [exprs]
    have hrest := ih fun e he => h e (List.mem_cons_of_mem _ he)
    exact (h e List.mem_cons_self).bind (hrest.map _)

variable (hw : w.Replaces ρ)

include hw

theorem name_goes (n : Name) : w.Goes (w.name n) (n.relabel ⟨ρ, id, id⟩) [.name n] :=
  fun _ => Prod.ext (hw n _) rfl

theorem typeName_goes (n : Name) :
    w.Goes (w.typeName n) (n.relabel ⟨ρ, id, id⟩) n.typeVisits :=
  .entering rfl (name_goes hw n)

theorem arms_goes {arms : List Arm}
    (h : ∀ a ∈ arms, w.Goes (w.expr a.body) (a.body.relabel ⟨ρ, id, id⟩) a.body.visits) :
    w.Goes (w.arms arms) (arms.map (Arm.relabel ⟨ρ, id, id⟩)) (arms.flatMap Arm.visits) := by
  induction arms with
  | nil => exact .pure []
  | cons a rest ih =>
    obtain ⟨n, tn, e, s⟩ := a
    rw [List.forall_mem_cons] at h
    rw [Walker.arms, List.flatMap_cons, Arm.visits]
    simp only [List.cons_append, List.append_assoc]
    refine .entering rfl ((name_goes hw n).bind ((typeName_goes hw tn).bind ?_))
    exact h.1.bind ((ih h.2).map _)

/-- The walk through what follows the receiver of a call. -/
theorem call_goes (o : Receiver) (m : Name) {args : List Expr} (s : Span) (t : Option Ty)
    (h : ∀ e ∈ args, w.Goes (w.expr e) (e.relabel ⟨ρ, id, id⟩) e.visits) :
    w.Goes
      (do
        let m ← w.name m
        return Expr.call o m (← w.exprs args) s t)
      (.call o (m.relabel ⟨ρ, id, id⟩) (args.map (Expr.relabel ⟨ρ, id, id⟩)) s t)
      (.name m :: args.flatMap Expr.visits) :=
  (name_goes hw m).bind ((exprs_goes h).map _)

/-- A walk with a state goes through the nodes of an expression. -/
theorem expr_goes (e : Expr) : w.Goes (w.expr e) (e.relabel ⟨ρ, id, id⟩) e.visits := by
  induction e using Expr.induction with
  | assign n e s t ih =>
    rw [expr, Expr.visits, Expr.relabel]
    exact .entered rfl ((name_goes hw n).bind (ih.map _))
  | call o m args s t iho ihargs =>
    rw [Expr.visits_call, Expr.relabel, Expr.relabelAll_eq]
    cases o with
    | implicit =>
      rw [expr]
      refine .entered rfl (.entering rfl ?_)
      exact (Goes.pure _).bind (call_goes hw _ m s t ihargs)
    | dynamic o =>
      rw [expr]
      refine .entered rfl (.entering rfl ?_)
      have ho := (iho o rfl).fmap Receiver.dynamic
      have hvisits : (Receiver.dynamic o).visits = o.visits := List.append_nil _
      rw [hvisits]
      refine ho.bind ?_
      exact call_goes hw _ m s t ihargs
    | static o n =>
      rw [expr]
      refine .entered rfl (.entering rfl ?_)
      have hvisits : (Receiver.static o n).visits = o.visits ++ n.typeVisits := rfl
      rw [hvisits, List.append_eq, List.append_assoc]
      refine (iho o rfl).bind ((typeName_goes hw n).bind ?_)
      exact call_goes hw _ m s t ihargs
  | cond a b c s t iha ihb ihc =>
    rw [expr, Expr.visits, Expr.relabel, List.append_assoc]
    exact .entered rfl (iha.bind (ihb.bind (ihc.map _)))
  | loop a b s t iha ihb =>
    rw [expr, Expr.visits, Expr.relabel]
    exact .entered rfl (iha.bind (ihb.map _))
  | block es s t ih =>
    rw [expr, Expr.visits, Expr.visitsAll_eq, Expr.relabel, Expr.relabelAll_eq]
    exact .entered rfl ((exprs_goes ih).map _)
  | letIn b e s t ihi ih =>
    rw [Expr.visits_letIn, Expr.relabel_letIn]
    obtain ⟨n, tn, init, bs⟩ := b
    rw [expr]
    refine .entered rfl (.entering rfl ?_)
    refine (name_goes hw n).bind ?_
    refine (typeName_goes hw tn).bind ?_
    cases init with
    | none => exact (Goes.pure none).bind (ih.map _)
    | some i =>
      have hi := (ihi i rfl).fmap some
      exact hi.bind (ih.map _)
  | caseOf e arms s t ih iharms =>
    rw [expr, Expr.visits, Expr.visitsArms_eq, Expr.relabel, Expr.relabelArms_eq]
    exact .entered rfl (ih.bind ((arms_goes hw iharms).map _))
  | new n s t =>
    rw [expr, Expr.visits, Expr.relabel]
    exact .entered rfl ((typeName_goes hw n).map _)
  | binary op a b s t iha ihb =>
    rw [expr, Expr.visits, Expr.relabel]
    exact .entered rfl (iha.bind (ihb.map _))
  | unary op a s t ih =>
    rw [expr, Expr.visits, Expr.relabel]
    exact .entered rfl (ih.map _)
  | ident n t =>
    rw [expr, Expr.visits, Expr.relabel]
    exact .entered rfl ((name_goes hw n).map _)
  | int v s t | string v s t | bool v s t | absent s t =>
    rw [expr, Expr.visits, Expr.relabel]
    exact .entered rfl (.pure _)

theorem binding_goes (b : Binding) :
    w.Goes (w.binding b) (b.relabel ⟨ρ, id, id⟩) b.visits := by
  refine .entering rfl ((name_goes hw b.name).bind ?_)
  refine (typeName_goes hw b.typeName).bind ?_
  have hinit : w.Goes (b.init.mapM w.expr) (b.init.map (Expr.relabel ⟨ρ, id, id⟩))
      ((b.init.map Expr.visits).getD []) := by
    cases b.init with
    | none => exact .pure none
    | some i => exact (expr_goes hw i).fmap some
  exact hinit.map _

theorem formal_goes (f : Formal) : w.Goes (w.formal f) (f.relabel ⟨ρ, id, id⟩) f.visits :=
  .entering rfl ((name_goes hw f.name).bind ((typeName_goes hw f.typeName).map _))

theorem feature_goes (f : Feature) : w.Goes (w.feature f) (f.relabel ⟨ρ, id, id⟩) f.visits := by
  cases f with
  | method m =>
    simp only [Feature.visits, List.cons_append, List.append_assoc]
    refine .entering rfl (.entering rfl ((name_goes hw m.name).bind ?_))
    refine (Goes.mapM fun f _ => formal_goes hw f).bind ?_
    exact (typeName_goes hw m.returnType).bind ((expr_goes hw m.body).map _)
  | attr b =>
    exact .entering rfl (.entering rfl ((binding_goes hw b).map _))

theorem class_goes (c : Class) : w.Goes (w.class c) (c.relabel ⟨ρ, id, id⟩) c.visits := by
  simp only [Class.visits, List.cons_append, List.append_assoc]
  refine .entering rfl ((typeName_goes hw c.name).bind ?_)
  refine (typeName_goes hw c.parent).bind ?_
  exact (Goes.mapM fun f _ => feature_goes hw f).map _

/-- A walk with a state goes through the nodes of the program, in the order in which they are listed. -/
theorem program_goes (p : Program) : w.Goes (w.program p) (p.relabel ⟨ρ, id, id⟩) p.visits :=
  .entering rfl ((Goes.mapM fun c _ => class_goes hw c).map _)

end Walker

/-! ## Walks that keep names -/

/-- A walk that keeps every name keeps the program, and its state depends on the nodes only. -/
theorem Walker.program_run {σ : Type} {w : Walker σ} (hw : ∀ n s, (w.rename n s).1 = n)
    (p : Program) (s : σ) : (w.program p).run s = (p, p.visits.foldl w.pass s) := by
  have hp : p.relabel ⟨id, id, id⟩ = p := Program.relabel_self fun v _ => by cases v <;> rfl
  rw [program_goes (ρ := id) hw p s, hp]

/-! ## Replacing a symbol -/

/-- The names of a program, in the order of a walk. -/
def Program.names (p : Program) : List Name := p.visits.filterMap Visit.name?

/-- How many names of a program have a symbol. -/
def Program.uses (p : Program) (a : Symbol) : Nat := p.names.countP (·.symbol = a)

/-- One symbol stands in the place of another one, and all other labels stay. -/
def Relabelling.replacing (a b : Symbol) : Relabelling := ⟨fun c => if c = a then b else c, id, id⟩

theorem Program.names_relabel (p : Program) (r : Relabelling) :
    (p.relabel r).names = p.names.map (Name.relabel r) := by
  rw [names, visits_relabel, List.filterMap_map, names, List.map_filterMap]
  refine List.filterMap_congr fun v _ => ?_
  cases v <;> rfl

/-- A walk that replaces a symbol counts a name that has it, and puts the new symbol in its place. -/
theorem Walker.replacing_rename (a b : Symbol) (n : Name) (k : Nat) :
    (replacing a b).rename n k =
      (n.relabel (.replacing a b), k + if n.symbol = a then 1 else 0) := by
  show (if n.symbol = a then ((⟨b, n.span⟩ : Name), k + 1) else (n, k)) =
    (⟨if n.symbol = a then b else n.symbol, n.span⟩, k + if n.symbol = a then 1 else 0)
  by_cases hn : n.symbol = a
  · simp only [if_pos hn]
  · simp only [if_neg hn, Nat.add_zero]

theorem Walker.foldl_pass_replacing (a b : Symbol) (vs : List Visit) (k : Nat) :
    vs.foldl (replacing a b).pass k = k + (vs.filterMap Visit.name?).countP (·.symbol = a) := by
  induction vs generalizing k with
  | nil => rfl
  | cons v rest ih =>
    rw [List.foldl_cons, ih]
    cases v with
    | name n =>
      have hpass : (replacing a b).pass k (.name n) = k + if n.symbol = a then 1 else 0 :=
        congrArg Prod.snd (replacing_rename a b n k)
      have hnames : (Visit.name n :: rest).filterMap Visit.name? = n :: rest.filterMap Visit.name? := rfl
      rw [hpass, hnames, List.countP_cons]
      simp only [decide_eq_true_eq]
      omega
    | _ => rfl

/-- Replacing a symbol changes the names that have it, and counts them. -/
theorem Program.rename_eq (p : Program) (a b : Symbol) :
    p.rename a b = (p.relabel (.replacing a b), p.uses a) := by
  have hw : (Walker.replacing a b).Replaces fun c => if c = a then b else c :=
    fun n k => congrArg Prod.fst (Walker.replacing_rename a b n k)
  have hrun := Walker.program_goes hw p 0
  rw [Walker.foldl_pass_replacing, Nat.zero_add] at hrun
  exact hrun

namespace Program

variable {a b : Symbol} (p : Program)

/-- No name has the symbol that has been replaced. -/
theorem uses_replaced (hab : a ≠ b) : (p.relabel (.replacing a b)).uses a = 0 := by
  rw [uses, names_relabel, List.countP_map, List.countP_eq_zero]
  intro n _
  by_cases hn : n.symbol = a
  · simp [Name.relabel, Relabelling.replacing, hn, hab.symm]
  · simp [Name.relabel, Relabelling.replacing, hn]

/-- The symbol that takes the place of another one has the names of both. -/
theorem uses_replacement (hab : a ≠ b) :
    (p.relabel (.replacing a b)).uses b = p.uses a + p.uses b := by
  rw [uses, names_relabel, List.countP_map, uses, uses]
  induction p.names with
  | nil => rfl
  | cons n rest ih =>
    rw [List.countP_cons, List.countP_cons, List.countP_cons, ih]
    by_cases hn : n.symbol = a
    · simp [Name.relabel, Relabelling.replacing, hn, hab]
      omega
    · simp [Name.relabel, Relabelling.replacing, hn]
      omega

/-- A symbol can take its place back from one that no name had before. -/
theorem relabel_back (hb : p.uses b = 0) :
    (p.relabel (.replacing a b)).relabel (.replacing b a) = p := by
  refine relabel_undo fun v hv => ?_
  cases v with
  | name n =>
    have hn : n.symbol ≠ b := by
      have hnames : n ∈ p.names := List.mem_filterMap.mpr ⟨_, hv, rfl⟩
      simpa using List.countP_eq_zero.mp hb n hnames
    obtain ⟨c, s⟩ := n
    by_cases ha : c = a
    · subst ha
      simp [Visit.relabel, Name.relabel, Relabelling.andThen, Relabelling.replacing]
    · simp [Visit.relabel, Name.relabel, Relabelling.andThen, Relabelling.replacing, ha, hn]
  | _ => rfl

end Program

/-- Both walks come to every node and every name of a program once, in source order, a node before what is
below it. A walk that replaces one symbol by another changes the names that have it and nothing else, and
it can be taken back if no name had the new symbol before. -/
theorem Program.walks_agree (p : Program) :
    (∃ nodes, (Node.program p).Lists nodes) ∧
    (∀ {σ : Type} (w : Walker σ), (∀ n s, (w.rename n s).1 = n) →
      ∀ s, (w.program p).run s = (p, p.visits.foldl w.pass s)) ∧
    ∀ a b q k, a ≠ b → p.rename a b = (q, k) →
      k = p.uses a ∧ q.uses a = 0 ∧ q.uses b = p.uses a + p.uses b ∧
      q = p.relabel (.replacing a b) ∧ q.visits = p.visits.map (Visit.relabel (.replacing a b)) ∧
      (p.uses b = 0 → (q.rename b a).1 = p) := by
  refine ⟨Node.exists_listing _, fun w hw s => Walker.program_run hw p s, ?_⟩
  intro a b q k hab hq
  rw [rename_eq, Prod.mk.injEq] at hq
  obtain ⟨rfl, rfl⟩ := hq
  refine ⟨rfl, p.uses_replaced hab, p.uses_replacement hab, rfl, p.visits_relabel _, fun hb => ?_⟩
  rw [rename_eq]
  exact p.relabel_back hb

/-- A class that has its own name in a signature, behind `new` and in a static dispatch. Its file has the
same symbol, and a node carries the class as static type. -/
def selfNamedProgram : Program :=
  let name (k : Nat) : Name := ⟨⟨k⟩, .synthetic⟩
  let object : Expr := .new (name 0) .synthetic (some (.named ⟨0⟩))
  let body : Expr := .call (.static object (name 0)) (name 2) [.ident (name 3) none] .synthetic none
  let method : Feature := .method ⟨name 2, [⟨name 3, name 0, .synthetic⟩], name 1, body, .synthetic⟩
  ⟨[⟨name 0, name 1, ⟨0⟩, [method], .synthetic⟩], .synthetic⟩

/-- A walk that keeps everything and counts nodes. -/
def Walker.counting : Walker Nat where
  enter _ count := ((), count + 1)
  rename n count := (n, count)

theorem Program.walks_agree_selfNamed :
    (Walker.counting.program selfNamedProgram).run 0 = (selfNamedProgram, 28) ∧
      ∃ q, selfNamedProgram.rename ⟨0⟩ ⟨7⟩ = (q, 4) ∧ q.uses ⟨0⟩ = 0 ∧ q.uses ⟨7⟩ = 4 ∧
        q.classes.map (·.file) = [⟨0⟩] ∧ (q.rename ⟨7⟩ ⟨0⟩).1 = selfNamedProgram := by
  obtain ⟨-, hrun, hrename⟩ := selfNamedProgram.walks_agree
  obtain ⟨hk, hold, hnew, hq, -, hback⟩ := hrename ⟨0⟩ ⟨7⟩ _ _ (by decide) rfl
  refine ⟨hrun Walker.counting (fun _ _ => rfl) 0, _, ?_, hold, hnew, ?_, hback rfl⟩
  · exact Prod.ext rfl hk
  · rw [hq]
    rfl

end CoolTypes
