import CoolTypes.Proofs.Syntax.Visits
import Mathlib.Data.List.Basic

/-!
# Programs with other labels

A relabelling says what takes the place of the symbols in names, of the spans and of the files of a program.
The nodes of a relabelled program are the nodes of the program, relabelled one by one
(`Program.visits_relabel`), and a relabelling that gives every node its labels back restores the program
(`Program.relabel_undo`).
-/

namespace CoolTypes

/-- What takes the place of the symbols in names, of spans and of files. -/
structure Relabelling where
  symbol : Symbol → Symbol := id
  span : Span → Span := id
  file : Symbol → Symbol := id

variable (r : Relabelling)

/-- The name with other labels. -/
def Name.relabel (n : Name) : Name := ⟨r.symbol n.symbol, r.span n.span⟩

mutual

/-- The expression with other labels. -/
def Expr.relabel : Expr → Expr
  | .assign n e s t => .assign (n.relabel r) (relabel e) (r.span s) t
  | .call o m args s t => .call (relabelReceiver o) (m.relabel r) (relabelAll args) (r.span s) t
  | .cond a b c s t => .cond (relabel a) (relabel b) (relabel c) (r.span s) t
  | .loop a b s t => .loop (relabel a) (relabel b) (r.span s) t
  | .block es s t => .block (relabelAll es) (r.span s) t
  | .letIn ⟨n, tn, init, bs⟩ e s t =>
    .letIn ⟨n.relabel r, tn.relabel r, relabelInit init, r.span bs⟩ (relabel e) (r.span s) t
  | .caseOf e arms s t => .caseOf (relabel e) (relabelArms arms) (r.span s) t
  | .new n s t => .new (n.relabel r) (r.span s) t
  | .binary op a b s t => .binary op (relabel a) (relabel b) (r.span s) t
  | .unary op a s t => .unary op (relabel a) (r.span s) t
  | .ident n t => .ident (n.relabel r) t
  | .int v s t => .int v (r.span s) t
  | .string v s t => .string v (r.span s) t
  | .bool v s t => .bool v (r.span s) t
  | .absent s t => .absent (r.span s) t

/-- The receiver with other labels. -/
def Expr.relabelReceiver : Receiver → Receiver
  | .implicit => .implicit
  | .dynamic o => .dynamic (relabel o)
  | .static o n => .static (relabel o) (n.relabel r)

/-- The initial value with other labels, if there is one. -/
def Expr.relabelInit : Option Expr → Option Expr
  | none => none
  | some i => some (relabel i)

/-- The expressions with other labels. -/
def Expr.relabelAll : List Expr → List Expr
  | [] => []
  | e :: rest => relabel e :: relabelAll rest

/-- The case branches with other labels. -/
def Expr.relabelArms : List Arm → List Arm
  | [] => []
  | ⟨n, tn, e, s⟩ :: rest => ⟨n.relabel r, tn.relabel r, relabel e, r.span s⟩ :: relabelArms rest

end

/-- The case branch with other labels. -/
def Arm.relabel (a : Arm) : Arm :=
  ⟨a.name.relabel r, a.typeName.relabel r, a.body.relabel r, r.span a.span⟩

/-- The binding with other labels. -/
def Binding.relabel (b : Binding) : Binding :=
  ⟨b.name.relabel r, b.typeName.relabel r, b.init.map (Expr.relabel r), r.span b.span⟩

/-- The parameter with other labels. -/
def Formal.relabel (f : Formal) : Formal :=
  ⟨f.name.relabel r, f.typeName.relabel r, r.span f.span⟩

/-- The feature with other labels. -/
def Feature.relabel : Feature → Feature
  | method m =>
    .method ⟨m.name.relabel r, m.params.map (Formal.relabel r), m.returnType.relabel r,
      m.body.relabel r, r.span m.span⟩
  | attr b => .attr (b.relabel r)

/-- The class with other labels. -/
def Class.relabel (c : Class) : Class :=
  ⟨c.name.relabel r, c.parent.relabel r, r.file c.file, c.features.map (Feature.relabel r),
    r.span c.span⟩

/-- The program with other labels. -/
def Program.relabel (p : Program) : Program := ⟨p.classes.map (Class.relabel r), r.span p.span⟩

/-! ## Parts of expressions -/

namespace Expr

theorem relabelInit_eq (init : Option Expr) : relabelInit r init = init.map (relabel r) := by
  cases init <;> rfl

theorem relabelAll_eq (es : List Expr) : relabelAll r es = es.map (relabel r) := by
  induction es with
  | nil => rfl
  | cons e rest ih => rw [relabelAll, ih, List.map_cons]

theorem relabelArms_eq (arms : List Arm) : relabelArms r arms = arms.map (Arm.relabel r) := by
  induction arms with
  | nil => rfl
  | cons a rest ih =>
    obtain ⟨n, tn, e, s⟩ := a
    rw [relabelArms, ih, List.map_cons]
    rfl

theorem relabel_letIn (b : Binding) (e : Expr) (s : Span) (t : Option Ty) :
    relabel r (letIn b e s t) = .letIn (b.relabel r) (e.relabel r) (r.span s) t := by
  obtain ⟨n, tn, init, bs⟩ := b
  rw [relabel, relabelInit_eq]
  rfl

end Expr

/-! ## Nodes -/

/-- The node with other labels. -/
def Visit.relabel : Visit → Visit
  | .program s => .program (r.span s)
  | .class file s => .class (r.file file) (r.span s)
  | .feature s => .feature (r.span s)
  | .method s => .method (r.span s)
  | .attribute s => .attribute (r.span s)
  | .expr ty s => .expr ty (r.span s)
  | .form f s => .form f (r.span s)
  | .int v s => .int v (r.span s)
  | .string v s => .string v (r.span s)
  | .formal s => .formal (r.span s)
  | .arm s => .arm (r.span s)
  | .typeName s => .typeName (r.span s)
  | .binding s => .binding (r.span s)
  | .receiver => .receiver
  | .name n => .name (n.relabel r)

theorem Name.typeVisits_relabel (n : Name) :
    (n.relabel r).typeVisits = n.typeVisits.map (Visit.relabel r) := rfl

theorem Receiver.visits_relabel {o : Receiver}
    (h : ∀ e ∈ o.object?, (e.relabel r).visits = e.visits.map (Visit.relabel r)) :
    (Expr.relabelReceiver r o).visits = o.visits.map (Visit.relabel r) := by
  cases o with
  | implicit => rfl
  | dynamic e => simp [Expr.relabelReceiver, visits, object?, typeName?, h e rfl]
  | static e n =>
    simp [Expr.relabelReceiver, visits, object?, typeName?, h e rfl, Name.typeVisits_relabel]

theorem Binding.visits_relabel {b : Binding}
    (h : ∀ i ∈ b.init, (i.relabel r).visits = i.visits.map (Visit.relabel r)) :
    (b.relabel r).visits = b.visits.map (Visit.relabel r) := by
  cases hb : b.init with
  | none => simp [relabel, visits, hb, Name.typeVisits_relabel, Visit.relabel]
  | some i => simp [relabel, visits, hb, h i hb, Name.typeVisits_relabel, Visit.relabel]

theorem Arm.visits_relabel {a : Arm}
    (h : (a.body.relabel r).visits = a.body.visits.map (Visit.relabel r)) :
    (a.relabel r).visits = a.visits.map (Visit.relabel r) := by
  simp [relabel, visits, h, Name.typeVisits_relabel, Visit.relabel]

/-- The nodes of what has been relabelled one by one. -/
theorem flatMap_visits_relabel {α : Type} {f : α → α} {g : α → List Visit} {l : List α}
    (h : ∀ a ∈ l, g (f a) = (g a).map (Visit.relabel r)) :
    (l.map f).flatMap g = (l.flatMap g).map (Visit.relabel r) := by
  rw [List.flatMap_map, List.map_flatMap]
  exact List.flatMap_congr h

theorem Expr.visits_relabel (e : Expr) : (e.relabel r).visits = e.visits.map (Visit.relabel r) := by
  induction e using Expr.induction with
  | call o m args s t iho ihargs =>
    rw [relabel, relabelAll_eq, visits_call, visits_call, Receiver.visits_relabel r iho,
      flatMap_visits_relabel r ihargs]
    simp [Visit.relabel]
  | block es s t ih =>
    rw [relabel, relabelAll_eq, visits, visits, visitsAll_eq, visitsAll_eq,
      flatMap_visits_relabel r ih]
    simp [Visit.relabel]
  | letIn b e s t ihi ih =>
    rw [relabel_letIn, visits_letIn, visits_letIn, Binding.visits_relabel r ihi, ih]
    simp [Visit.relabel]
  | caseOf e arms s t ih iharms =>
    rw [relabel, relabelArms_eq, visits, visits, visitsArms_eq, visitsArms_eq, ih,
      flatMap_visits_relabel r fun a ha => Arm.visits_relabel r (iharms a ha)]
    simp [Visit.relabel]
  | assign n e s t ih => simp [relabel, visits, Visit.relabel, ih]
  | cond a b c s t iha ihb ihc => simp [relabel, visits, Visit.relabel, iha, ihb, ihc]
  | loop a b s t iha ihb => simp [relabel, visits, Visit.relabel, iha, ihb]
  | binary op a b s t iha ihb => simp [relabel, visits, Visit.relabel, iha, ihb]
  | unary op a s t ih => simp [relabel, visits, Visit.relabel, ih]
  | new n s t => simp [relabel, visits, Visit.relabel, Name.typeVisits_relabel]
  | ident | int | string | bool | absent => rfl

theorem Formal.visits_relabel (f : Formal) :
    (f.relabel r).visits = f.visits.map (Visit.relabel r) := rfl

theorem Feature.visits_relabel (f : Feature) :
    (f.relabel r).visits = f.visits.map (Visit.relabel r) := by
  cases f with
  | method m =>
    have hparams := flatMap_visits_relabel r (f := Formal.relabel r) (g := Formal.visits)
      (l := m.params) fun f _ => f.visits_relabel r
    simp [relabel, visits, hparams, Expr.visits_relabel, Name.typeVisits_relabel, Visit.relabel]
  | attr b =>
    have hb := Binding.visits_relabel r (b := b) fun i _ => i.visits_relabel r
    rw [relabel, visits, hb]
    rfl

theorem Class.visits_relabel (c : Class) :
    (c.relabel r).visits = c.visits.map (Visit.relabel r) := by
  have hfeatures := flatMap_visits_relabel r (f := Feature.relabel r)
    (g := Feature.visits) (l := c.features) fun f _ => f.visits_relabel r
  simp [relabel, visits, hfeatures, Name.typeVisits_relabel, Visit.relabel]

/-- Relabelling a program relabels its nodes, and keeps their number and order. -/
theorem Program.visits_relabel (p : Program) :
    (p.relabel r).visits = p.visits.map (Visit.relabel r) := by
  have hclasses := flatMap_visits_relabel r (f := Class.relabel r) (g := Class.visits)
    (l := p.classes) fun c _ => c.visits_relabel r
  simp [relabel, visits, hclasses, Visit.relabel]

/-! ## One relabelling after the other -/

section Composition

/-- The second relabelling of what comes from the first one. -/
def Relabelling.andThen (r q : Relabelling) : Relabelling :=
  ⟨q.symbol ∘ r.symbol, q.span ∘ r.span, q.file ∘ r.file⟩

variable (q : Relabelling)

/-- What is relabelled twice one by one is relabelled twice as a whole. -/
theorem map_relabel_relabel {α : Type} {first second both : α → α} {l : List α}
    (h : ∀ a ∈ l, second (first a) = both a) : (l.map first).map second = l.map both := by
  rw [List.map_map]
  exact List.map_congr_left h

theorem Receiver.relabel_relabel {o : Receiver}
    (h : ∀ e ∈ o.object?, (e.relabel r).relabel q = e.relabel (r.andThen q)) :
    Expr.relabelReceiver q (Expr.relabelReceiver r o) = Expr.relabelReceiver (r.andThen q) o := by
  cases o with
  | implicit => rfl
  | dynamic e => exact congrArg Receiver.dynamic (h e rfl)
  | static e n => exact congrArg (Receiver.static · _) (h e rfl)

theorem Binding.relabel_relabel {b : Binding}
    (h : ∀ i ∈ b.init, (i.relabel r).relabel q = i.relabel (r.andThen q)) :
    (b.relabel r).relabel q = b.relabel (r.andThen q) := by
  obtain ⟨n, tn, init, s⟩ := b
  cases init with
  | none => rfl
  | some i => exact congrArg (fun i => Binding.mk _ _ (some i) _) (h i rfl)

theorem Arm.relabel_relabel {a : Arm}
    (h : (a.body.relabel r).relabel q = a.body.relabel (r.andThen q)) :
    (a.relabel r).relabel q = a.relabel (r.andThen q) :=
  congrArg (Arm.mk _ _ · _) h

theorem Expr.relabel_relabel (e : Expr) :
    (e.relabel r).relabel q = e.relabel (r.andThen q) := by
  induction e using Expr.induction with
  | assign n e s t ih => exact congrArg (Expr.assign _ · _ t) ih
  | call o m args s t iho ihargs =>
    simp only [relabel, relabelAll_eq, Receiver.relabel_relabel r q iho, map_relabel_relabel ihargs]
    rfl
  | cond a b c s t iha ihb ihc =>
    simp only [relabel, iha, ihb, ihc]
    rfl
  | loop a b s t iha ihb | binary op a b s t iha ihb =>
    simp only [relabel, iha, ihb]
    rfl
  | block es s t ih =>
    simp only [relabel, relabelAll_eq, map_relabel_relabel ih]
    rfl
  | letIn b e s t ihi ih =>
    simp only [relabel_letIn, Binding.relabel_relabel r q ihi, ih]
    rfl
  | caseOf e arms s t ih iharms =>
    have harms := map_relabel_relabel fun a ha => Arm.relabel_relabel r q (iharms a ha)
    simp only [relabel, relabelArms_eq, harms, ih]
    rfl
  | unary op a s t ih => exact congrArg (Expr.unary op · _ t) ih
  | new | ident | int | string | bool | absent => rfl

theorem Feature.relabel_relabel (f : Feature) :
    (f.relabel r).relabel q = f.relabel (r.andThen q) := by
  cases f with
  | method m =>
    have hparams : (m.params.map (Formal.relabel r)).map (Formal.relabel q) =
        m.params.map (Formal.relabel (r.andThen q)) := map_relabel_relabel fun _ _ => rfl
    simp only [relabel, hparams, Expr.relabel_relabel]
    rfl
  | attr b => exact congrArg Feature.attr (Binding.relabel_relabel r q fun i _ => i.relabel_relabel r q)

theorem Class.relabel_relabel (c : Class) :
    (c.relabel r).relabel q = c.relabel (r.andThen q) := by
  have hfeatures := map_relabel_relabel (l := c.features) fun f _ => f.relabel_relabel r q
  simp only [relabel, hfeatures]
  rfl

theorem Program.relabel_relabel (p : Program) :
    (p.relabel r).relabel q = p.relabel (r.andThen q) := by
  have hclasses := map_relabel_relabel (l := p.classes) fun c _ => c.relabel_relabel r q
  simp only [relabel, hclasses]
  rfl

end Composition

/-! ## Relabellings that change nothing -/

variable {r}

/-- What keeps one thing after the other keeps them all. -/
theorem map_relabel_self {α : Type} {relabel : α → α} {l : List α} (h : ∀ a ∈ l, relabel a = a) :
    l.map relabel = l :=
  (List.map_congr_left h).trans (List.map_id l)

theorem Name.relabel_self {n : Name} (h : ∀ v ∈ n.typeVisits, v.relabel r = v) :
    n.relabel r = n := by
  simpa [typeVisits, Visit.relabel] using h _ (List.mem_cons_of_mem _ List.mem_cons_self)

theorem Receiver.relabel_self {o : Receiver} (ho : ∀ e ∈ o.object?, e.relabel r = e)
    (hn : ∀ n ∈ o.typeName?, n.relabel r = n) : Expr.relabelReceiver r o = o := by
  cases o with
  | implicit => rfl
  | dynamic e => rw [Expr.relabelReceiver, ho e rfl]
  | static e n => rw [Expr.relabelReceiver, ho e rfl, hn n rfl]

theorem Binding.relabel_self {b : Binding} (hi : ∀ i ∈ b.init, i.relabel r = i)
    (h : ∀ v ∈ b.visits, v.relabel r = v) : b.relabel r = b := by
  obtain ⟨n, tn, init, s⟩ := b
  simp only [visits, List.cons_append, List.forall_mem_cons, List.forall_mem_append] at h
  obtain ⟨hs, hn, htn, -⟩ := h
  have hinit : init.map (Expr.relabel r) = init := by
    cases init with
    | none => rfl
    | some i => exact congrArg some (hi i rfl)
  simp only [relabel, Visit.binding.inj hs, Visit.name.inj hn, hinit, Name.relabel_self htn]

theorem Arm.relabel_self {a : Arm} (he : a.body.relabel r = a.body)
    (h : ∀ v ∈ a.visits, v.relabel r = v) : a.relabel r = a := by
  obtain ⟨n, tn, e, s⟩ := a
  simp only [visits, List.cons_append, List.forall_mem_cons, List.forall_mem_append] at h
  obtain ⟨hs, hn, htn, -⟩ := h
  simp only [relabel, Visit.arm.inj hs, Visit.name.inj hn, he, Name.relabel_self htn]

theorem Expr.relabel_self {e : Expr} (h : ∀ v ∈ e.visits, v.relabel r = v) : e.relabel r = e := by
  induction e using Expr.induction with
  | assign n e s t ih =>
    simp only [visits, List.forall_mem_cons] at h
    obtain ⟨-, hs, hn, he⟩ := h
    rw [relabel, ih he, (Visit.form.inj hs).2, Visit.name.inj hn]
  | call o m args s t iho ihargs =>
    simp only [visits_call, Receiver.visits, List.cons_append, List.forall_mem_cons,
      List.forall_mem_append, List.forall_mem_flatMap] at h
    obtain ⟨-, hs, -, ⟨ho, hon⟩, hm, hargs⟩ := h
    have ho : relabelReceiver r o = o := by
      refine Receiver.relabel_self (fun e he => iho e he ?_) fun n hn => Name.relabel_self ?_
      · simpa [Option.mem_def.mp he] using ho
      · simpa [Option.mem_def.mp hn] using hon
    have hargs := map_relabel_self fun e he => ihargs e he (hargs e he)
    rw [relabel, relabelAll_eq, hargs, ho, Visit.name.inj hm, (Visit.form.inj hs).2]
  | cond a b c s t iha ihb ihc =>
    simp only [visits, List.cons_append, List.forall_mem_cons, List.forall_mem_append] at h
    obtain ⟨-, hs, ⟨ha, hb⟩, hc⟩ := h
    rw [relabel, iha ha, ihb hb, ihc hc, (Visit.form.inj hs).2]
  | loop a b s t iha ihb =>
    simp only [visits, List.cons_append, List.forall_mem_cons, List.forall_mem_append] at h
    obtain ⟨-, hs, ha, hb⟩ := h
    rw [relabel, iha ha, ihb hb, (Visit.form.inj hs).2]
  | block es s t ih =>
    simp only [visits, visitsAll_eq, List.forall_mem_cons, List.forall_mem_flatMap] at h
    obtain ⟨-, hs, hes⟩ := h
    have hes := map_relabel_self fun e he => ih e he (hes e he)
    rw [relabel, relabelAll_eq, hes, (Visit.form.inj hs).2]
  | letIn b e s t ihi ih =>
    simp only [visits_letIn, List.cons_append, List.forall_mem_cons, List.forall_mem_append] at h
    obtain ⟨-, hs, hb, he⟩ := h
    have hi : ∀ i ∈ b.init, i.relabel r = i := by
      intro i hi
      refine ihi i hi fun v hv => hb v ?_
      simpa [Binding.visits, Option.mem_def.mp hi] using .inr (.inr (.inr hv))
    rw [relabel_letIn, Binding.relabel_self hi hb, ih he, (Visit.form.inj hs).2]
  | caseOf e arms s t ih iharms =>
    simp only [visits, visitsArms_eq, List.cons_append, List.forall_mem_cons,
      List.forall_mem_append, List.forall_mem_flatMap] at h
    obtain ⟨-, hs, he, harms⟩ := h
    have harms := map_relabel_self fun a ha => Arm.relabel_self
      (iharms a ha fun v hv => harms a ha v (List.mem_append_right _ hv)) (harms a ha)
    rw [relabel, relabelArms_eq, harms, ih he, (Visit.form.inj hs).2]
  | new n s t =>
    simp only [visits, List.forall_mem_cons] at h
    obtain ⟨-, hs, hn⟩ := h
    rw [relabel, (Visit.form.inj hs).2, Name.relabel_self hn]
  | binary op a b s t iha ihb =>
    simp only [visits, List.cons_append, List.forall_mem_cons, List.forall_mem_append] at h
    obtain ⟨-, hs, ha, hb⟩ := h
    rw [relabel, iha ha, ihb hb, (Visit.form.inj hs).2]
  | unary op a s t ih =>
    simp only [visits, List.forall_mem_cons] at h
    obtain ⟨-, hs, ha⟩ := h
    rw [relabel, ih ha, (Visit.form.inj hs).2]
  | ident n t =>
    have hn := h (.name n) (by simp [visits])
    rw [relabel, Visit.name.inj hn]
  | int v s t | string v s t | bool v s t | absent s t =>
    simpa [visits, Visit.relabel, relabel] using h

theorem Formal.relabel_self {f : Formal} (h : ∀ v ∈ f.visits, v.relabel r = v) :
    f.relabel r = f := by
  obtain ⟨n, tn, s⟩ := f
  simp only [visits, List.forall_mem_cons] at h
  obtain ⟨hs, hn, htn⟩ := h
  simp only [relabel, Visit.formal.inj hs, Visit.name.inj hn, Name.relabel_self htn]

theorem Feature.relabel_self {f : Feature} (h : ∀ v ∈ f.visits, v.relabel r = v) :
    f.relabel r = f := by
  cases f with
  | method m =>
    obtain ⟨n, params, ret, body, s⟩ := m
    simp only [visits, List.cons_append, List.forall_mem_cons, List.forall_mem_append,
      List.forall_mem_flatMap] at h
    obtain ⟨-, hs, hn, ⟨hparams, hret⟩, hbody⟩ := h
    have hparams := map_relabel_self fun f hf => Formal.relabel_self (hparams f hf)
    simp only [relabel, Visit.method.inj hs, Visit.name.inj hn, hparams, Name.relabel_self hret,
      Expr.relabel_self hbody]
  | attr b =>
    simp only [visits, List.forall_mem_cons] at h
    obtain ⟨-, -, hb⟩ := h
    have hi : ∀ i ∈ b.init, i.relabel r = i := by
      intro i hi
      refine Expr.relabel_self fun v hv => hb v ?_
      simpa [Binding.visits, Option.mem_def.mp hi] using .inr (.inr (.inr hv))
    rw [relabel, Binding.relabel_self hi hb]

theorem Class.relabel_self {c : Class} (h : ∀ v ∈ c.visits, v.relabel r = v) :
    c.relabel r = c := by
  obtain ⟨n, parent, file, fs, s⟩ := c
  simp only [visits, List.cons_append, List.forall_mem_cons, List.forall_mem_append,
    List.forall_mem_flatMap] at h
  obtain ⟨hc, ⟨hn, hparent⟩, hfeatures⟩ := h
  obtain ⟨hfile, hs⟩ := Visit.class.inj hc
  have hfeatures := map_relabel_self fun f hf => Feature.relabel_self (hfeatures f hf)
  simp only [relabel, hfile, hs, Name.relabel_self hn, Name.relabel_self hparent, hfeatures]

/-- A relabelling that keeps the labels of every node keeps the program. -/
theorem Program.relabel_self {p : Program} (h : ∀ v ∈ p.visits, v.relabel r = v) :
    p.relabel r = p := by
  obtain ⟨cs, s⟩ := p
  simp only [visits, List.forall_mem_cons, List.forall_mem_flatMap] at h
  obtain ⟨hs, hclasses⟩ := h
  have hclasses := map_relabel_self fun c hc => Class.relabel_self (hclasses c hc)
  simp only [relabel, Visit.program.inj hs, hclasses]

/-- A relabelling that gives every node its labels back restores the program. -/
theorem Program.relabel_undo {p : Program} {q : Relabelling}
    (h : ∀ v ∈ p.visits, v.relabel (r.andThen q) = v) : (p.relabel r).relabel q = p := by
  rw [relabel_relabel, relabel_self h]

end CoolTypes
