import CoolTypes.Proofs.Syntax.Validity

/-!
# The check of symbols

The list of visits has every symbol of a program and no other (`Program.visits_valid_iff`), so the check
of symbols decides whether the program is symbol-valid (`checkSymbols_eq_true_iff`).
-/

namespace CoolTypes

/-! ## The nodes of lists and receivers -/

theorem Expr.visitsAll_eq (es : List Expr) : visitsAll es = es.flatMap visits := by
  induction es with
  | nil => rfl
  | cons e rest ih => rw [visitsAll, ih, List.flatMap_cons]

/-- The nodes of a case branch. -/
def Arm.visits (arm : Arm) : List Visit :=
  .arm arm.span :: .name arm.name :: arm.typeName.typeVisits ++ arm.body.visits

theorem Expr.visitsArms_eq (arms : List Arm) : visitsArms arms = arms.flatMap Arm.visits := by
  induction arms with
  | nil => rfl
  | cons arm rest ih =>
    obtain ⟨n, tn, e, s⟩ := arm
    rw [visitsArms, ih, List.flatMap_cons]
    rfl

/-- The nodes below a receiver. -/
def Receiver.visits (r : Receiver) : List Visit :=
  (r.object?.map Expr.visits).getD [] ++ (r.typeName?.map Name.typeVisits).getD []

theorem Expr.visits_call (r : Receiver) (m : Name) (args : List Expr) (s : Span) (ty : Option Ty) :
    (call r m args s ty).visits =
      .expr ty s :: .form .call s :: .receiver :: r.visits ++ .name m :: args.flatMap visits := by
  cases r with
  | implicit => rw [visits, visitsAll_eq]; rfl
  | dynamic o =>
    rw [visits, visitsAll_eq]
    simp [Receiver.visits, Receiver.object?, Receiver.typeName?]
  | static o n => rw [visits, visitsAll_eq]; rfl

theorem Expr.visits_letIn (b : Binding) (e : Expr) (s : Span) (ty : Option Ty) :
    (letIn b e s ty).visits = .expr ty s :: .form .letIn s :: b.visits ++ e.visits := by
  obtain ⟨n, tn, init, bs⟩ := b
  cases init with
  | none => rw [visits]; rfl
  | some i => rw [visits]; rfl

/-! ## The check of symbols -/

/-- The symbol that a node holds itself, if it holds one, belongs to its table. -/
def Visit.SymbolValid (t : SymbolTables) : Visit → Prop
  | .class file _ => t.Has .ids file
  | .expr ty _ => ∀ T ∈ ty, T.SymbolValid t
  | .name n => n.SymbolValid t
  | .int v _ => t.Has .ints v
  | .string v _ => t.Has .strings v
  | .program _ | .feature _ | .method _ | .attribute _ | .form .. | .formal _ | .arm _
  | .typeName _ | .binding _ | .receiver => True

variable {t : SymbolTables}

theorem Visit.symbolValid_iff {v : Visit} :
    v.SymbolValid t ↔ ∀ o ∈ v.occurrence?, t.Has o.table o.symbol := by
  cases v with
  | expr ty s =>
    cases ty with
    | none => simp [SymbolValid, occurrence?]
    | some T => cases T <;> simp [SymbolValid, occurrence?, Ty.SymbolValid]
  | _ => simp [SymbolValid, occurrence?, Name.SymbolValid]

theorem Occurrence.unknown?_eq_none_iff {o : Occurrence} :
    o.unknown? t = none ↔ t.Has o.table o.symbol := by
  unfold unknown? Interner.contains
  by_cases h : o.symbol.index < (t.table o.table).size
  · exact iff_of_true (by simp [h]) h
  · exact iff_of_false (by simp [h]) h

theorem Name.typeVisits_valid_iff {n : Name} :
    (∀ v ∈ n.typeVisits, v.SymbolValid t) ↔ n.SymbolValid t := by
  simp [typeVisits, Visit.SymbolValid]

theorem Receiver.visits_valid_iff {r : Receiver} : (∀ v ∈ r.visits, v.SymbolValid t) ↔
    (∀ o ∈ r.object?, ∀ v ∈ o.visits, v.SymbolValid t) ∧ ∀ n ∈ r.typeName?, n.SymbolValid t := by
  rw [visits, List.forall_mem_append]
  cases r with
  | implicit => simp [object?, typeName?]
  | dynamic o => simp [object?, typeName?]
  | static o n =>
    have hn : (∀ v ∈ n.typeVisits, v.SymbolValid t) ↔ n.SymbolValid t := Name.typeVisits_valid_iff
    simp [object?, typeName?, hn]

theorem Binding.visits_valid_iff {b : Binding} : (∀ v ∈ b.visits, v.SymbolValid t) ↔
    b.name.SymbolValid t ∧ b.typeName.SymbolValid t ∧
      ∀ i ∈ b.init, ∀ v ∈ i.visits, v.SymbolValid t := by
  rw [visits, List.cons_append, List.cons_append, List.forall_mem_cons, List.forall_mem_cons,
    List.forall_mem_append, Name.typeVisits_valid_iff]
  cases b.init <;> simp [Visit.SymbolValid]

theorem Arm.visits_valid_iff {arm : Arm} : (∀ v ∈ arm.visits, v.SymbolValid t) ↔
    arm.name.SymbolValid t ∧ arm.typeName.SymbolValid t ∧
      ∀ v ∈ arm.body.visits, v.SymbolValid t := by
  rw [visits, List.cons_append, List.cons_append, List.forall_mem_cons, List.forall_mem_cons,
    List.forall_mem_append, Name.typeVisits_valid_iff]
  exact and_iff_right trivial

/-- The walk misses no symbol of an expression. -/
theorem Expr.symbolValid_of_visits {e : Expr} (h : ∀ v ∈ e.visits, v.SymbolValid t) :
    e.SymbolValid t := by
  induction e using Expr.induction with
  | assign n e s ty ih =>
    rw [visits, List.forall_mem_cons, List.forall_mem_cons, List.forall_mem_cons] at h
    obtain ⟨hty, -, hn, he⟩ := h
    exact .assign hn (ih he) hty
  | call r m args s ty ihr ihargs =>
    simp only [visits_call, List.cons_append, List.forall_mem_cons, List.forall_mem_append,
      List.forall_mem_flatMap, Receiver.visits_valid_iff] at h
    obtain ⟨hty, -, -, ⟨ho, hn⟩, hm, hargs⟩ := h
    exact .call (fun o h => ihr o h (ho o h)) hn hm (fun e h => ihargs e h (hargs e h)) hty
  | cond a b c s ty iha ihb ihc =>
    simp only [visits, List.cons_append, List.forall_mem_cons, List.forall_mem_append] at h
    obtain ⟨hty, -, ⟨ha, hb⟩, hc⟩ := h
    exact .cond (iha ha) (ihb hb) (ihc hc) hty
  | loop a b s ty iha ihb =>
    simp only [visits, List.cons_append, List.forall_mem_cons, List.forall_mem_append] at h
    obtain ⟨hty, -, ha, hb⟩ := h
    exact .loop (iha ha) (ihb hb) hty
  | block es s ty ih =>
    simp only [visits, visitsAll_eq, List.forall_mem_cons, List.forall_mem_flatMap] at h
    obtain ⟨hty, -, hes⟩ := h
    exact .block (fun e h => ih e h (hes e h)) hty
  | letIn b e s ty ihi ih =>
    simp only [visits_letIn, List.cons_append, List.forall_mem_cons, List.forall_mem_append,
      Binding.visits_valid_iff] at h
    obtain ⟨hty, -, ⟨hn, htn, hi⟩, he⟩ := h
    exact .letIn hn htn (fun i h => ihi i h (hi i h)) (ih he) hty
  | caseOf e arms s ty ih iharms =>
    simp only [visits, visitsArms_eq, List.cons_append, List.forall_mem_cons,
      List.forall_mem_append, List.forall_mem_flatMap, Arm.visits_valid_iff] at h
    obtain ⟨hty, -, he, harms⟩ := h
    exact .caseOf (ih he) (fun arm h => (harms arm h).1) (fun arm h => (harms arm h).2.1)
      (fun arm h => iharms arm h (harms arm h).2.2) hty
  | new n s ty =>
    simp only [visits, List.forall_mem_cons, Name.typeVisits_valid_iff] at h
    exact .new h.2.2 h.1
  | binary op a b s ty iha ihb =>
    simp only [visits, List.cons_append, List.forall_mem_cons, List.forall_mem_append] at h
    obtain ⟨hty, -, ha, hb⟩ := h
    exact .binary (iha ha) (ihb hb) hty
  | unary op a s ty ih =>
    rw [visits, List.forall_mem_cons, List.forall_mem_cons] at h
    exact .unary (ih h.2.2) h.1
  | ident n ty =>
    rw [visits, List.forall_mem_cons, List.forall_mem_cons, List.forall_mem_cons] at h
    exact .ident h.2.2.1 h.1
  | int v s ty =>
    rw [visits, List.forall_mem_cons, List.forall_mem_cons] at h
    exact .int h.2.1 h.1
  | string v s ty =>
    rw [visits, List.forall_mem_cons, List.forall_mem_cons] at h
    exact .string h.2.1 h.1
  | bool v s ty =>
    rw [visits, List.forall_mem_cons] at h
    exact .bool h.1
  | absent s ty =>
    rw [visits, List.forall_mem_cons] at h
    exact .absent h.1

/-- The walk reaches no symbol that is not in the expression. -/
theorem Expr.SymbolValid.visits {e : Expr} (h : e.SymbolValid t) :
    ∀ v ∈ e.visits, v.SymbolValid t := by
  induction h with
  | assign hn _ hty ih =>
    rw [Expr.visits, List.forall_mem_cons, List.forall_mem_cons, List.forall_mem_cons]
    exact ⟨hty, trivial, hn, ih⟩
  | call _ hn hm _ hty iho ihargs =>
    simp only [visits_call, List.cons_append, List.forall_mem_cons, List.forall_mem_append,
      List.forall_mem_flatMap, Receiver.visits_valid_iff]
    exact ⟨hty, trivial, trivial, ⟨iho, hn⟩, hm, ihargs⟩
  | cond _ _ _ hty iha ihb ihc =>
    simp only [Expr.visits, List.cons_append, List.forall_mem_cons, List.forall_mem_append]
    exact ⟨hty, trivial, ⟨iha, ihb⟩, ihc⟩
  | loop _ _ hty iha ihb | binary _ _ hty iha ihb =>
    simp only [Expr.visits, List.cons_append, List.forall_mem_cons, List.forall_mem_append]
    exact ⟨hty, trivial, iha, ihb⟩
  | block _ hty ih =>
    simp only [Expr.visits, visitsAll_eq, List.forall_mem_cons, List.forall_mem_flatMap]
    exact ⟨hty, trivial, ih⟩
  | letIn hn htn _ _ hty ihi ih =>
    simp only [visits_letIn, List.cons_append, List.forall_mem_cons, List.forall_mem_append,
      Binding.visits_valid_iff]
    exact ⟨hty, trivial, ⟨hn, htn, ihi⟩, ih⟩
  | caseOf _ hn htn _ hty ih iharms =>
    simp only [Expr.visits, visitsArms_eq, List.cons_append, List.forall_mem_cons,
      List.forall_mem_append, List.forall_mem_flatMap, Arm.visits_valid_iff]
    exact ⟨hty, trivial, ih, fun arm h => ⟨hn arm h, htn arm h, iharms arm h⟩⟩
  | new hn hty =>
    simp only [Expr.visits, List.forall_mem_cons, Name.typeVisits_valid_iff]
    exact ⟨hty, trivial, hn⟩
  | unary _ hty ih =>
    rw [Expr.visits, List.forall_mem_cons, List.forall_mem_cons]
    exact ⟨hty, trivial, ih⟩
  | ident hn hty =>
    rw [Expr.visits, List.forall_mem_cons, List.forall_mem_cons, List.forall_mem_cons]
    exact ⟨hty, trivial, hn, List.forall_mem_nil _⟩
  | int hv hty | string hv hty =>
    rw [Expr.visits, List.forall_mem_cons, List.forall_mem_cons]
    exact ⟨hty, hv, List.forall_mem_nil _⟩
  | bool hty | absent hty =>
    rw [Expr.visits, List.forall_mem_cons, List.forall_mem_cons]
    exact ⟨hty, trivial, List.forall_mem_nil _⟩

theorem Expr.visits_valid_iff {e : Expr} :
    (∀ v ∈ e.visits, v.SymbolValid t) ↔ e.SymbolValid t :=
  ⟨symbolValid_of_visits, SymbolValid.visits⟩

theorem Formal.visits_valid_iff {f : Formal} :
    (∀ v ∈ f.visits, v.SymbolValid t) ↔ f.SymbolValid t := by
  rw [visits, List.forall_mem_cons, List.forall_mem_cons, Name.typeVisits_valid_iff]
  exact ⟨fun ⟨_, hn, htn⟩ => ⟨hn, htn⟩, fun h => ⟨trivial, h.name, h.typeName⟩⟩

theorem Feature.visits_valid_iff {f : Feature} :
    (∀ v ∈ f.visits, v.SymbolValid t) ↔ f.SymbolValid t := by
  cases f with
  | method m =>
    simp only [visits, List.cons_append, List.forall_mem_cons, List.forall_mem_append,
      List.forall_mem_flatMap, Formal.visits_valid_iff, Name.typeVisits_valid_iff,
      Expr.visits_valid_iff]
    constructor
    · rintro ⟨-, -, hn, ⟨hparams, hret⟩, hbody⟩
      exact ⟨hn, hparams, hret, hbody⟩
    · rintro ⟨hn, hparams, hret, hbody⟩
      exact ⟨trivial, trivial, hn, ⟨hparams, hret⟩, hbody⟩
  | attr b =>
    rw [visits, List.forall_mem_cons, List.forall_mem_cons, Binding.visits_valid_iff]
    simp only [Expr.visits_valid_iff]
    constructor
    · rintro ⟨-, -, hn, htn, hi⟩
      exact ⟨hn, htn, hi⟩
    · rintro ⟨hn, htn, hi⟩
      exact ⟨trivial, trivial, hn, htn, hi⟩

theorem Class.visits_valid_iff {c : Class} :
    (∀ v ∈ c.visits, v.SymbolValid t) ↔ c.SymbolValid t := by
  simp only [visits, List.cons_append, List.forall_mem_cons, List.forall_mem_append,
    List.forall_mem_flatMap, Name.typeVisits_valid_iff, Feature.visits_valid_iff]
  constructor
  · rintro ⟨hfile, ⟨hn, hparent⟩, hfeatures⟩
    exact ⟨hn, hparent, hfile, hfeatures⟩
  · rintro ⟨hn, hparent, hfile, hfeatures⟩
    exact ⟨hfile, ⟨hn, hparent⟩, hfeatures⟩

theorem Program.visits_valid_iff {p : Program} :
    (∀ v ∈ p.visits, v.SymbolValid t) ↔ p.SymbolValid t := by
  simp only [visits, List.forall_mem_cons, List.forall_mem_flatMap, Class.visits_valid_iff]
  exact and_iff_right trivial

/-- The check of symbols finds nothing exactly if every symbol belongs to its table. -/
theorem CompilationUnit.checkSymbols_eq_true_iff {u : CompilationUnit} {s : Sink} :
    (u.checkSymbols s).1 = true ↔ u.SymbolValid := by
  rw [SymbolValid, ← Program.visits_valid_iff, checkSymbols, List.isEmpty_iff, unknownSymbols,
    List.filterMap_eq_nil_iff, Program.occurrences]
  simp only [List.mem_filterMap, Occurrence.unknown?_eq_none_iff, Visit.symbolValid_iff]
  constructor
  · intro h v hv o ho
    exact h o ⟨v, hv, ho⟩
  · rintro h o ⟨v, hv, ho⟩
    exact h v hv o ho

/-- The check of a symbol-valid unit succeeds and reports nothing. -/
theorem CompilationUnit.SymbolValid.checkSymbols_eq {u : CompilationUnit} (h : u.SymbolValid)
    (s : Sink) : u.checkSymbols s = (true, s) := by
  have hflag : (u.checkSymbols s).1 = true := checkSymbols_eq_true_iff.mpr h
  have hnone : u.unknownSymbols = [] := List.isEmpty_iff.mp hflag
  rw [checkSymbols, hnone]
  rfl

end CoolTypes
