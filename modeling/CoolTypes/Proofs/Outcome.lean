import CoolTypes.Proofs.Classes.Validation
import CoolTypes.Proofs.Diagnostics.Texts
import CoolTypes.Proofs.Typing.Annotation
import CoolTypes.Proofs.Typing.Units

/-!
# The outcome of an analysis

The analysis of a symbol-valid unit never fails, and all that it gives is a function of unit and stage: the
flag, the graph, the signatures, the program with its types, and the type errors that it adds to the sink,
whatever the sink holds and whoever listens to it (`SymbolValid.analyze_eq`).
-/

namespace CoolTypes

/-! ## The basic classes -/

theorem SymbolTables.le_addClassLiterals (t : SymbolTables) : t.Le t.addClassLiterals :=
  List.foldlRecOn (motive := t.Le) BuiltinClass.literalOrder _ (.refl t)
    fun u htu b _ => htu.trans (u.le_addString b.name)

namespace BasicClass

variable {t : SymbolTables}

theorem name_symbolValid (w : WellKnown) : (name t w).SymbolValid t := t.has_known w

theorem method_symbolValid (n : WellKnown) (params : List (WellKnown × WellKnown))
    (ret : WellKnown) : (method t n params ret).SymbolValid t := by
  refine ⟨name_symbolValid n, fun f hf => ?_, name_symbolValid ret, .absent (by simp)⟩
  obtain ⟨p, _, rfl⟩ := List.mem_map.mp hf
  exact ⟨name_symbolValid p.1, name_symbolValid p.2⟩

theorem slot_symbolValid (n : WellKnown) : (slot t n).SymbolValid t :=
  ⟨name_symbolValid n, name_symbolValid .primSlot, by simp⟩

theorem make_symbolValid (n parent : WellKnown) {features : List Feature}
    (h : ∀ f ∈ features, f.SymbolValid t) : (make t n parent features).SymbolValid t :=
  ⟨name_symbolValid n, name_symbolValid parent, t.has_known .basicFile, h⟩

theorem all_symbolValid : ∀ c ∈ all t, c.SymbolValid t := by
  simp only [all, List.forall_mem_cons, List.not_mem_nil, false_implies, implies_true, and_true]
  refine ⟨make_symbolValid _ _ ?_, make_symbolValid _ _ ?_, make_symbolValid _ _ ?_,
    make_symbolValid _ _ ?_, make_symbolValid _ _ ?_⟩
  all_goals
    simp [method_symbolValid, slot_symbolValid]

end BasicClass

/-- The signatures of symbol-valid classes make a symbol-valid setting. -/
theorem settingOf_symbolValid {t : SymbolTables} {classes : List Class}
    (h : ∀ c ∈ classes, c.SymbolValid t) : (settingOf t classes).SymbolValid :=
  settingOf_within (fun b => t.has_known b.wellKnown) fun c hc => (h c hc).typesIn

namespace CompilationUnit

variable {u : CompilationUnit}

/-- A symbol-valid unit with the basic classes in front is symbol-valid. -/
theorem SymbolValid.installBasicClasses (h : u.SymbolValid) : u.installBasicClasses.SymbolValid := by
  have hle := u.tables.le_addClassLiterals
  intro c hc
  rcases List.mem_append.mp hc with hc | hc
  · exact (BasicClass.all_symbolValid c hc).mono hle
  · exact (h c hc).mono hle

/-! ## What an analysis finds -/

/-- The check of the inheritance relation of a unit, with the basic classes in front. -/
def inheritance (u : CompilationUnit) : Inheritance :=
  checkInheritance u.installBasicClasses.tables u.installBasicClasses.program.classes

/-- Whether an analysis up to a stage checks the types. -/
def typesChecked (stage : Stage) (u : CompilationUnit) : Bool :=
  u.inheritance.isValid && stage = .typing

theorem wellFormed_of_typesChecked {stage : Stage} (h : u.typesChecked stage = true) :
    WellFormedHierarchy u.installBasicClasses.tables u.installBasicClasses.program.classes :=
  isValid_iff_wellFormed.mp (Bool.and_eq_true_iff.mp h).1

/-- What is reported in the code of a unit with the basic classes in front. -/
def codeReports (u : CompilationUnit) : List Report :=
  u.setting.programReports (fun _ => none) u.installBasicClasses.program

/-- Everything that an analysis reports, in order. -/
def findings (stage : Stage) (u : CompilationUnit) : List Report :=
  u.inheritance.reports ++
    if u.typesChecked stage then u.signatureReports ++ u.codeReports else []

/-- The type errors that an analysis tells. -/
def told (stage : Stage) (u : CompilationUnit) : List (TypeError String String) :=
  (u.findings stage).map (·.told u.installBasicClasses.tables)

/-- The unit with the basic classes in front and, if the types are checked, the types of all code. -/
def analyzed (stage : Stage) (u : CompilationUnit) : CompilationUnit where
  tables := u.installBasicClasses.tables
  program :=
    if u.typesChecked stage then
      u.setting.annotateProgram (fun _ => none) u.installBasicClasses.program
    else u.installBasicClasses.program

/-- What an analysis says about a unit. -/
def analysis (stage : Stage) (u : CompilationUnit) : Analysis where
  success := (u.findings stage).isEmpty
  graph := u.inheritance.graph
  signatures := if u.typesChecked stage then some u.setting.signatures else none

theorem graph_analysis (stage : Stage) (u : CompilationUnit) :
    (u.analysis stage).graph = u.inheritance.graph := rfl

theorem mem_signatures_analysis {stage : Stage} {sigs : Signatures} :
    sigs ∈ (u.analysis stage).signatures ↔
      u.typesChecked stage = true ∧ u.setting.signatures = sigs := by
  simp only [analysis, Option.mem_def, Option.ite_none_right_eq_some, Option.some.injEq]

@[simp] theorem isSome_signatures_analysis (stage : Stage) (u : CompilationUnit) :
    (u.analysis stage).signatures.isSome = u.typesChecked stage := by
  cases h : u.typesChecked stage <;> simp [analysis, h]

/-! ## The parts of the analysis -/

/-- All reports of an analysis over texts, in the order in which it comes to them. -/
def spelledFindings (stage : Stage) (u : CompilationUnit) :
    Except Fault (List (TypeError String String)) := do
  let inheritance ← u.inheritance.spell u.installBasicClasses.tables
  if u.typesChecked stage then
    let signatures ← u.signatureReports.mapM (·.spell u.installBasicClasses.tables)
    let code ← u.codeReports.mapM (·.spell u.installBasicClasses.tables)
    return inheritance ++ (signatures ++ code)
  else return inheritance

/-- If there are texts for all reports, they are what the reports tell. -/
theorem eq_told_of_spelledFindings {stage : Stage} {es : List (TypeError String String)}
    (h : u.spelledFindings stage = .ok es) : es = u.told stage := by
  obtain ⟨_, hinheritance, h⟩ := bind_eq_ok.mp h
  rw [told, findings, List.map_append, ← Inheritance.eq_of_spell hinheritance]
  by_cases hgo : u.typesChecked stage = true
  · obtain ⟨_, hsignatures, h⟩ := bind_eq_ok.mp ((if_pos hgo).symm.trans h)
    obtain ⟨_, hcode, h⟩ := bind_eq_ok.mp h
    cases h
    rw [if_pos hgo, List.map_append, eq_of_mapM_spell hsignatures, eq_of_mapM_spell hcode]
  · cases (if_neg hgo).symm.trans h
    rw [if_neg hgo, List.map_nil, List.append_nil]

/-- The check of the types with the outcome of its run. -/
theorem checkTypes_run (u : CompilationUnit) (s : Sink) :
    u.checkTypes (checkInheritance u.tables u.program.classes).graph s = do
      let Γ := settingOf u.tables u.program.classes
      let s ← s.reportOver u.tables
        (Signatures.collect u.tables (hierarchyOf u.tables u.program.classes) u.program.classes).2
      let s ← s.reportOver u.tables (Γ.programReports (fun _ => none) u.program)
      return (Γ.signatures, ⟨u.tables, Γ.annotateProgram (fun _ => none) u.program⟩, s) := by
  rw [checkTypes_eq]
  simp only [Setting.run_program]
  rfl

/-- An analysis tells the sink the texts of all reports, if there are such, and the rest of what it gives
does not depend on them. -/
theorem analyze_spelled (stage : Stage) (u : CompilationUnit) (s : Sink) :
    u.analyze stage s = do
      let es ← u.spelledFindings stage
      return (u.analysis stage, u.analyzed stage, s.reportTypeErrors es) := by
  have hrun : u.analyze stage s = do
      let es ← u.spelledFindings stage
      return (⟨(s.reportTypeErrors es).count == s.count, u.inheritance.graph,
        if u.typesChecked stage then some u.setting.signatures else none⟩, u.analyzed stage,
        s.reportTypeErrors es) := by
    have hvalidate : u.installBasicClasses.validate s = do
        let es ← u.inheritance.spell u.installBasicClasses.tables
        return (u.inheritance, s.reportTypeErrors es) := rfl
    have hcheck : ∀ s, u.installBasicClasses.checkTypes u.inheritance.graph s = do
        let es ← u.signatureReports.mapM (·.spell u.installBasicClasses.tables)
        let es' ← u.codeReports.mapM (·.spell u.installBasicClasses.tables)
        return (u.setting.signatures, ⟨u.installBasicClasses.tables,
          u.setting.annotateProgram (fun _ => none) u.installBasicClasses.program⟩,
          s.reportTypeErrors (es ++ es')) := fun s => by
      refine (u.installBasicClasses.checkTypes_run s).trans ?_
      simp only [Sink.reportOver, bind_assoc, pure_bind, Sink.reportTypeErrors_append]
      rfl
    by_cases hgo : u.typesChecked stage = true
    · have hgo' : (u.inheritance.isValid && decide (stage = .typing)) = true := hgo
      simp only [analyze, analyzeInstalled, hvalidate, bind_assoc, pure_bind, spelledFindings, analyzed, hgo, hgo',
        if_true, hcheck, Sink.reportTypeErrors_append]
    · have hgo' : ¬ (u.inheritance.isValid && decide (stage = .typing)) = true := hgo
      simp only [analyze, analyzeInstalled, hvalidate, bind_assoc, pure_bind, spelledFindings, analyzed, if_neg hgo,
        if_neg hgo']
  rw [hrun]
  cases hes : u.spelledFindings stage with
  | error e => rfl
  | ok es =>
    have hflag : ((s.reportTypeErrors es).count == s.count) = (u.findings stage).isEmpty := by
      rw [Sink.count_reportTypeErrors, eq_told_of_spelledFindings hes, told, List.length_map,
        Bool.eq_iff_iff, beq_iff_eq, List.isEmpty_iff_length_eq_zero]
      omega
    rw [analysis, ← hflag]
    rfl

/-- An analysis that comes to an end gives what its unit and stage say. -/
theorem eq_of_analyze {stage : Stage} {s s' : Sink} {a : Analysis} {u' : CompilationUnit}
    (h : u.analyze stage s = .ok (a, u', s')) :
    a = u.analysis stage ∧ u' = u.analyzed stage ∧ s' = s.reportTypeErrors (u.told stage) := by
  rw [analyze_spelled] at h
  obtain ⟨es, hes, h⟩ := bind_eq_ok.mp h
  cases h
  exact ⟨rfl, rfl, by rw [eq_told_of_spelledFindings hes]⟩

/-- For all reports on a symbol-valid unit there are texts. -/
theorem SymbolValid.spelledFindings_ok (h : u.SymbolValid) (stage : Stage) :
    u.spelledFindings stage = .ok (u.told stage) := by
  have hu := h.installBasicClasses
  have hnames : ∀ c ∈ u.installBasicClasses.program.classes,
      c.NamesValid u.installBasicClasses.tables := fun c hc => ⟨(hu c hc).name, (hu c hc).parent⟩
  have henv : Env.SymbolValid u.installBasicClasses.tables fun _ => none :=
    fun _ _ hn => absurd hn (by simp)
  have hinheritance := Inheritance.spell_eq (fun _ => verdict_names hnames)
    (closing_symbolValid hnames)
  have hsignatures : ∀ r ∈ u.signatureReports, r.SymbolValid u.installBasicClasses.tables :=
    Signatures.collect_symbolValid (h := u.setting.hierarchy)
      (u.installBasicClasses.tables.has_known .object) hu
  have hcode : ∀ r ∈ u.codeReports, r.SymbolValid u.installBasicClasses.tables :=
    (settingOf_symbolValid hu).programReports henv hu
  refine bind_eq_ok.mpr ⟨_, hinheritance, ?_⟩
  rw [told, findings, List.map_append]
  by_cases hgo : u.typesChecked stage = true
  · rw [if_pos hgo, if_pos hgo, List.map_append]
    exact bind_eq_ok.mpr ⟨_, mapM_spell_eq hsignatures, bind_eq_ok.mpr ⟨_, mapM_spell_eq hcode, rfl⟩⟩
  · rw [if_neg hgo, if_neg hgo, List.map_nil, List.append_nil]
    rfl

/-- The analysis of a symbol-valid unit. -/
theorem SymbolValid.analyze_eq (h : u.SymbolValid) (stage : Stage) (s : Sink) :
    u.analyze stage s =
      .ok (u.analysis stage, u.analyzed stage, s.reportTypeErrors (u.told stage)) := by
  rw [analyze_spelled, h.spelledFindings_ok]
  rfl

end CompilationUnit

end CoolTypes
