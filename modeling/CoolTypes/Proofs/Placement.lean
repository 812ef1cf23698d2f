import CoolTypes.Proofs.Classes.CycleReports
import CoolTypes.Proofs.Outcome
import CoolTypes.Proofs.Typing.BasicClasses
import CoolTypes.Proofs.Typing.Places

/-!
# Places of diagnostics

Whatever an analysis tells of a unit, but for the lack of a main class, it tells at a node of the program as
it was before the basic classes were put in front of it (`diagnostics_point_into_program`). The basic classes
themselves are never told of, in any phase (`SilentOnBasics`).
-/

namespace CoolTypes

/-- The error stands at one of some nodes. -/
structure TypeError.Points {ν τ : Type} (nodes : List Visit) (e : TypeError ν τ) : Prop where
  notMain : e.violation ≠ .noMainClass
  place : ∃ v ∈ nodes, v.span? = some e.span

namespace TypeError

variable {nodes nodes' : List Visit} {r : Report}

theorem At.points (h : r.At nodes) : r.Points nodes := by
  refine ⟨fun hmain => ?_, h.place⟩
  have hcode := h.ofCode
  rw [hmain] at hcode
  exact hcode

theorem Points.mono {ν τ : Type} {e : TypeError ν τ} (h : e.Points nodes) (hsub : nodes ⊆ nodes') :
    e.Points nodes' := by
  obtain ⟨v, hv, hspan⟩ := h.place
  exact ⟨h.notMain, v, hsub hv, hspan⟩

theorem Points.told (h : r.Points nodes) (t : SymbolTables) : (r.told t).Points nodes := by
  refine ⟨fun hmain => h.notMain ?_, h.place⟩
  obtain ⟨v, span⟩ := r
  cases v <;> first | rfl | cases hmain

/-- An error at the place of a name. -/
theorem Points.atName {v : Violation Symbol Ty} {n : Name} (hn : .name n ∈ nodes)
    (hv : v ≠ .noMainClass) : (v.place n.span).Points nodes := by
  have hplace : v.place n.span = ⟨v, n.span⟩ := by
    cases v <;> first | rfl | exact absurd rfl hv
  rw [hplace]
  exact ⟨hv, _, hn, rfl⟩

end TypeError

/-! ## The inheritance relation -/

theorem Class.name_mem_visits (c : Class) : .name c.name ∈ c.visits := by
  simp [visits, Name.typeVisits]

theorem Class.parent_mem_visits (c : Class) : .name c.parent ∈ c.visits := by
  simp [visits, Name.typeVisits]

/-- What is wrong with a class is told at its name or at that of its parent. -/
theorem checkClass_points {t : SymbolTables} {declared earlier : List Symbol} {c : Class} :
    ∀ r ∈ (checkClass t declared earlier c).reports, r.Points c.visits := by
  intro r hr
  simp only [checkClass, List.mem_append] at hr
  rcases hr with ((hr | hr) | hr) | hr
  · unfold checkParent at hr
    cases hb : BuiltinClass.ofSymbol? t c.parent.symbol with
    | none => simp [hb] at hr
    | some b =>
      simp only [hb, List.mem_ite_nil_right, List.mem_singleton] at hr
      exact hr.2 ▸ .atName c.parent_mem_visits (by simp)
  · unfold checkFresh at hr
    rw [List.mem_ite_nil_right] at hr
    cases hb : BuiltinClass.ofSymbol? t c.name.symbol with
    | none =>
      simp only [hb, List.mem_singleton] at hr
      exact hr.2 ▸ .atName c.name_mem_visits (by simp)
    | some b =>
      simp only [hb, List.mem_singleton] at hr
      exact hr.2 ▸ .atName c.name_mem_visits (by simp)
  · unfold checkClassName at hr
    rw [List.mem_ite_nil_right, List.mem_singleton] at hr
    exact hr.2 ▸ .atName c.name_mem_visits (by simp)
  · unfold checkDeclaredParent at hr
    rw [List.mem_ite_nil_right, List.mem_singleton] at hr
    exact hr.2 ▸ .atName c.parent_mem_visits (by simp)

theorem checkClasses_points {t : SymbolTables} {declared earlier : List Symbol} {classes : List Class} :
    ∀ v ∈ checkClasses t declared earlier classes,
      ∃ c ∈ classes, ∀ r ∈ v.reports, r.Points c.visits := by
  intro v hv
  rw [checkClasses_eq_map, List.mem_map] at hv
  obtain ⟨i, _, rfl⟩ := hv
  exact ⟨_, List.getElem_mem _, checkClass_points⟩

namespace CompilationUnit

variable (u : CompilationUnit)

theorem visits_subset_of_mem {c : Class} (hc : c ∈ u.program.classes) :
    c.visits ⊆ u.program.visits :=
  fun _ hv => List.mem_cons_of_mem _ (List.mem_flatMap.mpr ⟨c, hc, hv⟩)

/-- The verdicts on the basic classes stand in front of those on the classes of the unit. -/
theorem verdicts_inheritance : ∃ basic own, u.inheritance.verdicts = basic ++ own ∧
    basic.length = (BasicClass.all u.tables).length ∧ (∀ v ∈ basic, v.reports = []) ∧
      ∀ v ∈ own, ∃ c ∈ u.program.classes, ∀ r ∈ v.reports, r.Points c.visits := by
  unfold inheritance
  rw [classes_installBasicClasses]
  exact ⟨_, _, checkClasses_append _ _ _ (BasicClass.all _) u.program.classes, rfl,
    BasicClass.verdicts_silent BasicClass.object_mem_names, checkClasses_points⟩

/-- No basic class is on a cycle. -/
theorem basic_not_onCycle : ∀ c ∈ BasicClass.all u.tables,
    ¬ u.inheritance.graph.OnCycle c.name.symbol := by
  intro c hc
  rw [← BasicClass.all_addClassLiterals] at hc
  unfold inheritance
  rw [classes_installBasicClasses]
  exact BasicClass.not_onCycle hc

/-- A class at which a cycle is closed is one of the unit, and is reported where it is first defined there. -/
theorem exists_definedAt_of_cycle {c : Symbol} (hc : u.inheritance.graph.OnCycle c) :
    ∃ d ∈ u.program.classes, definedAt u.installBasicClasses.program.classes c = d.name.span := by
  obtain ⟨d, hd, rfl⟩ := exists_class_of_cycle hc
  obtain ⟨earlier, e, later, hsplit, hname, -, hspan⟩ := exists_definedAt (List.mem_map_of_mem hd)
  have he : e ∈ u.installBasicClasses.program.classes :=
    hsplit ▸ List.mem_append_right _ List.mem_cons_self
  rcases List.mem_append.mp he with he | he
  · exact absurd (hname ▸ hc) (u.basic_not_onCycle e he)
  · exact ⟨e, he, hspan⟩

/-- No phase of an analysis up to a stage reports anything about the basic classes. -/
structure SilentOnBasics (stage : Stage) (u : CompilationUnit) : Prop where
  verdicts : ∀ v ∈ u.inheritance.verdicts.take (BasicClass.all u.tables).length, v.reports = []
  cycles : ∀ c ∈ BasicClass.all u.tables, ¬ u.inheritance.graph.OnCycle c.name.symbol
  signatures : u.typesChecked stage = true → ∀ c ∈ BasicClass.all u.tables,
    let Γ : Signatures.Ground := ⟨u.setting.tables, u.setting.hierarchy⟩
    (Signatures.ownTable Γ c (Signatures.inherited Γ u.setting.signatures c.name.symbol)).2 = []
  code : ∀ c ∈ BasicClass.all u.tables, u.setting.codeReports (fun _ => none) c = []

theorem basic_code_silent (env : Env) : ∀ c ∈ BasicClass.all u.tables,
    u.setting.codeReports env c = [] :=
  fun _ => BasicClass.codeReports_silent (known_addClassLiterals u.tables) env

variable {u} in
theorem basic_signatures_silent
    (hw : WellFormedHierarchy u.installBasicClasses.tables u.installBasicClasses.program.classes) :
    ∀ c ∈ BasicClass.all u.tables,
      let Γ : Signatures.Ground := ⟨u.setting.tables, u.setting.hierarchy⟩
      (Signatures.ownTable Γ c (Signatures.inherited Γ u.setting.signatures c.name.symbol)).2 = [] := by
  intro c hc
  rw [← BasicClass.all_addClassLiterals] at hc
  have hsilent := BasicClass.ownTable_silent (u.classes_installBasicClasses ▸ hw) hc
  rw [BasicClass.all_addClassLiterals] at hsilent
  exact hsilent

theorem silentOnBasics (stage : Stage) : u.SilentOnBasics stage where
  verdicts := by
    obtain ⟨basic, own, hsplit, hlength, hsilent, -⟩ := u.verdicts_inheritance
    rw [hsplit, ← hlength, List.take_left]
    exact hsilent
  cycles := u.basic_not_onCycle
  signatures hgo := basic_signatures_silent (wellFormed_of_typesChecked hgo)
  code := u.basic_code_silent _

/-- What is wrong with the signatures is told at nodes of the unit. -/
theorem signatureReports_points
    (hw : WellFormedHierarchy u.installBasicClasses.tables u.installBasicClasses.program.classes) :
    ∀ r ∈ u.signatureReports, r.Points u.program.visits := by
  have hcollect : u.signatureReports = _ := Signatures.collect_reports hw
  rw [hcollect]
  refine List.forall_mem_flatMap.mpr fun c hc r hr => ?_
  rcases List.mem_append.mp ((Signatures.mem_rootFirst_hierarchyOf hw).mp hc) with hc | hc
  · have hsilent := basic_signatures_silent hw c hc
    exact absurd (hsilent ▸ hr) List.not_mem_nil
  · exact (Signatures.ownTable_at _ c _ r hr).points.mono (u.visits_subset_of_mem hc)

/-- What is wrong with the code is told at nodes of the unit. -/
theorem codeReports_points : ∀ r ∈ u.codeReports, r.Points u.program.visits := by
  refine List.forall_mem_flatMap.mpr fun c hc r hr => ?_
  rcases List.mem_append.mp hc with hc | hc
  · exact absurd (u.basic_code_silent _ c hc ▸ hr) List.not_mem_nil
  · exact (Setting.codeReports_at _ _ c r hr).points.mono (u.visits_subset_of_mem hc)

/-- All that is reported is reported at nodes of the unit, but for the lack of a main class, which is reported
once at most. -/
theorem findings_points (stage : Stage) : ∃ before main after,
    u.findings stage = before ++ (main ++ after) ∧
      (∀ r ∈ before, r.Points u.program.visits) ∧ (∀ r ∈ after, r.Points u.program.visits) ∧
      main.length ≤ 1 ∧ ∀ r ∈ main, r.violation = .noMainClass := by
  let classes := u.installBasicClasses.program.classes
  let main : List Report :=
    if u.installBasicClasses.tables.known .main ∈ classes.map (·.name.symbol) then []
    else [Violation.noMainClass.place .synthetic]
  let cycles : List Report := (closedAt u.installBasicClasses.tables classes).map fun c =>
    (Violation.inheritanceCycle c).place (definedAt classes c)
  let later : List Report := if u.typesChecked stage then u.signatureReports ++ u.codeReports else []
  refine ⟨u.inheritance.verdicts.flatMap (·.reports), main, cycles ++ later, ?_, ?_, ?_, ?_, ?_⟩
  · have hclosing : u.inheritance.closing = main ++ cycles := rfl
    rw [findings, Inheritance.reports, hclosing, List.append_assoc, List.append_assoc]
  · obtain ⟨basic, own, hsplit, -, hsilent, hown⟩ := u.verdicts_inheritance
    rw [hsplit, List.flatMap_append, List.flatMap_eq_nil_iff.mpr hsilent, List.nil_append]
    refine List.forall_mem_flatMap.mpr fun v hv r hr => ?_
    obtain ⟨c, hc, hpoints⟩ := hown v hv
    exact (hpoints r hr).mono (u.visits_subset_of_mem hc)
  · refine List.forall_mem_append.mpr ⟨?_, ?_⟩
    · refine List.forall_mem_map.mpr fun c hc => ?_
      obtain ⟨d, hd, hspan⟩ :=
        u.exists_definedAt_of_cycle (search_right_checkInheritance.closing c hc)
      exact hspan ▸ .atName (u.visits_subset_of_mem hd d.name_mem_visits) (by simp)
    · by_cases hgo : u.typesChecked stage = true
      · simp only [later, if_pos hgo]
        exact List.forall_mem_append.mpr
          ⟨u.signatureReports_points (wellFormed_of_typesChecked hgo), u.codeReports_points⟩
      · simp only [later, if_neg hgo]
        exact List.forall_mem_nil _
  · simp only [main]
    split <;> simp
  · simp only [main]
    split <;> simp [Violation.place]

end CompilationUnit

/-- The analysis of a symbol-valid unit tells everything but the lack of a main class at a node of the
program, and that lack once at most. It never tells anything of the basic classes that it puts in front,
whatever classes, names and tables the unit brings. -/
theorem diagnostics_point_into_program (u : CompilationUnit) (hu : u.SymbolValid) (stage : Stage)
    (s : Sink) :
    ∃ a w s', ∃ es : List (TypeError String String), u.analyze stage s = .ok (a, w, s') ∧
      s'.emitted = s.emitted ++ es.map (fun e =>
        ⟨.error, ⟨e.violation.message, some e.span⟩, some (.placed (.typeError e))⟩) ∧
      (∀ e ∈ es, e.violation ≠ .noMainClass → ∃ v ∈ u.program.visits, v.span? = some e.span) ∧
      es.countP (·.violation = .noMainClass) ≤ 1 ∧ u.SilentOnBasics stage := by
  obtain ⟨before, main, after, hfindings, hbefore, hafter, hlength, hmain⟩ := u.findings_points stage
  let t := u.installBasicClasses.tables
  have htold : u.told stage = before.map (·.told t) ++ (main.map (·.told t) ++ after.map (·.told t)) := by
    rw [CompilationUnit.told, hfindings, List.map_append, List.map_append]
  refine ⟨_, _, _, u.told stage, hu.analyze_eq stage s, ?_, ?_, ?_, u.silentOnBasics stage⟩
  · simp only [Sink.reportTypeErrors, Sink.emitted_reportAll, List.map_map]
    rfl
  · rw [htold]
    refine List.forall_mem_append.mpr ⟨?_, List.forall_mem_append.mpr ⟨?_, ?_⟩⟩
    · exact List.forall_mem_map.mpr fun r hr _ => ((hbefore r hr).told t).place
    · refine List.forall_mem_map.mpr fun r hr hne => absurd ?_ hne
      rw [TypeError.told, hmain r hr]
      rfl
    · exact List.forall_mem_map.mpr fun r hr _ => ((hafter r hr).told t).place
  · have hnone : ∀ rs : List Report, (∀ r ∈ rs, r.Points u.program.visits) →
        (rs.map (·.told t)).countP (·.violation = .noMainClass) = 0 := fun rs h =>
      List.countP_eq_zero.mpr (List.forall_mem_map.mpr fun r hr => by simp [((h r hr).told t).notMain])
    have hone := (main.map (·.told t)).countP_le_length (p := (·.violation = .noMainClass))
    rw [List.length_map] at hone
    rw [htold, List.countP_append, List.countP_append, hnone _ hbefore, hnone _ hafter]
    omega

/-- Well-known names that stand in front of all others. -/
def untidyTables : SymbolTables :=
  .ofParts (((Interner.empty.insert "_prim_slot").insert "copy").insert "_no_class") .empty .empty

/-- A unit without main class whose classes are called like basic classes and like names that only these
refer to, and two of which form a cycle. All belong to the basic file. -/
def untidyUnit : CompilationUnit where
  tables := untidyTables
  program :=
    let untidy (line : Nat) (n parent : WellKnown) : Class :=
      ⟨⟨untidyTables.known n, .point line 2⟩, ⟨untidyTables.known parent, .point line 3⟩,
        untidyTables.known .basicFile, [], .point line 4⟩
    ⟨[untidy 2 .object .primSlot, untidy 3 .noClass .object, untidy 4 .primSlot .int,
      untidy 5 .copy .abort, untidy 6 .abort .copy, untidy 7 .string .noClass], .point 8 1⟩

theorem diagnostics_point_into_program_untidy :
    untidyUnit.SymbolValid ∧ ∃ a w s, untidyUnit.analyze .typing {} = .ok (a, w, s) ∧
      s.emitted.length = 5 ∧
      ∀ d ∈ s.emitted, d.message.span = some .synthetic → d.message.text = "no `Main` class found" := by
  have hu : untidyUnit.SymbolValid :=
    (CompilationUnit.checkSymbols_eq_true_iff (s := {})).mp (by decide +kernel)
  obtain ⟨a, w, s, es, heq, hemitted, hplace, -, -⟩ :=
    diagnostics_point_into_program untidyUnit hu .typing {}
  refine ⟨hu, a, w, s, heq, ?_, ?_⟩
  · rw [(CompilationUnit.eq_of_analyze heq).2.2]
    decide +kernel
  · rw [hemitted]
    refine List.forall_mem_map.mpr fun e he hspan => ?_
    by_cases hmain : e.violation = .noMainClass
    · exact hmain ▸ rfl
    · -- no node of the unit has the span of the basic classes
      obtain ⟨v, hv, hv'⟩ := hplace e he hmain
      have hnone : ∀ v ∈ untidyUnit.program.visits, v.span? ≠ some .synthetic := by decide +kernel
      exact absurd (hv'.trans hspan) (hnone v hv)

end CoolTypes
