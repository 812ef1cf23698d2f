import CoolTypes.Proofs.Classes.CycleReports
import CoolTypes.Proofs.Outcome
import CoolTypes.Proofs.Typing.Erasure

/-!
# Classes in another order

Two units declare the same classes with different names in different orders. Their analyses give the same
answer for each class and report the same; only of the classes of a cycle they can name different ones
(`class_order_does_not_matter`).
-/

namespace CoolTypes

/-! ## Reports of cycles -/

theorem TypeError.At.isCycle {nodes : List Visit} {r : Report} (h : r.At nodes) :
    r.violation.isCycle = false := by
  have hcode := h.ofCode
  cases hv : r.violation with
  | inheritanceCycle c =>
    rw [hv] at hcode
    exact hcode.elim
  | _ => rfl

/-- Without cycles there is nothing to choose. -/
theorem InheritanceGraph.OnePerCycle.eq_nil_iff {g : InheritanceGraph} {cs : List Symbol}
    (h : g.OnePerCycle cs) : cs = [] ↔ ∀ c, ¬ g.OnCycle c := by
  constructor
  · rintro rfl c hc
    obtain ⟨d, hd, _⟩ := h.complete c hc
    exact absurd hd List.not_mem_nil
  · intro hnone
    exact List.eq_nil_iff_forall_not_mem.mpr fun c hc => hnone c (h.onCycle c hc)

namespace CompilationUnit

/-- The classes at which cycles are reported. -/
def cycles (u : CompilationUnit) : List Symbol :=
  (InheritanceGraph.search u.inheritance.graph
    (u.installBasicClasses.tables.known .object)).closing

/-- The type error that tells that a class is on a cycle. -/
def cycleError (u : CompilationUnit) (c : Symbol) : TypeError String String :=
  ⟨.inheritanceCycle (u.installBasicClasses.tables.textOf c),
    definedAt u.installBasicClasses.program.classes c⟩

/-- What an analysis reports before it comes to cycles. -/
def earlierFindings (u : CompilationUnit) : List Report :=
  u.inheritance.verdicts.flatMap (·.reports) ++
    if u.installBasicClasses.tables.known .main ∈
        u.installBasicClasses.program.classes.map (·.name.symbol) then []
      else [Violation.noMainClass.place .synthetic]

/-- What an analysis reports once it has passed the search for cycles. -/
def laterFindings (stage : Stage) (u : CompilationUnit) : List Report :=
  if u.typesChecked stage then u.signatureReports ++ u.codeReports else []

variable (stage : Stage) (u : CompilationUnit)

theorem cycles_onePerCycle : u.inheritance.graph.OnePerCycle u.cycles :=
  InheritanceGraph.closing_onePerCycle graph_get?_root

theorem told_eq : u.told stage =
    u.earlierFindings.map (·.told u.installBasicClasses.tables) ++ (u.cycles.map u.cycleError ++
      (u.laterFindings stage).map (·.told u.installBasicClasses.tables)) := by
  have hclosing : u.inheritance.reports = u.earlierFindings ++ u.cycles.map fun c =>
      (Violation.inheritanceCycle c).place (definedAt u.installBasicClasses.program.classes c) := by
    rw [Inheritance.reports, inheritance, closing_checkInheritance, ← List.append_assoc]
    rfl
  rw [told, findings, hclosing, List.append_assoc, List.map_append, List.map_append, List.map_map]
  rfl

theorem isCycle_earlierFindings : ∀ r ∈ u.earlierFindings, r.violation.isCycle = false := by
  refine List.forall_mem_append.mpr ⟨isCycle_verdicts, ?_⟩
  split
  · exact List.forall_mem_nil _
  · exact List.forall_mem_singleton.mpr rfl

theorem isCycle_laterFindings : ∀ r ∈ u.laterFindings stage, r.violation.isCycle = false := by
  unfold laterFindings
  split
  · next hgo =>
    refine List.forall_mem_append.mpr ⟨?_, ?_⟩
    · have hcollect : u.signatureReports = _ :=
        Signatures.collect_reports (wellFormed_of_typesChecked hgo)
      rw [hcollect]
      exact List.forall_mem_flatMap.mpr fun c _ r hr => (Signatures.ownTable_at _ c _ r hr).isCycle
    · exact List.forall_mem_flatMap.mpr fun c _ r hr => (Setting.codeReports_at _ _ c r hr).isCycle
  · exact List.forall_mem_nil _

variable {u} in
theorem isCycle_map_told {rs : List Report} (h : ∀ r ∈ rs, r.violation.isCycle = false) :
    ∀ e ∈ rs.map (·.told u.installBasicClasses.tables), e.violation.isCycle = false :=
  List.forall_mem_map.mpr fun r hr => (TypeError.isCycle_told _ r).trans (h r hr)

/-- Of each cycle one class is told. -/
theorem filter_cycle_told :
    (u.told stage).filter (·.violation.isCycle) = u.cycles.map u.cycleError := by
  have hnone : ∀ {rs : List Report}, (∀ r ∈ rs, r.violation.isCycle = false) →
      (rs.map (·.told u.installBasicClasses.tables)).filter (·.violation.isCycle) = [] := fun h =>
    List.filter_eq_nil_iff.mpr fun e he => by simp [isCycle_map_told h e he]
  -- what comes before and after the search for cycles is filtered out
  rw [told_eq, List.filter_append, List.filter_append, hnone u.isCycle_earlierFindings,
    hnone (u.isCycle_laterFindings stage), List.nil_append, List.append_nil]
  exact List.filter_eq_self.mpr (List.forall_mem_map.mpr fun _ _ => rfl)

theorem filter_other_told :
    (u.told stage).filter (!·.violation.isCycle) =
      (u.earlierFindings ++ u.laterFindings stage).map (·.told u.installBasicClasses.tables) := by
  have hearlier := isCycle_map_told (u := u) u.isCycle_earlierFindings
  have hlater := isCycle_map_told (u := u) (u.isCycle_laterFindings stage)
  have hcycles : (u.cycles.map u.cycleError).filter (!·.violation.isCycle) = [] :=
    List.filter_eq_nil_iff.mpr (List.forall_mem_map.mpr fun _ _ => by simp [cycleError, Violation.isCycle])
  rw [told_eq, List.filter_append, List.filter_append, hcycles, List.nil_append, List.map_append,
    List.filter_eq_self.mpr fun e he => by simp [hearlier e he],
    List.filter_eq_self.mpr fun e he => by simp [hlater e he]]

/-- An analysis succeeds if there are no cycles and nothing else is told. -/
theorem success_eq_true_iff : (u.analysis stage).success = true ↔
    (u.told stage).filter (!·.violation.isCycle) = [] ∧ u.cycles = [] := by
  have htold : (u.analysis stage).success = true ↔ u.told stage = [] := by
    rw [analysis, List.isEmpty_iff, told, List.map_eq_nil_iff]
  rw [htold, ← List.map_eq_nil_iff (f := u.cycleError), ← filter_cycle_told stage]
  constructor
  · intro hnil
    rw [hnil]
    exact ⟨rfl, rfl⟩
  · rintro ⟨hother, hcycle⟩
    rw [List.filter_eq_nil_iff] at hother hcycle
    refine List.eq_nil_iff_forall_not_mem.mpr fun e he => hother e he ?_
    simpa using hcycle e he

/-! ## Two orders -/

/-- Two units over the same tables declare the same classes, with different names. -/
structure Reorders (u v : CompilationUnit) : Prop where
  tables : v.tables = u.tables
  perm : u.program.classes.Perm v.program.classes
  names : (u.program.classes.map (·.name.symbol)).Nodup

namespace Reorders

variable {stage u} {v : CompilationUnit} (h : u.Reorders v)

include h

theorem installed : v.installBasicClasses.tables = u.installBasicClasses.tables :=
  congrArg SymbolTables.addClassLiterals h.tables

theorem reordered :
    Reordered u.installBasicClasses.program.classes v.installBasicClasses.program.classes :=
  ⟨BasicClass.all u.tables, u.program.classes, v.program.classes, rfl,
    congrArg (BasicClass.all · ++ v.program.classes) h.tables, h.perm, h.names⟩

theorem inheritance_eq : v.inheritance =
    checkInheritance u.installBasicClasses.tables v.installBasicClasses.program.classes := by
  rw [inheritance, h.installed]

theorem setting_eq : v.setting =
    settingOf u.installBasicClasses.tables v.installBasicClasses.program.classes := by
  rw [setting, h.installed]

theorem typesChecked_eq : v.typesChecked stage = u.typesChecked stage := by
  rw [typesChecked, h.inheritance_eq, h.reordered.isValid]
  rfl

theorem earlierFindings : u.earlierFindings.Perm v.earlierFindings := by
  rw [CompilationUnit.earlierFindings, CompilationUnit.earlierFindings, h.inheritance_eq, h.installed]
  refine List.Perm.append (h.reordered.verdicts.flatMap_right _) (.of_eq ?_)
  exact if_congr h.reordered.mem_names_iff.symm rfl rfl

theorem agree (hgo : u.typesChecked stage = true) :
    ClassesAgree (fun _ => True) u.installBasicClasses.tables
      u.installBasicClasses.program.classes v.installBasicClasses.program.classes :=
  h.reordered.agree (wellFormed_of_typesChecked hgo)

theorem laterFindings : (u.laterFindings stage).Perm (v.laterFindings stage) := by
  rw [CompilationUnit.laterFindings, CompilationUnit.laterFindings, h.typesChecked_eq]
  by_cases hgo : u.typesChecked stage = true
  · rw [if_pos hgo, if_pos hgo]
    refine List.Perm.append ?_ ?_
    · rw [signatureReports, signatureReports, h.setting_eq, h.installed]
      exact h.reordered.collect (wellFormed_of_typesChecked hgo)
    · rw [codeReports, codeReports, h.setting_eq]
      refine h.reordered.perm.flatMap fun c hc => ?_
      rw [(h.agree hgo).codeReports hc]
      rfl
  · rw [if_neg hgo, if_neg hgo]

/-- All classes get the same static types. -/
theorem analyzed : ∃ f : Class → Class,
    (u.analyzed stage).program.classes = u.installBasicClasses.program.classes.map f ∧
      (v.analyzed stage).program.classes = v.installBasicClasses.program.classes.map f := by
  by_cases hgo : u.typesChecked stage = true
  · refine ⟨u.setting.annotateClass (fun _ => none), ?_, ?_⟩
    · rw [CompilationUnit.analyzed, if_pos hgo]
      rfl
    · rw [CompilationUnit.analyzed, if_pos (h.typesChecked_eq.trans hgo), h.setting_eq]
      exact List.map_congr_left fun c hc => (h.agree hgo).annotateClass (h.reordered.perm.mem_iff.mpr hc)
  · refine ⟨id, ?_, ?_⟩
    · rw [CompilationUnit.analyzed, if_neg hgo, List.map_id]
    · rw [CompilationUnit.analyzed, if_neg (h.typesChecked_eq ▸ hgo), List.map_id]

/-- What is told besides cycles is the same. -/
theorem told_other : ((u.told stage).filter (!·.violation.isCycle)).Perm
    ((v.told stage).filter (!·.violation.isCycle)) := by
  rw [filter_other_told, filter_other_told, h.installed]
  exact (h.earlierFindings.append h.laterFindings).map _

theorem cycles_onePerCycle : u.inheritance.graph.OnePerCycle v.cycles := by
  have hv := v.cycles_onePerCycle
  rw [h.inheritance_eq] at hv
  exact h.reordered.onePerCycle_iff.mp hv

theorem cycleError_eq : v.cycleError = u.cycleError := by
  funext c
  rw [cycleError, cycleError, h.installed, h.reordered.definedAt_eq]

/-- Nothing is told about one unit if nothing is told about the other. -/
theorem success_eq : (v.analysis stage).success = (u.analysis stage).success := by
  have hother : (v.told stage).filter (!·.violation.isCycle) = [] ↔
      (u.told stage).filter (!·.violation.isCycle) = [] := by
    rw [← List.length_eq_zero_iff, ← List.length_eq_zero_iff, h.told_other.length_eq]
  rw [Bool.eq_iff_iff, success_eq_true_iff, success_eq_true_iff, hother,
    h.cycles_onePerCycle.eq_nil_iff, u.cycles_onePerCycle.eq_nil_iff]

end Reorders

end CompilationUnit

/-- Two symbol-valid units that declare the same classes, with different names, in different orders are
analyzed with the same success, and the types of both or of none are checked. The edges are the same, all
reports but those of cycles are the same, and of each cycle both analyses report one class. All classes get
the same tables and the same static types. -/
theorem class_order_does_not_matter (u v : CompilationUnit) (hu : u.SymbolValid)
    (htables : v.tables = u.tables) (hperm : u.program.classes.Perm v.program.classes)
    (hnames : (u.program.classes.map (·.name.symbol)).Nodup) (stage : Stage) (s : Sink) :
    ∃ a w es a' w' es',
      u.analyze stage s = .ok (a, w, s.reportTypeErrors es) ∧
      v.analyze stage s = .ok (a', w', s.reportTypeErrors es') ∧
      a'.success = a.success ∧
      a'.signatures.isSome = a.signatures.isSome ∧
      a.graph.entries.Perm a'.graph.entries ∧
      (es.filter (!·.violation.isCycle)).Perm (es'.filter (!·.violation.isCycle)) ∧
      (∃ cs cs', a.graph.OnePerCycle cs ∧ a.graph.OnePerCycle cs' ∧
        es.filter (·.violation.isCycle) = cs.map u.cycleError ∧
        es'.filter (·.violation.isCycle) = cs'.map u.cycleError) ∧
      (∀ sigs ∈ a.signatures, ∀ sigs' ∈ a'.signatures, ∀ c, sigs'.get? c = sigs.get? c) ∧
      ∃ f : Class → Class,
        w.program.classes = u.installBasicClasses.program.classes.map f ∧
        w'.program.classes = v.installBasicClasses.program.classes.map f := by
  have h : u.Reorders v := ⟨htables, hperm, hnames⟩
  have hv : v.SymbolValid := fun c hc => htables ▸ hu c (hperm.mem_iff.mpr hc)
  refine ⟨_, _, _, _, _, _, hu.analyze_eq stage s, hv.analyze_eq stage s, h.success_eq, ?_, ?_,
    h.told_other, ⟨u.cycles, v.cycles, u.cycles_onePerCycle, h.cycles_onePerCycle,
      u.filter_cycle_told stage, h.cycleError_eq ▸ v.filter_cycle_told stage⟩, ?_, h.analyzed⟩
  · rw [CompilationUnit.isSome_signatures_analysis, CompilationUnit.isSome_signatures_analysis,
      h.typesChecked_eq]
  · rw [CompilationUnit.graph_analysis, CompilationUnit.graph_analysis, h.inheritance_eq]
    exact h.reordered.entries
  · intro sigs hsigs sigs' hsigs' c
    obtain ⟨hgo, rfl⟩ := CompilationUnit.mem_signatures_analysis.mp hsigs
    obtain ⟨_, rfl⟩ := CompilationUnit.mem_signatures_analysis.mp hsigs'
    rw [h.setting_eq]
    exact (h.agree hgo).settingOf.table _ trivial

/-- A unit with a main class and a cycle of two classes, which stand in a given order. -/
def cycleUnit (classes : List Class) : CompilationUnit where
  tables := .initial
  program := ⟨bareClass .main .object :: classes, .synthetic⟩

/-- The two orders of the cycle, of which the analysis names different classes. -/
theorem class_order_does_not_matter_cycle :
    let u := cycleUnit [bareClass .copy .abort, bareClass .abort .copy]
    let v := cycleUnit [bareClass .abort .copy, bareClass .copy .abort]
    u.SymbolValid ∧ v.tables = u.tables ∧ u.program.classes.Perm v.program.classes ∧
      (u.program.classes.map (·.name.symbol)).Nodup ∧ u.cycles ≠ v.cycles ∧
      ∃ a w es a' w' es',
        u.analyze .typing {} = .ok (a, w, Sink.reportTypeErrors {} es) ∧
        v.analyze .typing {} = .ok (a', w', Sink.reportTypeErrors {} es') ∧
        a'.success = a.success ∧ a.graph.entries.Perm a'.graph.entries ∧
        (es.filter (!·.violation.isCycle)).Perm (es'.filter (!·.violation.isCycle)) := by
  intro u v
  have hbare : ∀ name parent, (bareClass name parent).SymbolValid .initial := fun name parent =>
    ⟨BasicClass.name_symbolValid name, BasicClass.name_symbolValid parent,
      SymbolTables.has_known _ _, List.forall_mem_nil _⟩
  have hu : u.SymbolValid := by
    intro c hc
    simp only [u, cycleUnit, List.mem_cons, List.not_mem_nil, or_false] at hc
    rcases hc with rfl | rfl | rfl <;> exact hbare _ _
  have hperm : u.program.classes.Perm v.program.classes := (List.Perm.swap _ _ _).cons _
  have hnames : (u.program.classes.map (·.name.symbol)).Nodup := by decide
  obtain ⟨a, w, es, a', w', es', heq, heq', hsuccess, _, hgraph, hother, _⟩ :=
    class_order_does_not_matter u v hu rfl hperm hnames .typing {}
  exact ⟨hu, rfl, hperm, hnames, by decide +kernel, a, w, es, a', w', es', heq, heq', hsuccess,
    hgraph, hother⟩

end CoolTypes
