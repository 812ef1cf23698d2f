import CoolTypes.Proofs.Classes.Extension
import CoolTypes.Proofs.Outcome
import CoolTypes.Proofs.Typing.Erasure

/-!
# One more class

A class that the classes of a unit and the basic classes do not mention is put behind the others. The
analysis then says of the others what it said without the class: it has the same edges for them, the same
tables, the same static types and the same reports in the same order (`new_class_changes_nothing_else`).
-/

namespace CoolTypes

namespace CompilationUnit

/-- The unit with one more class behind its own. -/
def withClass (u : CompilationUnit) (K : Class) : CompilationUnit :=
  { u with program := { u.program with classes := u.program.classes ++ [K] } }

/-- The name of the class is no class name and no type name of the unit or of the basic classes and has no
meaning of its own, and its parent is `Object`, `IO` or a class of the unit from which it may inherit. -/
structure Admits (u : CompilationUnit) (K : Class) : Prop where
  unmentioned : ∀ c ∈ u.installBasicClasses.program.classes, c.TypesIn (· ≠ K.name.symbol)
  notMain : K.name.symbol ≠ u.tables.known .main
  notSelfType : K.name.symbol ≠ u.tables.known .selfType
  parent : K.parent.symbol = u.tables.known .object ∨ K.parent.symbol = u.tables.known .io ∨
    (∃ c ∈ u.program.classes, c.name.symbol = K.parent.symbol) ∧
      ¬ u.tables.IsPrimitive K.parent.symbol

variable {u : CompilationUnit} {K : Class}

theorem classes_withClass (u : CompilationUnit) (K : Class) :
    (u.withClass K).installBasicClasses.program.classes =
      u.installBasicClasses.program.classes ++ [K] :=
  (List.append_assoc _ _ _).symm

theorem inheritance_withClass (u : CompilationUnit) (K : Class) :
    (u.withClass K).inheritance =
      checkInheritance u.installBasicClasses.tables (u.installBasicClasses.program.classes ++ [K]) := by
  rw [inheritance, classes_withClass]
  rfl

theorem setting_withClass (u : CompilationUnit) (K : Class) :
    (u.withClass K).setting =
      settingOf u.installBasicClasses.tables (u.installBasicClasses.program.classes ++ [K]) := by
  rw [setting, classes_withClass]
  rfl

namespace Admits

variable (hK : u.Admits K)

include hK

theorem toUnmentioned :
    Unmentioned u.installBasicClasses.tables u.installBasicClasses.program.classes K := by
  have hknown : ∀ w, u.installBasicClasses.tables.known w = u.tables.known w :=
    known_addClassLiterals u.tables
  have hdeclared : ∀ b : BuiltinClass, u.tables.known b.wellKnown ∈
      u.installBasicClasses.program.classes.map (·.name.symbol) := fun b =>
    hknown b.wellKnown ▸ builtin_mem_installBasicClasses u b
  refine ⟨hK.unmentioned, fun h => ?_, fun h => hK.notMain (h.trans (hknown .main)),
    fun h => hK.notSelfType (h.trans (hknown .selfType)), ?_, ?_⟩
  · obtain ⟨c, hc, hname⟩ := List.mem_map.mp (hdeclared .object)
    exact (hK.unmentioned c hc).name (hname.trans ((hknown .object).symm.trans h.symm))
  · rcases hK.parent with hp | hp | ⟨⟨c, hc, hp⟩, _⟩
    · exact hp ▸ hdeclared .object
    · exact hp ▸ hdeclared .io
    · exact List.mem_map.mpr ⟨c, List.mem_append_right _ hc, hp⟩
  · simp only [SymbolTables.IsPrimitive, hknown]
    rcases hK.parent with hp | hp | ⟨_, hp⟩
    · simp [hp]
    · simp [hp]
    · exact hp

theorem typesChecked_eq (stage : Stage) : (u.withClass K).typesChecked stage = u.typesChecked stage := by
  rw [typesChecked, inheritance_withClass, hK.toUnmentioned.isValid_append]
  rfl

theorem agree {stage : Stage} (hgo : u.typesChecked stage = true) :
    ClassesAgree (· ≠ K.name.symbol) u.installBasicClasses.tables
      u.installBasicClasses.program.classes (u.installBasicClasses.program.classes ++ [K]) :=
  hK.toUnmentioned.agree (builtin_mem_installBasicClasses u)
    (wellFormed_of_typesChecked hgo)

/-- What was reported is reported in the same order, and all other reports are about the new class. -/
theorem findings_withClass (stage : Stage) :
    Interspersed (·.At K.visits) (u.findings stage) ((u.withClass K).findings stage) := by
  have hinheritance : (u.withClass K).inheritance.reports = u.inheritance.reports := by
    rw [inheritance_withClass, hK.toUnmentioned.reports_append]
    rfl
  rw [findings, findings, hinheritance, hK.typesChecked_eq stage]
  refine (Interspersed.refl _).append ?_
  by_cases hgo : u.typesChecked stage = true
  · rw [if_pos hgo, if_pos hgo]
    have hagree := hK.agree hgo
    refine .append ?_ ?_
    · rw [signatureReports, signatureReports, setting_withClass, classes_withClass]
      exact hK.toUnmentioned.collect_append (builtin_mem_installBasicClasses u) hagree.wellFormed
    · rw [codeReports, codeReports, setting_withClass, Setting.programReports, Setting.programReports,
        classes_withClass, List.flatMap_append, List.flatMap_singleton,
        List.flatMap_congr fun c hc => hagree.codeReports hc]
      -- the code of the new class is checked last
      exact (Interspersed.refl _).append_further (Setting.codeReports_at _ _ K)
  · rw [if_neg hgo, if_neg hgo]
    exact .nil

/-- The other classes get the static types that they got. -/
theorem analyzed_withClass (stage : Stage) : ∃ K', K'.erase = K.erase ∧
    ((u.withClass K).analyzed stage).program.classes =
      (u.analyzed stage).program.classes ++ [K'] := by
  rw [analyzed, analyzed, hK.typesChecked_eq stage]
  by_cases hgo : u.typesChecked stage = true
  · have hagree := hK.agree hgo
    refine ⟨_, Setting.erase_annotateClass (u.withClass K).setting (fun _ => none) K, ?_⟩
    rw [if_pos hgo, if_pos hgo, Setting.annotateProgram, Setting.annotateProgram, setting_withClass,
      classes_withClass, List.map_append, List.map_congr_left fun c hc => hagree.annotateClass hc]
    rfl
  · rw [if_neg hgo, if_neg hgo]
    exact ⟨K, rfl, classes_withClass u K⟩

end Admits

end CompilationUnit

/-- A symbol-valid unit gets one more class whose name nothing mentions and whose features can be anything.
Its analysis then comes to an end if the symbols of the class are valid too, and whenever it does, it
records the edges of the unit and the one of the class, collects signatures if it did so before and the
same table for each old class, writes the same static types in the old classes, and tells the same type
errors in the same order, with others in between that are located in the new class. -/
theorem new_class_changes_nothing_else (u : CompilationUnit) (K : Class) (hu : u.SymbolValid)
    (hK : u.Admits K) (stage : Stage) (s : Sink) :
    ∃ a w es, u.analyze stage s = .ok (a, w, s.reportTypeErrors es) ∧
      (K.SymbolValid u.tables → Faultless ((u.withClass K).analyze stage s)) ∧
      ∀ a' w' s', (u.withClass K).analyze stage s = .ok (a', w', s') →
        a'.graph.entries = a.graph.entries ++ [(K.name.symbol, K.parent.symbol)] ∧
        a'.signatures.isSome = a.signatures.isSome ∧
        (∀ sigs ∈ a.signatures, ∀ sigs' ∈ a'.signatures, ∀ c ∈ u.installBasicClasses.program.classes,
          sigs'.get? c.name.symbol = sigs.get? c.name.symbol) ∧
        w'.tables = w.tables ∧
        (∃ K', K'.erase = K.erase ∧ w'.program.classes = w.program.classes ++ [K']) ∧
        ∃ es', s' = s.reportTypeErrors es' ∧
          Interspersed (fun e => ∃ v ∈ K.visits, v.span? = some e.span) es es' := by
  refine ⟨_, _, _, hu.analyze_eq stage s, fun hvalid => ?_, fun a' w' s' h => ?_⟩
  · have hu' : (u.withClass K).SymbolValid :=
      List.forall_mem_append.mpr ⟨hu, List.forall_mem_singleton.mpr hvalid⟩
    exact ⟨_, hu'.analyze_eq stage s⟩
  obtain ⟨rfl, rfl, rfl⟩ := CompilationUnit.eq_of_analyze h
  refine ⟨?_, ?_, fun sigs hsigs sigs' hsigs' c hc => ?_, rfl, hK.analyzed_withClass stage, _, rfl, ?_⟩
  · rw [CompilationUnit.graph_analysis, CompilationUnit.graph_analysis,
      CompilationUnit.inheritance_withClass]
    exact hK.toUnmentioned.grows.entries
  · rw [CompilationUnit.isSome_signatures_analysis, CompilationUnit.isSome_signatures_analysis,
      hK.typesChecked_eq stage]
  · obtain ⟨hgo, rfl⟩ := CompilationUnit.mem_signatures_analysis.mp hsigs
    obtain ⟨_, rfl⟩ := CompilationUnit.mem_signatures_analysis.mp hsigs'
    rw [CompilationUnit.setting_withClass]
    exact (hK.agree hgo).settingOf.table _ (hK.unmentioned c hc).name
  · exact (hK.findings_withClass stage).map fun r hr => hr.place

/-! ## A class below the main class -/

namespace BasicClass

variable {t : SymbolTables} {S : Symbol → Prop}

theorem method_typesIn (n : WellKnown) {params : List (WellKnown × WellKnown)} {ret : WellKnown}
    (hparams : ∀ p ∈ params, S (t.known p.2)) (hret : S (t.known ret)) :
    (method t n params ret).TypesIn S := by
  refine ⟨fun f hf => ?_, hret, .absent⟩
  obtain ⟨p, hp, rfl⟩ := List.mem_map.mp hf
  exact hparams p hp

theorem slot_typesIn (n : WellKnown) (h : S (t.known .primSlot)) : (slot t n).TypesIn S :=
  ⟨h, by simp⟩

/-- The names in type positions of the basic classes. -/
def typeNames : List WellKnown := [.object, .noClass, .io, .int, .bool, .string, .selfType, .primSlot]

theorem all_typesIn (h : ∀ w ∈ typeNames, S (t.known w)) : ∀ c ∈ all t, c.TypesIn S := by
  have hmake : ∀ n ∈ typeNames, ∀ parent ∈ typeNames, ∀ features : List Feature,
      (∀ f ∈ features, f.TypesIn S) → (make t n parent features).TypesIn S :=
    fun n hn parent hparent features hfeatures => ⟨h n hn, h parent hparent, hfeatures⟩
  have hslot : ∀ n, (slot t n).TypesIn S := fun n => slot_typesIn n (h _ (by decide))
  simp only [all, List.forall_mem_cons, List.not_mem_nil, false_implies, implies_true, and_true]
  refine ⟨hmake _ (by decide) _ (by decide) _ ?_, hmake _ (by decide) _ (by decide) _ ?_,
    hmake _ (by decide) _ (by decide) _ ?_, hmake _ (by decide) _ (by decide) _ ?_,
    hmake _ (by decide) _ (by decide) _ ?_⟩
  all_goals
    simp only [List.forall_mem_cons, List.not_mem_nil, false_implies, implies_true, and_true, hslot,
      true_and]
  · exact ⟨method_typesIn _ (by simp) (h _ (by decide)), method_typesIn _ (by simp) (h _ (by decide)),
      method_typesIn _ (by simp) (h _ (by decide))⟩
  · refine ⟨method_typesIn _ ?_ (h _ (by decide)), method_typesIn _ ?_ (h _ (by decide)),
      method_typesIn _ (by simp) (h _ (by decide)), method_typesIn _ (by simp) (h _ (by decide))⟩
    · exact List.forall_mem_singleton.mpr (h _ (by decide))
    · exact List.forall_mem_singleton.mpr (h _ (by decide))
  · refine ⟨method_typesIn _ (by simp) (h _ (by decide)), method_typesIn _ ?_ (h _ (by decide)),
      method_typesIn _ ?_ (h _ (by decide))⟩
    · exact List.forall_mem_singleton.mpr (h _ (by decide))
    · simpa using h .int (by decide)

end BasicClass

/-- A class below the main class, with an attribute of a type that is not declared. -/
def childOfMain : Class :=
  ⟨BasicClass.name .initial .copy, BasicClass.name .initial .main, SymbolTables.known .initial .main,
    [.attr ⟨BasicClass.name .initial .arg, BasicClass.name .initial .abort, none, .synthetic⟩],
    .synthetic⟩

theorem mainUnit_admits_childOfMain : mainUnit.Admits childOfMain where
  unmentioned := by
    refine List.forall_mem_append.mpr ⟨BasicClass.all_typesIn fun w hw => ?_,
      List.forall_mem_singleton.mpr ⟨by decide, by decide, by simp⟩⟩
    refine (SymbolTables.known_inj (t := .initial)).not.mpr ?_
    rintro rfl
    exact absurd hw (by decide)
  notMain := by decide
  notSelfType := by decide
  parent := .inr (.inr ⟨⟨_, List.mem_cons_self, rfl⟩, by decide⟩)

theorem new_class_changes_nothing_else_childOfMain :
    mainUnit.SymbolValid ∧ mainUnit.Admits childOfMain ∧
      ∃ a w es, mainUnit.analyze .typing {} = .ok (a, w, Sink.reportTypeErrors {} es) ∧
        ∃ a' w' es', (mainUnit.withClass childOfMain).analyze .typing {} =
            .ok (a', w', Sink.reportTypeErrors {} es') ∧
          a'.graph.entries =
            a.graph.entries ++ [(childOfMain.name.symbol, childOfMain.parent.symbol)] ∧
          Interspersed (fun e => ∃ v ∈ childOfMain.visits, v.span? = some e.span) es es' := by
  have hvalid : mainUnit.SymbolValid := List.forall_mem_singleton.mpr
    ⟨BasicClass.name_symbolValid .main, BasicClass.name_symbolValid .object,
      SymbolTables.has_known _ .main, by simp⟩
  have hchild : childOfMain.SymbolValid mainUnit.tables :=
    ⟨BasicClass.name_symbolValid .copy, BasicClass.name_symbolValid .main,
      SymbolTables.has_known _ .main, List.forall_mem_singleton.mpr ⟨BasicClass.name_symbolValid .arg,
        BasicClass.name_symbolValid .abort, by simp⟩⟩
  obtain ⟨a, w, es, heq, hok, hall⟩ := new_class_changes_nothing_else mainUnit childOfMain hvalid
    mainUnit_admits_childOfMain .typing {}
  obtain ⟨⟨a', w', s'⟩, heq'⟩ := hok hchild
  obtain ⟨hgraph, _, _, _, _, es', rfl, htold⟩ := hall a' w' s' heq'
  exact ⟨hvalid, mainUnit_admits_childOfMain, a, w, es, heq, a', w', es', heq', hgraph, htold⟩

end CoolTypes
