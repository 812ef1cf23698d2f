import CoolTypes.Proofs.Classes.WellFormed

/-!
# The check of the inheritance relation of a unit

If the names of the classes belong to the identifier table, the check comes to an end without a fault.
Its graph, its flag and what it tells the sink are then those that the list of classes deserves
(`validate_decides_hierarchy`).
-/

namespace CoolTypes

variable {t : SymbolTables} {classes : List Class}

/-- Name and parent of a class belong to the identifier table. -/
structure Class.NamesValid (t : SymbolTables) (c : Class) : Prop where
  name : t.Has .ids c.name.symbol
  parent : t.Has .ids c.parent.symbol

/-! ## Reports can be spelled -/

theorem checkClass_symbolValid {declared earlier : List Symbol} {c : Class} (hc : c.NamesValid t) :
    ∀ r ∈ (checkClass t declared earlier c).reports, r.SymbolValid t := by
  intro r hr
  simp only [checkClass, List.mem_append] at hr
  rcases hr with ((hr | hr) | hr) | hr
  · unfold checkParent at hr
    cases hb : BuiltinClass.ofSymbol? t c.parent.symbol with
    | none => simp [hb] at hr
    | some b =>
      simp only [hb, List.mem_ite_nil_right, List.mem_singleton] at hr
      rw [hr.2]
      exact hc.name
  · unfold checkFresh at hr
    rw [List.mem_ite_nil_right] at hr
    cases hb : BuiltinClass.ofSymbol? t c.name.symbol with
    | none =>
      simp only [hb, List.mem_singleton] at hr
      rw [hr.2]
      exact hc.name
    | some b =>
      simp only [hb, List.mem_singleton] at hr
      rw [hr.2]
      trivial
  · unfold checkClassName at hr
    rw [List.mem_ite_nil_right, List.mem_singleton] at hr
    rw [hr.2]
    trivial
  · unfold checkDeclaredParent at hr
    rw [List.mem_ite_nil_right, List.mem_singleton] at hr
    rw [hr.2]
    exact ⟨hc.name, hc.parent⟩

/-- A class on a cycle of the graph is declared. -/
theorem exists_class_of_cycle {c : Symbol}
    (h : Relation.TransGen (checkInheritance t classes).graph.Edge c c) :
    ∃ d ∈ classes, d.name.symbol = c := by
  obtain ⟨p, hp, _⟩ := Relation.TransGen.head'_iff.mp h
  obtain ⟨d, hd, hname, _⟩ := (soundEdge_of_get? hp).parentOf
  exact ⟨d, hd, hname⟩

theorem closing_symbolValid (hnames : ∀ c ∈ classes, c.NamesValid t) :
    ∀ r ∈ (checkInheritance t classes).closing, r.SymbolValid t := by
  intro r hr
  simp only [checkInheritance, List.mem_append, List.mem_map] at hr
  rcases hr with hr | ⟨c, hc, rfl⟩
  · rw [List.mem_ite_nil_left, List.mem_singleton] at hr
    rw [hr.2]
    trivial
  · obtain ⟨d, hd, rfl⟩ := exists_class_of_cycle (search_right_checkInheritance.closing c hc)
    exact (hnames d hd).name

theorem verdict_names {v : ClassVerdict} (hnames : ∀ c ∈ classes, c.NamesValid t)
    (hv : v ∈ (checkInheritance t classes).verdicts) :
    t.Has .ids v.parent ∧ ∀ r ∈ v.reports, r.SymbolValid t := by
  simp only [checkInheritance, checkClasses_eq_map, List.mem_map] at hv
  obtain ⟨i, _, rfl⟩ := hv
  have hi := hnames classes[i] (List.getElem_mem _)
  exact ⟨hi.parent, checkClass_symbolValid hi⟩

/-- There is a spelling for each report. -/
theorem spell_checkInheritance (hnames : ∀ c ∈ classes, c.NamesValid t) :
    ∃ es, (checkInheritance t classes).spell t = .ok es ∧
      (es = [] ↔ (checkInheritance t classes).reports = []) := by
  have hown : Faultless ((checkInheritance t classes).verdicts.mapM fun v => do
      let _ ← t.name v.parent
      v.reports.mapM (·.spell t)) := by
    refine .mapM fun v hv => ?_
    obtain ⟨hparent, hreports⟩ := verdict_names hnames hv
    exact hparent.name_faultless.bind fun _ _ =>
      .mapM fun r hr => TypeError.spell_faultless (hreports r hr)
  have hclosing : Faultless ((checkInheritance t classes).closing.mapM (·.spell t)) :=
    .mapM fun r hr => TypeError.spell_faultless (closing_symbolValid hnames r hr)
  obtain ⟨own, hown⟩ := hown
  obtain ⟨closing, hclosing⟩ := hclosing
  refine ⟨own.flatten ++ closing, ?_, ?_⟩
  · rw [Inheritance.spell, hown]
    show ((checkInheritance t classes).closing.mapM (·.spell t) >>= fun es =>
      pure (own.flatten ++ es)) = _
    rw [hclosing]
    rfl
  · -- each verdict gives as many texts as it has reports
    have hflat := flatten_eq_nil_iff_of_mapM (k := ClassVerdict.reports) (fun v es hv => by
      obtain ⟨_, _, hv⟩ := bind_eq_ok.mp hv
      rw [← List.length_eq_zero_iff, length_of_mapM_eq_ok hv, List.length_eq_zero_iff]) hown
    have hone := length_of_mapM_eq_ok hclosing
    rw [Inheritance.reports, List.append_eq_nil_iff, List.append_eq_nil_iff, hflat,
      ← List.length_eq_zero_iff (l := closing), hone, List.length_eq_zero_iff]

/-- The check of a unit whose class names belong to its table. -/
theorem validate_eq {u : CompilationUnit} (s : Sink)
    (hnames : ∀ c ∈ u.program.classes, c.NamesValid u.tables) :
    ∃ es, u.validate s =
        .ok (checkInheritance u.tables u.program.classes, s.reportTypeErrors es) ∧
      (es = [] ↔ (checkInheritance u.tables u.program.classes).reports = []) := by
  obtain ⟨es, hes, hnil⟩ := spell_checkInheritance hnames
  refine ⟨es, ?_, hnil⟩
  show ((checkInheritance u.tables u.program.classes).spell u.tables >>= fun es =>
    pure (checkInheritance u.tables u.program.classes, s.reportTypeErrors es)) = _
  rw [hes]
  rfl

/-- The check comes to an end, records the edges that the classes deserve, and its flag, its silence
and the well-formedness of the classes are the same; what it accepts is a tree over all classes. No
walk of its search for cycles, whatever is known of classes before, is cut short by its fuel. -/
theorem validate_decides_hierarchy (u : CompilationUnit) (s : Sink)
    (hnames : ∀ c ∈ u.program.classes, c.NamesValid u.tables) :
    ∃ i s', u.validate s = .ok (i, s') ∧
      i.graph.entries = deservedEdges u.tables u.program.classes ∧
      (i.isValid = true ↔ s'.emitted = s.emitted) ∧
      (i.isValid = true ↔ WellFormedHierarchy u.tables u.program.classes) ∧
      (i.isValid = true → RootedTree u.tables u.program.classes i.graph) ∧
      ∀ fates start extra,
        walkUp i.graph (u.tables.known .object) fates (i.graph.size + 2 + extra) [] start =
          walkUp i.graph (u.tables.known .object) fates (i.graph.size + 2) [] start := by
  obtain ⟨es, heq, hnil⟩ := validate_eq s hnames
  refine ⟨_, _, heq, graph_entries _ _, ?_, isValid_iff_wellFormed, fun hvalid => ?_, ?_⟩
  · rw [Sink.emitted_reportTypeErrors_eq_iff, hnil, isValid_iff_reports_eq_nil]
  · exact (isValid_iff_wellFormed.mp hvalid).rootedTree
  · intro fates start extra
    exact InheritanceGraph.walkUp_fuel fates (.nil _ _) (Nat.le_refl _) extra

/-- A class without features among the well-known names. -/
def bareClass (name parent : WellKnown) : Class :=
  ⟨BasicClass.name .initial name, BasicClass.name .initial parent,
    SymbolTables.known .initial .basicFile, [], .synthetic⟩

/-- A unit with a cycle of two classes, a class that hangs off it and a second root class. -/
def cyclicUnit : CompilationUnit where
  tables := .initial
  program := ⟨[bareClass .object .noClass, bareClass .main .object, bareClass .copy .abort,
    bareClass .abort .copy, bareClass .length .copy, bareClass .object .main], .synthetic⟩

theorem validate_decides_hierarchy_cyclic :
    (∀ c ∈ cyclicUnit.program.classes, c.NamesValid cyclicUnit.tables) ∧
      ∃ i s', cyclicUnit.validate {} = .ok (i, s') ∧ i.isValid = false ∧ s'.emitted ≠ [] ∧
        i.graph.entries = deservedEdges cyclicUnit.tables cyclicUnit.program.classes := by
  have hnames : ∀ c ∈ cyclicUnit.program.classes, c.NamesValid cyclicUnit.tables := by
    intro c hc
    simp only [cyclicUnit, List.mem_cons, List.not_mem_nil, or_false] at hc
    rcases hc with rfl | rfl | rfl | rfl | rfl | rfl <;>
      exact ⟨SymbolTables.has_known _ _, SymbolTables.has_known _ _⟩
  obtain ⟨i, s', heq, hedges, hsilent, hwell, _⟩ := validate_decides_hierarchy cyclicUnit {} hnames
  have hinvalid : ¬ i.isValid = true := fun h => by
    have hnodup := (hwell.mp h).names
    exact absurd hnodup (by decide)
  exact ⟨hnames, i, s', heq, by simpa using hinvalid, fun h => hinvalid (hsilent.mpr h), hedges⟩

end CoolTypes
