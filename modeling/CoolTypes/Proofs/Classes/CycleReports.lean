import CoolTypes.Proofs.Classes.Reordering
import CoolTypes.Proofs.Classes.Validation
import CoolTypes.Proofs.Classes.Walks
import CoolTypes.Proofs.Diagnostics.Texts

/-!
# Reports of cycles

Among the reports of the check of the inheritance relation those of cycles are one for each class at which
the search has closed a cycle (`filter_cycle_reports`). Such a class is declared, so its report stands at
the first class that is called so. With the laws of the search this says which cycles are reported, under
which names and in which order (`one_report_per_cycle`).
-/

namespace CoolTypes

variable {t : SymbolTables} {classes : List Class}

/-! ## Reports of cycles among the others -/

@[simp] theorem TypeError.isCycle_told (t : SymbolTables) (r : Report) :
    (r.told t).violation.isCycle = r.violation.isCycle := by
  obtain ⟨v, s⟩ := r
  cases v <;> rfl

theorem isCycle_verdicts : ∀ r ∈ (checkInheritance t classes).verdicts.flatMap (·.reports),
    r.violation.isCycle = false := by
  refine List.forall_mem_flatMap.mpr fun v hv => ?_
  simp only [checkInheritance, checkClasses_eq_map, List.mem_map] at hv
  obtain ⟨_, _, rfl⟩ := hv
  exact isCycle_checkClass

/-- The classes at which the search closes a cycle. -/
def closedAt (t : SymbolTables) (classes : List Class) : List Symbol :=
  (InheritanceGraph.search (checkInheritance t classes).graph (t.known .object)).closing

theorem filter_cycle_reports :
    (checkInheritance t classes).reports.filter (·.violation.isCycle) =
      (closedAt t classes).map fun c =>
        (Violation.inheritanceCycle c).place (definedAt classes c) := by
  have hverdicts : ((checkInheritance t classes).verdicts.flatMap (·.reports)).filter
      (·.violation.isCycle) = [] :=
    List.filter_eq_nil_iff.mpr fun r hr => by simp [isCycle_verdicts r hr]
  have hmain : (if t.known .main ∈ classes.map (·.name.symbol) then []
      else [Violation.noMainClass.place .synthetic] : List Report).filter (·.violation.isCycle) = [] := by
    split <;> rfl
  rw [Inheritance.reports, List.filter_append, hverdicts, List.nil_append, closing_checkInheritance,
    List.filter_append, hmain, List.nil_append]
  exact List.filter_eq_self.mpr (List.forall_mem_map.mpr fun _ _ => rfl)

/-! ## Where a cycle is reported -/

/-- The report names the class `c`, at the first of the classes that is called so. -/
structure NamesCycle (t : SymbolTables) (classes : List Class) (e : TypeError String String)
    (c : Symbol) : Prop where
  violation : ∃ text, t.name c = .ok text ∧ e.violation = .inheritanceCycle text
  place : ∃ earlier d later, classes = earlier ++ d :: later ∧ d.name.symbol = c ∧
    (∀ d' ∈ earlier, d'.name.symbol ≠ c) ∧ e.span = d.name.span

/-- A declared class has a first definition, and that is where it is defined. -/
theorem exists_definedAt {c : Symbol} (hc : c ∈ classes.map (·.name.symbol)) :
    ∃ earlier d later, classes = earlier ++ d :: later ∧ d.name.symbol = c ∧
      (∀ d' ∈ earlier, d'.name.symbol ≠ c) ∧ definedAt classes c = d.name.span := by
  cases hfind : classes.find? (·.name.symbol == c) with
  | none =>
    obtain ⟨d, hd, rfl⟩ := List.mem_map.mp hc
    exact absurd (List.find?_eq_none.mp hfind d hd) (by simp)
  | some d =>
    obtain ⟨hname, earlier, later, hsplit, hearlier⟩ := List.find?_eq_some_iff_append.mp hfind
    refine ⟨earlier, d, later, hsplit, by simpa using hname, fun d' hd' => ?_, ?_⟩
    · simpa using hearlier d' hd'
    · rw [definedAt, hfind]

/-- A check that comes to an end has looked up the text of each class at which a cycle is closed. -/
theorem exists_name_of_spell {es : List (TypeError String String)}
    (h : (checkInheritance t classes).spell t = .ok es) :
    ∀ c ∈ closedAt t classes, ∃ text, t.name c = .ok text := by
  intro c hc
  obtain ⟨_, _, h⟩ := bind_eq_ok.mp h
  obtain ⟨told, hclosing, _⟩ := bind_eq_ok.mp h
  have hreport : (Violation.inheritanceCycle c).place (definedAt classes c) ∈
      (checkInheritance t classes).closing := by
    rw [closing_checkInheritance]
    exact List.mem_append_right _ (List.mem_map_of_mem hc)
  have hspelled := List.mem_map_of_mem (f := (·.spell t)) hreport
  rw [mapM_eq_ok_iff.mp hclosing] at hspelled
  obtain ⟨e, _, he⟩ := List.mem_map.mp hspelled
  obtain ⟨v, hv, _⟩ := bind_eq_ok.mp he.symm
  obtain ⟨text, htext, _⟩ := bind_eq_ok.mp hv
  exact ⟨text, htext⟩

/-- If the check comes to an end, what it tells of cycles is told at the classes where they are closed. -/
theorem namesCycle_of_spell {es : List (TypeError String String)}
    (h : (checkInheritance t classes).spell t = .ok es) :
    List.Forall₂ (NamesCycle t classes) (es.filter (·.violation.isCycle)) (closedAt t classes) := by
  have hfilter : es.filter (·.violation.isCycle) =
      ((checkInheritance t classes).reports.filter (·.violation.isCycle)).map (·.told t) := by
    rw [Inheritance.eq_of_spell h, List.filter_map]
    simp only [Function.comp_def, TypeError.isCycle_told]
  rw [hfilter, filter_cycle_reports, List.map_map, List.forall₂_map_left_iff, List.forall₂_same]
  intro c hc
  obtain ⟨text, htext⟩ := exists_name_of_spell h c hc
  obtain ⟨d, hd, rfl⟩ := exists_class_of_cycle (search_right_checkInheritance.closing c hc)
  refine ⟨⟨text, htext, ?_⟩, exists_definedAt (List.mem_map_of_mem hd)⟩
  rw [SymbolTables.eq_of_name htext]
  rfl

/-- The check of the inheritance relation, which comes to an end if the names of the classes belong to the
table, tells of the cycles of the recorded graph once each: at the class of the cycle that following
parents meets first from the earliest edge into the cycle, where that class is first defined, and in the
order of these edges. In every graph the walks of the search pass no class twice and stop within their
fuel. -/
theorem one_report_per_cycle (u : CompilationUnit) (s : Sink) :
    ((∀ c ∈ u.program.classes, c.NamesValid u.tables) → ∃ r, u.validate s = .ok r) ∧
    (∀ i s', u.validate s = .ok (i, s') → ∃ es cs leads,
      s' = s.reportTypeErrors es ∧
      List.Forall₂ (NamesCycle u.tables u.program.classes) (es.filter (·.violation.isCycle)) cs ∧
      i.graph.OnePerCycle cs ∧
      leads.Sublist i.graph.keys ∧ List.Forall₂ (i.graph.EntersFirst i.graph.keys) leads cs) ∧
    ∀ (g : InheritanceGraph) (root : Symbol),
      (g.search root).closing = (g.walksFrom root {} g.keys).flatMap (·.closing.toList) ∧
      ((g.walksFrom root {} g.keys).flatMap (·.path)).Nodup ∧
      ∀ fates start extra, walkUp g root fates (g.size + 2 + extra) [] start =
        walkUp g root fates (g.size + 2) [] start := by
  refine ⟨fun hnames => ?_, fun i s' h => ?_, fun g root => ⟨?_, ?_, fun fates start extra => ?_⟩⟩
  · obtain ⟨es, heq, _⟩ := validate_eq s hnames
    exact ⟨_, heq⟩
  · obtain ⟨es, hes, h⟩ := bind_eq_ok.mp h
    cases h
    have hroot : (checkInheritance u.tables u.program.classes).graph.get? (u.tables.known .object) =
        none := graph_get?_root
    obtain ⟨leads, hsub, hleads⟩ := InheritanceGraph.search_closesInOrder hroot
    exact ⟨es, closedAt u.tables u.program.classes, leads, rfl, namesCycle_of_spell hes,
      InheritanceGraph.closing_onePerCycle graph_get?_root, hsub, hleads⟩
  · exact InheritanceGraph.closing_foldl_searchFrom {} g.keys
  · exact (InheritanceGraph.nodup_walksFrom {} g.keys).1
  · exact InheritanceGraph.walkUp_fuel fates (.nil g start) (Nat.le_refl _) extra

/-- A unit with a cycle of two classes that an earlier and a later class hang off, and a class that is its
own parent. -/
def tangledUnit : CompilationUnit where
  tables := .initial
  program := ⟨[bareClass .object .noClass, bareClass .main .object, bareClass .length .copy,
    bareClass .abort .copy, bareClass .copy .abort, bareClass .substr .substr,
    bareClass .concat .length], .synthetic⟩

/-- The first cycle is closed where the class in front of it leads into it, the second one at its class. -/
theorem one_report_per_cycle_tangled :
    (∀ c ∈ tangledUnit.program.classes, c.NamesValid tangledUnit.tables) ∧
      closedAt .initial tangledUnit.program.classes =
        [SymbolTables.known .initial .copy, SymbolTables.known .initial .substr] ∧
      ∃ i es, tangledUnit.validate {} = .ok (i, Sink.reportTypeErrors {} es) ∧
        ∃ e ∈ es, e.violation.isCycle = true ∧
          ∃ c, NamesCycle .initial tangledUnit.program.classes e c ∧ i.graph.OnCycle c := by
  have hnames : ∀ c ∈ tangledUnit.program.classes, c.NamesValid tangledUnit.tables := by
    intro c hc
    simp only [tangledUnit, List.mem_cons, List.not_mem_nil, or_false] at hc
    rcases hc with rfl | rfl | rfl | rfl | rfl | rfl | rfl <;>
      exact ⟨SymbolTables.has_known _ _, SymbolTables.has_known _ _⟩
  obtain ⟨hends, hreports, _⟩ := one_report_per_cycle tangledUnit {}
  obtain ⟨⟨i, s'⟩, hrun⟩ := hends hnames
  obtain ⟨es, cs, _, hs', hnamed, hcycles, _⟩ := hreports i s' hrun
  have hgraph : i = checkInheritance .initial tangledUnit.program.classes := by
    obtain ⟨_, _, hi⟩ := bind_eq_ok.mp hrun
    cases hi
    rfl
  have hloop : i.graph.OnCycle (SymbolTables.known .initial .substr) := by
    subst hgraph
    refine .single ?_
    show (checkInheritance .initial tangledUnit.program.classes).graph.get? _ = some _
    decide +kernel
  obtain ⟨c, hc, _⟩ := hcycles.complete _ hloop
  -- there is a cycle, so there is a first report of one
  generalize hfilter : es.filter (·.violation.isCycle) = told at hnamed
  cases hnamed with
  | nil => exact absurd hc List.not_mem_nil
  | @cons e c told cs hec _ =>
    have he : e ∈ es.filter (·.violation.isCycle) := hfilter ▸ List.mem_cons_self
    obtain ⟨hmem, hcycle⟩ := List.mem_filter.mp he
    exact ⟨hnames, by decide +kernel, i, es, hs' ▸ hrun, e, hmem, hcycle, c, hec,
      hcycles.onCycle c List.mem_cons_self⟩

end CoolTypes
