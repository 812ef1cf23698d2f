import CoolTypes.Proofs.Classes.Verdicts
import CoolTypes.Proofs.Diagnostics.Spelling

/-!
# Well-formed hierarchies

`WellFormedHierarchy` says on the list of classes alone what a class hierarchy has to be. The check of
the inheritance relation decides it (`isValid_iff_wellFormed`), reports something exactly if it fails
(`isValid_iff_reports_eq_nil`), and what it accepts is a tree with the root class on top
(`WellFormedHierarchy.rootedTree`).
-/

namespace CoolTypes

/-- A class called `a` is declared with parent `b`. -/
def ParentOf (classes : List Class) (a b : Symbol) : Prop :=
  ∃ c ∈ classes, c.name.symbol = a ∧ c.parent.symbol = b

/-- The classes have different names, a main class is among them, and following declared parents leads
from each of them to the root. -/
structure WellFormedHierarchy (t : SymbolTables) (classes : List Class) : Prop where
  names : (classes.map (·.name.symbol)).Nodup
  notSelfType : ∀ c ∈ classes, c.name.symbol ≠ t.known .selfType
  openParent : ∀ c ∈ classes, ¬ t.IsPrimitive c.parent.symbol
  declaredParent : ∀ c ∈ classes, c.name.symbol ≠ t.known .object →
    c.parent.symbol ∈ classes.map (·.name.symbol)
  main : t.known .main ∈ classes.map (·.name.symbol)
  rooted : ∀ c ∈ classes,
    Relation.ReflTransGen (ParentOf classes) c.name.symbol (t.known .object)

variable {t : SymbolTables} {classes : List Class}

/-! ## Edges of the graph -/

/-- An edge comes from a declaration that breaks no rule. -/
structure SoundEdge (t : SymbolTables) (classes : List Class) (a b : Symbol) : Prop where
  parentOf : ParentOf classes a b
  notRoot : a ≠ t.known .object
  notSelfType : a ≠ t.known .selfType
  openParent : ¬ t.IsPrimitive b
  declaredParent : b ∈ classes.map (·.name.symbol)

theorem soundEdge_of_get? {a b : Symbol}
    (h : (checkInheritance t classes).graph.get? a = some b) : SoundEdge t classes a b := by
  rw [SymbolMap.get?_eq_some_iff, graph_entries, deservedEdges, List.mem_map] at h
  obtain ⟨i, hi, heq⟩ := h
  have hi' : GetsEdge t classes i := by simpa using List.of_mem_filter hi
  injection heq with ha hb
  subst ha hb
  exact ⟨⟨classes[i], List.getElem_mem _, rfl, rfl⟩, hi'.notRoot, hi'.notSelfType, hi'.openParent,
    hi'.declaredParent⟩

theorem graph_get?_root :
    (checkInheritance t classes).graph.get? (t.known .object) = none := by
  refine Option.eq_none_iff_forall_ne_some.mpr fun p hp => ?_
  exact (soundEdge_of_get? hp).notRoot rfl

theorem search_right_checkInheritance : InheritanceGraph.SearchRight
    (checkInheritance t classes).graph (checkInheritance t classes).graph.keys
    (InheritanceGraph.search (checkInheritance t classes).graph (t.known .object)) :=
  InheritanceGraph.search_right graph_get?_root

/-! ## What the check reports -/

/-- No class breaks a rule of its own. -/
structure ClassesOk (t : SymbolTables) (classes : List Class) : Prop where
  names : (classes.map (·.name.symbol)).Nodup
  notSelfType : ∀ c ∈ classes, c.name.symbol ≠ t.known .selfType
  openParent : ∀ c ∈ classes, ¬ t.IsPrimitive c.parent.symbol
  declaredParent : ∀ c ∈ classes, c.name.symbol ≠ t.known .object →
    c.parent.symbol ∈ classes.map (·.name.symbol)

theorem nodup_names_iff : (classes.map (·.name.symbol)).Nodup ↔
    ∀ i : Fin classes.length,
      (classes.get i).name.symbol ∉ ((classes.take i).map (·.name.symbol)).reverse ++ [] := by
  simp only [List.append_nil, List.mem_reverse, mem_names_take_iff, List.get_eq_getElem, List.Nodup,
    List.pairwise_iff_getElem, List.length_map, List.getElem_map]
  constructor
  · rintro h i ⟨j, hj, heq⟩
    exact h j i j.isLt i.isLt hj heq
  · intro h i j hi hj hij heq
    exact h ⟨j, hj⟩ ⟨⟨i, hi⟩, hij, heq⟩

theorem verdicts_reports_eq_nil_iff :
    (checkInheritance t classes).verdicts.flatMap (·.reports) = [] ↔ ClassesOk t classes := by
  simp only [checkInheritance, List.flatMap_eq_nil_iff, checkClasses_eq_map, List.forall_mem_map,
    List.mem_finRange, forall_true_left, checkClass_reports_eq_nil_iff]
  constructor
  · intro h
    refine ⟨nodup_names_iff.mpr fun i => (h i).fresh, fun c hc => ?_, fun c hc => ?_,
      fun c hc => ?_⟩ <;> obtain ⟨i, hi, rfl⟩ := List.mem_iff_getElem.mp hc
    · exact (h ⟨i, hi⟩).notSelfType
    · exact (h ⟨i, hi⟩).openParent
    · exact (h ⟨i, hi⟩).declaredParent
  · intro h i
    exact ⟨h.openParent _ (List.getElem_mem _), nodup_names_iff.mp h.names i,
      h.notSelfType _ (List.getElem_mem _), h.declaredParent _ (List.getElem_mem _)⟩

theorem reports_eq_nil_iff : (checkInheritance t classes).reports = [] ↔
    ClassesOk t classes ∧ t.known .main ∈ classes.map (·.name.symbol) ∧
      (checkInheritance t classes).acyclic = true := by
  have hsearch := @search_right_checkInheritance t classes
  rw [Inheritance.reports, List.append_eq_nil_iff, verdicts_reports_eq_nil_iff,
    show (checkInheritance t classes).acyclic = (InheritanceGraph.search
      (checkInheritance t classes).graph (t.known .object)).acyclic from rfl, ← hsearch.reported]
  simp only [checkInheritance, List.append_eq_nil_iff, List.map_eq_nil_iff]
  by_cases hmain : t.known .main ∈ classes.map (·.name.symbol) <;> simp [hmain]

/-- The flag is cleared exactly if something is reported: a walk that fails in silence has met a cycle
that an earlier walk has reported. -/
theorem isValid_iff_reports_eq_nil :
    (checkInheritance t classes).isValid = true ↔ (checkInheritance t classes).reports = [] := by
  rw [Inheritance.isValid, Bool.and_eq_true, List.isEmpty_iff, and_iff_left_iff_imp]
  exact fun h => (reports_eq_nil_iff.mp h).2.2

/-! ## Validity -/

/-- If no class breaks a rule, each class but the root has its edge. -/
theorem ClassesOk.get? (hok : ClassesOk t classes) {c : Class} (hc : c ∈ classes)
    (hroot : c.name.symbol ≠ t.known .object) :
    (checkInheritance t classes).graph.get? c.name.symbol = some c.parent.symbol := by
  obtain ⟨i, hi, rfl⟩ := List.mem_iff_getElem.mp hc
  have hget : GetsEdge t classes ⟨i, hi⟩ := getsEdge_iff.mpr
    ⟨⟨hok.openParent _ hc, nodup_names_iff.mp hok.names ⟨i, hi⟩, hok.notSelfType _ hc,
      hok.declaredParent _ hc⟩, hroot⟩
  rw [SymbolMap.get?_eq_some_iff, graph_entries, deservedEdges]
  exact List.mem_map.mpr ⟨⟨i, hi⟩, by simpa using hget, rfl⟩

/-- If no class breaks a rule and no walk fails, parents lead from each class to the root. -/
theorem ClassesOk.reaches_root (hok : ClassesOk t classes)
    (hacyclic : (checkInheritance t classes).acyclic = true) {c : Class} (hc : c ∈ classes) :
    (checkInheritance t classes).graph.Reaches c.name.symbol (t.known .object) := by
  have hends : InheritanceGraph.Ends (checkInheritance t classes).graph c.name.symbol := by
    by_cases hroot : c.name.symbol = t.known .object
    · exact ⟨_, .top (hroot ▸ graph_get?_root)⟩
    · exact search_right_checkInheritance.acyclic.mp hacyclic _
        (SymbolMap.mem_keys_of_get? (hok.get? hc hroot))
  obtain ⟨l, hl⟩ := hends
  obtain ⟨top, hnone, hreach⟩ := hl.exists_top
  -- each class on the way is declared, so the one without parent can only be the root
  have hdeclared : top ∈ classes.map (·.name.symbol) := by
    rcases Relation.ReflTransGen.cases_tail hreach with rfl | ⟨d, _, hedge⟩
    · exact List.mem_map_of_mem hc
    · exact (soundEdge_of_get? hedge).declaredParent
  obtain ⟨d, hd, rfl⟩ := List.mem_map.mp hdeclared
  by_cases hroot : d.name.symbol = t.known .object
  · rwa [hroot] at hreach
  · rw [hok.get? hd hroot] at hnone
    exact absurd hnone (by simp)

theorem WellFormedHierarchy.classesOk (h : WellFormedHierarchy t classes) : ClassesOk t classes :=
  ⟨h.names, h.notSelfType, h.openParent, h.declaredParent⟩

/-- The check decides whether the hierarchy is well formed. -/
theorem isValid_iff_wellFormed :
    (checkInheritance t classes).isValid = true ↔ WellFormedHierarchy t classes := by
  rw [isValid_iff_reports_eq_nil, reports_eq_nil_iff]
  constructor
  · rintro ⟨hok, hmain, hacyclic⟩
    refine ⟨hok.names, hok.notSelfType, hok.openParent, hok.declaredParent, hmain, fun c hc => ?_⟩
    exact Relation.ReflTransGen.mono (fun a b hab => (soundEdge_of_get? hab).parentOf) _ _
      (hok.reaches_root hacyclic hc)
  · intro h
    refine ⟨h.classesOk, h.main, search_right_checkInheritance.acyclic.mpr fun c hc => ?_⟩
    obtain ⟨p, hp⟩ := Option.isSome_iff_exists.mp (SymbolMap.contains_iff_mem_keys.mpr hc)
    obtain ⟨d, hd, rfl, _⟩ := (soundEdge_of_get? hp).parentOf
    -- from the root downwards, each class on the way has a chain
    refine Relation.ReflTransGen.head_induction_on (h.rooted d hd) ?_ fun hab _ ih => ?_
    · exact ⟨_, .top graph_get?_root⟩
    · obtain ⟨c, hc, rfl, rfl⟩ := hab
      by_cases hroot : c.name.symbol = t.known .object
      · exact ⟨_, .top (hroot ▸ graph_get?_root)⟩
      · exact (InheritanceGraph.ends_iff_of_edge (h.classesOk.get? hc hroot)).mpr ih

/-! ## The accepted hierarchy -/

/-- The graph of a list of classes is a tree of all of them with the root class on top. -/
structure RootedTree (t : SymbolTables) (classes : List Class) (g : InheritanceGraph) : Prop where
  rootDeclared : t.known .object ∈ classes.map (·.name.symbol)
  rootTop : g.get? (t.known .object) = none
  oneEdge : ∀ c ∈ classes, c.name.symbol ≠ t.known .object →
    g.entries.filter (·.1 = c.name.symbol) = [(c.name.symbol, c.parent.symbol)]
  ancestors : ∀ c ∈ classes, let l := (ClassHierarchy.ofGraph t g).ancestors c.name.symbol
    g.ChainFrom c.name.symbol l ∧ l.getLast? = some (t.known .object) ∧ l.Nodup

/-- The hierarchy that is built over the graph of the classes. -/
def hierarchyOf (t : SymbolTables) (classes : List Class) : ClassHierarchy :=
  .ofGraph t (checkInheritance t classes).graph

/-- Nothing inherits from a primitive class. -/
theorem eq_of_reaches_primitive {c p : Symbol} (hp : t.IsPrimitive p)
    (hcp : (hierarchyOf t classes).graph.Reaches c p) : c = p := by
  rcases Relation.ReflTransGen.cases_tail hcp with heq | ⟨d, _, hedge⟩
  · exact heq.symm
  · exact absurd hp (soundEdge_of_get? hedge).openParent

/-- The hierarchy of a well-formed list holds the classes of the list and no other. -/
theorem WellFormedHierarchy.contains_iff (h : WellFormedHierarchy t classes) {s : Symbol} :
    (hierarchyOf t classes).contains s = true ↔ s ∈ classes.map (·.name.symbol) := by
  rw [ClassHierarchy.contains_iff]
  constructor
  · rintro (rfl | ⟨p, hp⟩)
    · -- the root is declared: parents lead to it from the main class
      obtain ⟨c, hc, hname⟩ := List.mem_map.mp h.main
      rcases Relation.ReflTransGen.cases_tail (h.rooted c hc) with heq | ⟨d, _, e, he, _, hparent⟩
      · rw [hname, SymbolTables.known_inj] at heq
        exact absurd heq (by simp)
      · by_cases hroot : e.name.symbol = t.known .object
        · exact List.mem_map.mpr ⟨e, he, hroot⟩
        · have hdeclared := h.declaredParent e he hroot
          rwa [hparent] at hdeclared
    · obtain ⟨c, hc, hname, _⟩ := (soundEdge_of_get? hp).parentOf
      exact List.mem_map.mpr ⟨c, hc, hname⟩
  · intro hs
    obtain ⟨c, hc, rfl⟩ := List.mem_map.mp hs
    by_cases hroot : c.name.symbol = t.known .object
    · exact .inl hroot
    · exact .inr ⟨_, h.classesOk.get? hc hroot⟩

theorem WellFormedHierarchy.rooted_hierarchy (h : WellFormedHierarchy t classes) :
    (hierarchyOf t classes).Rooted := by
  refine ⟨graph_get?_root, fun s hs => ?_⟩
  obtain ⟨c, hc, rfl⟩ := List.mem_map.mp (h.contains_iff.mp hs)
  have hacyclic := (reports_eq_nil_iff.mp
    (isValid_iff_reports_eq_nil.mp (isValid_iff_wellFormed.mpr h))).2.2
  exact h.classesOk.reaches_root hacyclic hc

theorem WellFormedHierarchy.rootedTree (h : WellFormedHierarchy t classes) :
    RootedTree t classes (checkInheritance t classes).graph := by
  refine ⟨h.contains_iff.mp (ClassHierarchy.contains_iff.mpr (.inl rfl)), graph_get?_root,
    fun c hc hroot => ?_, fun c hc => ?_⟩
  · exact SymbolMap.filter_entries (h.classesOk.get? hc hroot)
  · have hmem := h.contains_iff.mpr (List.mem_map_of_mem hc)
    obtain ⟨hchain, hlast⟩ := h.rooted_hierarchy.chainFrom_ancestors hmem
    exact ⟨hchain, hlast, hchain.nodup⟩

end CoolTypes
