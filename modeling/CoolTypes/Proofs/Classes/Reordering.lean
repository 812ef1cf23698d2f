import CoolTypes.Proofs.Classes.Extension

/-!
# The order of classes

Classes with different names stand behind some others, in either of two orders. The check of the
inheritance relation then gives each of them the same verdict, so it records the same edges and, but for
cycles, reports the same (`Reordered.verdicts`, `Reordered.graph`); each cycle is reported once, at one of
its classes. Over a well-formed hierarchy all classes have the same tables, with the same reports about
them (`Reordered.agree`, `Reordered.collect`).
-/

namespace CoolTypes

/-! ## Verdicts and places by name -/

/-- Among classes with different names each one is judged on its own. -/
theorem checkClasses_eq_map_of_nodup (t : SymbolTables) (declared earlier : List Symbol)
    {classes : List Class} (h : (classes.map (·.name.symbol)).Nodup) :
    checkClasses t declared earlier classes = classes.map (checkClass t declared earlier) := by
  induction classes generalizing earlier with
  | nil => rfl
  | cons c rest ih =>
    rw [List.map_cons, List.nodup_cons] at h
    rw [checkClasses, ih _ h.2, List.map_cons]
    refine congrArg _ (List.map_congr_left fun d hd => checkClass_congr Iff.rfl ?_)
    rw [List.mem_cons, or_iff_right]
    exact fun heq => h.1 (heq ▸ List.mem_map_of_mem hd)

/-- Whether the rule is that classes are on no cycle. -/
def Violation.isCycle {ν τ : Type} : Violation ν τ → Bool
  | inheritanceCycle _ => true
  | _ => false

theorem isCycle_checkClass {t : SymbolTables} {declared earlier : List Symbol} {c : Class} :
    ∀ r ∈ (checkClass t declared earlier c).reports, r.violation.isCycle = false := by
  intro r hr
  simp only [checkClass, List.mem_append] at hr
  rcases hr with ((hr | hr) | hr) | hr
  · unfold checkParent at hr
    split at hr
    · rw [List.mem_ite_nil_right, List.mem_singleton] at hr
      rw [hr.2]
      rfl
    · exact absurd hr List.not_mem_nil
  · unfold checkFresh at hr
    rw [List.mem_ite_nil_right] at hr
    obtain ⟨_, hr⟩ := hr
    split at hr <;>
    · rw [List.mem_singleton.mp hr]
      rfl
  · unfold checkClassName at hr
    rw [List.mem_ite_nil_right, List.mem_singleton] at hr
    rw [hr.2]
    rfl
  · unfold checkDeclaredParent at hr
    rw [List.mem_ite_nil_right, List.mem_singleton] at hr
    rw [hr.2]
    rfl

/-! ## Two orders -/

/-- Two lists begin with the same classes and go on with the same classes of different names. -/
structure Reordered (classes classes' : List Class) : Prop where
  split : ∃ front own own' : List Class, classes = front ++ own ∧ classes' = front ++ own' ∧
    own.Perm own' ∧ (own.map (·.name.symbol)).Nodup

namespace Reordered

variable {t : SymbolTables} {classes classes' : List Class} (h : Reordered classes classes')

include h

theorem perm : classes.Perm classes' := by
  obtain ⟨front, own, own', rfl, rfl, hperm, _⟩ := h.split
  exact hperm.append_left front

theorem mem_names_iff {n : Symbol} :
    n ∈ classes'.map (·.name.symbol) ↔ n ∈ classes.map (·.name.symbol) :=
  (h.perm.map _).mem_iff.symm

/-- The classes are judged alike. -/
theorem verdicts : (checkInheritance t classes).verdicts.Perm (checkInheritance t classes').verdicts := by
  have hnames := fun n => h.mem_names_iff (n := n)
  obtain ⟨front, own, own', rfl, rfl, hperm, hnodup⟩ := h.split
  have hnodup' := (hperm.map (·.name.symbol)).nodup_iff.mp hnodup
  have hdeclared : checkClasses t ((front ++ own).map (·.name.symbol)) [] (front ++ own) =
      checkClasses t ((front ++ own').map (·.name.symbol)) [] (front ++ own) :=
    checkClasses_congr [] fun c _ => (hnames c.parent.symbol).symm
  show (checkClasses _ _ _ _).Perm (checkClasses _ _ _ _)
  rw [hdeclared, checkClasses_append, checkClasses_append, checkClasses_eq_map_of_nodup _ _ _ hnodup,
    checkClasses_eq_map_of_nodup _ _ _ hnodup']
  exact (hperm.map _).append_left _

theorem entries :
    (checkInheritance t classes).graph.entries.Perm (checkInheritance t classes').graph.entries := by
  rw [graph_entries_eq_verdicts, graph_entries_eq_verdicts]
  exact h.verdicts.filterMap _

/-- The edges are the same. -/
theorem graph (c : Symbol) :
    (checkInheritance t classes').graph.get? c = (checkInheritance t classes).graph.get? c :=
  Option.ext fun p => by
    rw [SymbolMap.get?_eq_some_iff, SymbolMap.get?_eq_some_iff, h.entries.mem_iff]

/-- The cycles are the same. -/
theorem onePerCycle_iff {cs : List Symbol} :
    (checkInheritance t classes').graph.OnePerCycle cs ↔
      (checkInheritance t classes).graph.OnePerCycle cs := by
  have hedge : InheritanceGraph.Edge (checkInheritance t classes').graph =
      InheritanceGraph.Edge (checkInheritance t classes).graph :=
    funext₂ fun c p => congrArg (· = some p) (h.graph c)
  have hcycle : InheritanceGraph.OnCycle (checkInheritance t classes').graph =
      InheritanceGraph.OnCycle (checkInheritance t classes).graph :=
    funext fun c => congrArg (Relation.TransGen · c c) hedge
  have hsame : InheritanceGraph.SameCycle (checkInheritance t classes').graph =
      InheritanceGraph.SameCycle (checkInheritance t classes).graph :=
    funext₂ fun c d => by rw [InheritanceGraph.SameCycle, InheritanceGraph.SameCycle, hedge]
  constructor <;> rintro ⟨h₁, h₂, h₃⟩
  · exact ⟨hcycle ▸ h₁, hsame ▸ h₂, hcycle ▸ hsame ▸ h₃⟩
  · exact ⟨hcycle.symm ▸ h₁, hsame.symm ▸ h₂, hcycle.symm ▸ hsame.symm ▸ h₃⟩

/-- The first definitions of a name stand at the same place. -/
theorem definedAt_eq (n : Symbol) : definedAt classes' n = definedAt classes n := by
  obtain ⟨front, own, own', rfl, rfl, hperm, hnodup⟩ := h.split
  have hnodup' := (hperm.map (·.name.symbol)).nodup_iff.mp hnodup
  -- behind the front there is one class of a name at most, so the first one is the only one
  have hown : own'.find? (·.name.symbol == n) = own.find? (·.name.symbol == n) :=
    Option.ext fun c => by
      rw [find?_eq_some_iff_of_nodup_map hnodup, find?_eq_some_iff_of_nodup_map hnodup', hperm.mem_iff]
  rw [definedAt, definedAt, List.find?_append, List.find?_append, hown]

/-! ## Well-formed hierarchies -/

theorem wellFormed (hw : WellFormedHierarchy t classes) : WellFormedHierarchy t classes' := by
  have hmem : ∀ c, c ∈ classes' → c ∈ classes := fun c => h.perm.mem_iff.mpr
  refine ⟨(h.perm.map _).nodup_iff.mp hw.names, fun c hc => hw.notSelfType c (hmem c hc),
    fun c hc => hw.openParent c (hmem c hc), fun c hc hroot => ?_, h.mem_names_iff.mpr hw.main,
    fun c hc => ?_⟩
  · exact h.mem_names_iff.mpr (hw.declaredParent c (hmem c hc) hroot)
  · refine Relation.ReflTransGen.mono (fun a b hab => ?_) _ _ (hw.rooted c (hmem c hc))
    obtain ⟨d, hd, hab⟩ := hab
    exact ⟨d, h.perm.mem_iff.mp hd, hab⟩

omit h in
theorem symm (h : Reordered classes classes') : Reordered classes' classes := by
  obtain ⟨front, own, own', hc, hc', hperm, hnodup⟩ := h.split
  exact ⟨front, own', own, hc', hc, hperm.symm, (hperm.map _).nodup_iff.mp hnodup⟩

theorem isValid : (checkInheritance t classes').isValid = (checkInheritance t classes).isValid := by
  rw [Bool.eq_iff_iff, isValid_iff_wellFormed, isValid_iff_wellFormed]
  exact ⟨h.symm.wellFormed, h.wellFormed⟩

theorem agree (hw : WellFormedHierarchy t classes) :
    ClassesAgree (fun _ => True) t classes classes' where
  wellFormed := hw
  wellFormed' := h.wellFormed hw
  builtin _ := trivial
  typesIn c _ := c.typesIn_true
  mem_iff _ _ := h.perm.mem_iff.symm

/-- The same is reported about the signatures. -/
theorem collect (hw : WellFormedHierarchy t classes) :
    (Signatures.collect t (hierarchyOf t classes) classes).2.Perm
      (Signatures.collect t (hierarchyOf t classes') classes').2 := by
  have hagree := h.agree hw
  have hperm := Signatures.rootFirst_hierarchyOf_perm hw
  have hperm' := Signatures.rootFirst_hierarchyOf_perm hagree.wellFormed'
  rw [Signatures.collect_reports hw, Signatures.collect_reports hagree.wellFormed']
  refine (hperm.trans (h.perm.trans hperm'.symm)).flatMap fun c hc => ?_
  rw [hagree.ownTable (hperm.mem_iff.mp hc)]

end Reordered

end CoolTypes
