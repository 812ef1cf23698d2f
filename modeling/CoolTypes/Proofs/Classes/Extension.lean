import CoolTypes.Proofs.Classes.Agreement
import CoolTypes.Proofs.Classes.Cycles
import CoolTypes.Proofs.Classes.Validation
import CoolTypes.Proofs.Typing.Places

/-!
# A class that no other one mentions

A class is put behind others that do not mention its name. The check of the inheritance relation reports
what it reported without the class and records one more edge (`Unmentioned.reports_append`,
`Unmentioned.grows`): no walk comes to the new class, and the walk from it ends at a class that is known.
The signatures of the others stay, and what is reported about them comes in the old order, with reports
about the new class in between (`Unmentioned.collect_append`).
-/

namespace CoolTypes

/-! ## Members in between -/

/-- The second list is the first one with further members in between. -/
inductive Interspersed {α : Type} (P : α → Prop) : List α → List α → Prop
  | nil : Interspersed P [] []
  | keep {a l l'} : Interspersed P l l' → Interspersed P (a :: l) (a :: l')
  | further {a l l'} : P a → Interspersed P l l' → Interspersed P l (a :: l')

namespace Interspersed

variable {α β : Type} {P : α → Prop} {l l' m m' : List α}

theorem refl (l : List α) : Interspersed P l l := by
  induction l with
  | nil => exact .nil
  | cons a rest ih => exact .keep ih

theorem of_forall (h : ∀ a ∈ l, P a) : Interspersed P [] l := by
  induction l with
  | nil => exact .nil
  | cons a rest ih =>
    rw [List.forall_mem_cons] at h
    exact .further h.1 (ih h.2)

theorem append (h : Interspersed P l l') (h' : Interspersed P m m') :
    Interspersed P (l ++ m) (l' ++ m') := by
  induction h with
  | nil => exact h'
  | keep _ ih => exact .keep ih
  | further ha _ ih => exact .further ha ih

theorem append_further (h : Interspersed P l l') (hm : ∀ a ∈ m, P a) :
    Interspersed P l (l' ++ m) := by
  have happend := h.append (of_forall hm)
  rwa [List.append_nil] at happend

theorem map {Q : β → Prop} {f : α → β} (h : Interspersed P l l') (hf : ∀ a, P a → Q (f a)) :
    Interspersed Q (l.map f) (l'.map f) := by
  induction h with
  | nil => exact .nil
  | keep _ ih => exact .keep ih
  | further ha _ ih => exact .further (hf _ ha) ih

theorem flatMap_congr {Q : β → Prop} {f f' : α → List β}
    (h : ∀ a ∈ l, Interspersed Q (f a) (f' a)) : Interspersed Q (l.flatMap f) (l.flatMap f') := by
  induction l with
  | nil => exact .nil
  | cons a rest ih =>
    rw [List.forall_mem_cons] at h
    exact h.1.append (ih h.2)

/-- What is found in the further members stands in between what is found in the others. -/
theorem flatMap {Q : β → Prop} {f f' : α → List β} (h : Interspersed P l l')
    (hsame : ∀ a ∈ l, f' a = f a) (hfurther : ∀ a, P a → ∀ b ∈ f' a, Q b) :
    Interspersed Q (l.flatMap f) (l'.flatMap f') := by
  induction h with
  | nil => exact .nil
  | keep _ ih =>
    rw [List.forall_mem_cons] at hsame
    rw [List.flatMap_cons, List.flatMap_cons, hsame.1]
    exact (refl _).append (ih hsame.2)
  | further ha _ ih =>
    rw [List.flatMap_cons]
    exact (of_forall (hfurther _ ha)).append (ih hsame)

end Interspersed

/-! ## Graphs with one more edge -/

/-- The second graph has one more edge, from a class to which no edge leads. -/
structure InheritanceGraph.Grows (g g' : InheritanceGraph) (k p : Symbol) : Prop where
  entries : g'.entries = g.entries ++ [(k, p)]
  unmentioned : ∀ c q, g.get? c = some q → q ≠ k
  loopless : p ≠ k

namespace InheritanceGraph.Grows

variable {g g' : InheritanceGraph} {k p : Symbol} (hg : g.Grows g' k p)

include hg

theorem get?_of_ne {c : Symbol} (hc : c ≠ k) : g'.get? c = g.get? c := by
  refine Option.ext fun q => ?_
  rw [SymbolMap.get?_eq_some_iff, SymbolMap.get?_eq_some_iff, hg.entries]
  simp [hc]

theorem get?_self : g'.get? k = some p := by
  rw [SymbolMap.get?_eq_some_iff, hg.entries]
  simp

theorem keys : g'.keys = g.keys ++ [k] := by
  simp only [SymbolMap.keys, hg.entries, List.map_append, List.map_cons, List.map_nil]

theorem size : g'.size = g.size + 1 := by
  simp [SymbolMap.size, hg.entries]

theorem not_mem_keys : k ∉ g.keys := fun hk => by
  have hnodup : g'.keys.Nodup := g'.nodup
  rw [hg.keys, List.nodup_append] at hnodup
  exact hnodup.2.2 k hk k List.mem_cons_self rfl

/-- No walk from another class comes to the new one. -/
theorem walkUp (root : Symbol) (fates : SymbolMap Fate) (fuel : Nat) (path : List Symbol)
    {node : Symbol} (hn : node ≠ k) :
    walkUp g' root fates fuel path node = walkUp g root fates fuel path node := by
  induction fuel generalizing path node with
  | zero => rfl
  | succ n ih =>
    unfold CoolTypes.walkUp
    rw [hg.get?_of_ne hn]
    cases hp : g.get? node with
    | none => rfl
    | some parent => simp only [ih _ (hg.unmentioned _ _ hp)]

theorem searchFrom (root : Symbol) (found : Search) {start : Symbol} (hs : start ≠ k) :
    searchFrom g' root found start = searchFrom g root found start := by
  have hwalk : CoolTypes.walkUp g' root found.fates (g'.size + 2) [] start =
      CoolTypes.walkUp g root found.fates (g.size + 2) [] start := by
    rw [hg.walkUp root _ _ _ hs, hg.size,
      ← walkUp_fuel found.fates (OnWalk.nil g start) (Nat.le_refl _) 1, Nat.add_right_comm]
  simp only [CoolTypes.searchFrom, hwalk]

/-- No cycle goes through the new class. -/
theorem ne_of_onCycle {c : Symbol} (hc : g'.OnCycle c) : c ≠ k := by
  rintro rfl
  obtain ⟨x, _, hx⟩ := Relation.TransGen.tail'_iff.mp hc
  by_cases hxk : x = c
  · rw [hxk] at hx
    exact hg.loopless (Edge.unique hg.get?_self hx)
  · exact hg.unmentioned x c ((hg.get?_of_ne hxk).symm.trans hx) rfl

/-- The search closes the same cycles. -/
theorem closing_search {root : Symbol} (hroot : g'.get? root = none) :
    (g'.search root).closing = (g.search root).closing := by
  have hne : root ≠ k := by
    rintro rfl
    exact absurd (hroot.symm.trans hg.get?_self) (by simp)
  have hsearch : g'.search root = CoolTypes.searchFrom g' root (g.search root) k := by
    rw [search, hg.keys, List.foldl_append, List.foldl_ext _ _ _ fun found c hc =>
      hg.searchFrom root found fun h => hg.not_mem_keys (h ▸ hc)]
    rfl
  have hbefore := search_covers ((hg.get?_of_ne hne).symm.trans hroot)
  have hlast := walkUp_covers hroot (g.search root).fates (OnWalk.nil g' k)
    (Nat.le_refl (g'.size + 2)) fun _ hx => absurd hx List.not_mem_nil
  -- a class of a cycle has been walked from before
  have hnone : (CoolTypes.walkUp g' root (g.search root).fates (g'.size + 2) [] k).closing =
      none := by
    refine Option.eq_none_iff_forall_ne_some.mpr fun c hc => ?_
    obtain ⟨hnew, -, hcycle⟩ := hlast.closing c hc
    obtain ⟨q, hq⟩ := hcycle.exists_edge
    have hkey : c ∈ g.keys :=
      SymbolMap.mem_keys_of_get? ((hg.get?_of_ne (hg.ne_of_onCycle hcycle)).symm.trans hq)
    rcases hbefore.starts c hkey with rfl | hknown
    · exact absurd (hroot.symm.trans hq) (by simp)
    · exact hknown hnew
  rw [hsearch, CoolTypes.searchFrom, hnone]
  exact List.append_nil _

end InheritanceGraph.Grows

/-! ## Classes with one more -/

variable {t : SymbolTables} {classes : List Class} {K : Class}

/-- A class whose name is new to some classes and has no meaning of its own, and whose parent is one of
them and open. -/
structure Unmentioned (t : SymbolTables) (classes : List Class) (K : Class) : Prop where
  typesIn : ∀ c ∈ classes, c.TypesIn (· ≠ K.name.symbol)
  notRoot : K.name.symbol ≠ t.known .object
  notMain : K.name.symbol ≠ t.known .main
  notSelfType : K.name.symbol ≠ t.known .selfType
  declaredParent : K.parent.symbol ∈ classes.map (·.name.symbol)
  openParent : ¬ t.IsPrimitive K.parent.symbol

theorem closing_checkInheritance (t : SymbolTables) (classes : List Class) :
    (checkInheritance t classes).closing =
      (if t.known .main ∈ classes.map (·.name.symbol) then []
        else [Violation.noMainClass.place .synthetic]) ++
      (InheritanceGraph.search (checkInheritance t classes).graph (t.known .object)).closing.map
        fun c => (Violation.inheritanceCycle c).place (definedAt classes c) := rfl

/-- Where a class is defined does not depend on classes behind. -/
theorem definedAt_append {n : Symbol} (h : n ∈ classes.map (·.name.symbol)) (more : List Class) :
    definedAt (classes ++ more) n = definedAt classes n := by
  obtain ⟨c, hc, rfl⟩ := List.mem_map.mp h
  have hsome : (classes.find? (·.name.symbol == c.name.symbol)).isSome = true :=
    List.find?_isSome.mpr ⟨c, hc, beq_self_eq_true _⟩
  rw [definedAt, definedAt, List.find?_append, Option.or_of_isSome hsome]

namespace Unmentioned

variable (hK : Unmentioned t classes K)

include hK

theorem name_not_mem : K.name.symbol ∉ classes.map (·.name.symbol) := fun h => by
  obtain ⟨c, hc, hname⟩ := List.mem_map.mp h
  exact (hK.typesIn c hc).name hname

/-- The new class breaks no rule, and the others break the rules that they broke. -/
theorem verdicts_append : ∃ v : ClassVerdict, v.reports = [] ∧
    v.edge = some (K.name.symbol, K.parent.symbol) ∧
    (checkInheritance t (classes ++ [K])).verdicts = (checkInheritance t classes).verdicts ++ [v] := by
  have hsame : checkClasses t ((classes ++ [K]).map (·.name.symbol)) [] classes =
      checkClasses t (classes.map (·.name.symbol)) [] classes :=
    checkClasses_congr [] fun c hc => by simp [(hK.typesIn c hc).parent]
  have hok : ClassOk t ((classes ++ [K]).map (·.name.symbol))
      ((classes.map (·.name.symbol)).reverse ++ []) K := by
    refine ⟨hK.openParent, ?_, hK.notSelfType, fun _ => ?_⟩
    · rw [List.append_nil, List.mem_reverse]
      exact hK.name_not_mem
    · rw [List.map_append]
      exact List.mem_append_left _ hK.declaredParent
  refine ⟨_, checkClass_reports_eq_nil_iff.mpr hok,
    checkClass_edge_eq_some_iff.mpr ⟨⟨hok, hK.notRoot⟩, rfl⟩, ?_⟩
  show checkClasses _ _ _ _ = _
  rw [checkClasses_append, hsame]
  rfl

theorem grows : InheritanceGraph.Grows (checkInheritance t classes).graph
    (checkInheritance t (classes ++ [K])).graph K.name.symbol K.parent.symbol := by
  obtain ⟨v, _, hedge, hverdicts⟩ := hK.verdicts_append
  refine ⟨?_, fun c q hq => ?_, fun h => hK.name_not_mem (h ▸ hK.declaredParent)⟩
  · rw [graph_entries_eq_verdicts, graph_entries_eq_verdicts, hverdicts, List.filterMap_append]
    simp [hedge]
  · obtain ⟨d, hd, _, rfl⟩ := (soundEdge_of_get? hq).parentOf
    exact (hK.typesIn d hd).parent

/-- The check of the inheritance relation reports what it reported. -/
theorem reports_append :
    (checkInheritance t (classes ++ [K])).reports = (checkInheritance t classes).reports := by
  obtain ⟨v, hreports, _, hverdicts⟩ := hK.verdicts_append
  have hsearch := hK.grows.closing_search (graph_get?_root (t := t))
  have hmain : t.known .main ∈ (classes ++ [K]).map (·.name.symbol) ↔
      t.known .main ∈ classes.map (·.name.symbol) := by
    simp [hK.notMain.symm]
  have hclosing : (checkInheritance t (classes ++ [K])).closing = (checkInheritance t classes).closing := by
    rw [closing_checkInheritance, closing_checkInheritance, hsearch]
    refine congrArg₂ _ (if_congr hmain rfl rfl) (List.map_congr_left fun c hc => ?_)
    obtain ⟨d, hd, rfl⟩ := exists_class_of_cycle (search_right_checkInheritance.closing c hc)
    rw [definedAt_append (List.mem_map_of_mem hd)]
  rw [Inheritance.reports, Inheritance.reports, hclosing, hverdicts, List.flatMap_append,
    List.flatMap_singleton, hreports, List.append_nil]

theorem isValid_append :
    (checkInheritance t (classes ++ [K])).isValid = (checkInheritance t classes).isValid := by
  rw [Bool.eq_iff_iff, isValid_iff_reports_eq_nil, isValid_iff_reports_eq_nil, hK.reports_append]

/-! ## Signatures -/

variable (hbuiltin : ∀ b : BuiltinClass, b.symbol t ∈ classes.map (·.name.symbol))
  (hw : WellFormedHierarchy t classes)

include hbuiltin hw

/-- The others are declared as they were. -/
theorem agree : ClassesAgree (· ≠ K.name.symbol) t classes (classes ++ [K]) where
  wellFormed := hw
  wellFormed' := isValid_iff_wellFormed.mp (hK.isValid_append.trans (isValid_iff_wellFormed.mpr hw))
  builtin b h := hK.name_not_mem (h ▸ hbuiltin b)
  typesIn := hK.typesIn
  mem_iff c hc := by
    rw [List.mem_append, List.mem_singleton]
    exact or_iff_left fun h => hc (h ▸ rfl)

open Signatures

/-- The new class takes its place among the others, which keep their order. -/
theorem rootFirst_append : Interspersed (· = K) (rootFirst (hierarchyOf t classes) classes)
    (rootFirst (hierarchyOf t (classes ++ [K])) (classes ++ [K])) := by
  have hagree := hK.agree hbuiltin hw
  have hsize : (hierarchyOf t (classes ++ [K])).graph.size =
      (hierarchyOf t classes).graph.size + 1 := hK.grows.size
  have hbucket : ∀ depth, Interspersed (· = K)
      (classes.filter fun c => (hierarchyOf t classes).depth c.name.symbol == depth)
      ((classes ++ [K]).filter
        fun c => (hierarchyOf t (classes ++ [K])).depth c.name.symbol == depth) := by
    intro depth
    have hsame : (classes.filter
        fun c => (hierarchyOf t (classes ++ [K])).depth c.name.symbol == depth) =
        classes.filter fun c => (hierarchyOf t classes).depth c.name.symbol == depth := by
      refine List.filter_congr fun c hc => ?_
      rw [ClassHierarchy.depth, ClassHierarchy.depth, hagree.ancestors (hK.typesIn c hc).name]
    rw [List.filter_append, hsame]
    exact (Interspersed.refl _).append_further fun c hc =>
      List.mem_singleton.mp (List.mem_of_mem_filter hc)
  -- the last depth is that of no old class
  have hlast : (classes.filter fun c => (hierarchyOf t classes).depth c.name.symbol ==
      (hierarchyOf t classes).graph.size + 2) = [] := by
    refine List.filter_eq_nil_iff.mpr fun c hc => ?_
    have hlt := hw.rooted_hierarchy.depth_lt (hw.contains_iff.mpr (List.mem_map_of_mem hc))
    simp only [beq_iff_eq]
    omega
  have hrange : List.range ((hierarchyOf t (classes ++ [K])).graph.size + 2) =
      List.range ((hierarchyOf t classes).graph.size + 2) ++
        [(hierarchyOf t classes).graph.size + 2] := by
    rw [hsize, Nat.add_right_comm, List.range_succ]
  have hall := Interspersed.flatMap_congr
    (l := List.range ((hierarchyOf t classes).graph.size + 2)) fun depth _ => hbucket depth
  have hnew := hall.append (hbucket ((hierarchyOf t classes).graph.size + 2))
  rw [hlast, List.append_nil] at hnew
  unfold rootFirst
  rw [filter_contains hw, filter_contains hagree.wellFormed', hrange, List.flatMap_append,
    List.flatMap_singleton]
  exact hnew

/-- The same is reported about the signatures of the others. -/
theorem collect_append : Interspersed (·.At K.visits)
    (collect t (hierarchyOf t classes) classes).2
    (collect t (hierarchyOf t (classes ++ [K])) (classes ++ [K])).2 := by
  have hagree := hK.agree hbuiltin hw
  rw [collect_reports hw, collect_reports hagree.wellFormed']
  refine (hK.rootFirst_append hbuiltin hw).flatMap (fun c hc => ?_) ?_
  · rw [hagree.ownTable ((mem_rootFirst_hierarchyOf hw).mp hc)]
  · rintro c rfl
    exact ownTable_at _ c _

end Unmentioned

end CoolTypes
