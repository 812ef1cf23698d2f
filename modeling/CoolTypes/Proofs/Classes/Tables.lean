import CoolTypes.Proofs.Classes.Order
import CoolTypes.Proofs.Classes.WellFormed

/-!
# Tables of classes

Signatures are collected class by class. Once all are collected, the table of a class is still what its
own features make of the table of its parent (`collect_get?`), and what was reported is what is wrong
with these features (`collect_reports`), for a class is added after its parent and no table changes
later.
-/

namespace CoolTypes

namespace Signatures

variable {Γ : Ground}

/-- What the features of a class make of the table with which it starts. -/
def ownTable (Γ : Ground) (c : Class) (start : ClassTable) : Collected :=
  c.methods.foldl (addMethod Γ c.name.symbol)
    (c.attributes.foldl (addAttr Γ c.name.symbol (c.file == Γ.tables.known .basicFile)) (start, []))

/-! ## Reports are appended -/

theorem addAttr_log (c : Symbol) (basic : Bool) (tab : ClassTable) (rs : List Report) (b : Binding) :
    addAttr Γ c basic (tab, rs) b =
      ((addAttr Γ c basic (tab, []) b).1, rs ++ (addAttr Γ c basic (tab, []) b).2) := by
  unfold addAttr
  by_cases hself : b.name.symbol = Γ.tables.known .self
  · simp [hself]
  · simp only [hself, if_false]
    cases tab.attrs.get? b.name.symbol <;> simp

theorem addMethod_log (c : Symbol) (tab : ClassTable) (rs : List Report) (m : Method) :
    addMethod Γ c (tab, rs) m =
      ((addMethod Γ c (tab, []) m).1, rs ++ (addMethod Γ c (tab, []) m).2) := by
  unfold addMethod
  dsimp only
  cases tab.methods.get? m.name.symbol with
  | none => simp
  | some previous =>
    by_cases hc : previous.definedIn = c
    · simp [hc]
    · simp only [hc, if_false]
      cases previous.mismatch? (methodSig Γ c m).1 <;> simp

/-- A fold that only appends to its log can start with an empty one. -/
theorem foldl_log {τ β ρ : Type} {f : τ × List ρ → β → τ × List ρ}
    (hf : ∀ t rs b, f (t, rs) b = ((f (t, []) b).1, rs ++ (f (t, []) b).2)) (l : List β) (t : τ)
    (rs : List ρ) :
    l.foldl f (t, rs) = ((l.foldl f (t, [])).1, rs ++ (l.foldl f (t, [])).2) := by
  induction l generalizing t rs with
  | nil => simp
  | cons b rest ih =>
    rw [List.foldl_cons, List.foldl_cons, hf, ih, ih _ (f (t, []) b).2]
    simp

theorem addClass_eq {acc : Signatures × List Report} {c : Class}
    (hnew : acc.1.contains c.name.symbol = false) :
    addClass Γ acc c =
      let own := ownTable Γ c (inherited Γ acc.1 c.name.symbol)
      ({ acc.1 with classes := acc.1.classes.insert c.name.symbol own.1 }, acc.2 ++ own.2) := by
  obtain ⟨s, rs⟩ := acc
  have hattrs := foldl_log (addAttr_log (Γ := Γ) c.name.symbol (c.file == Γ.tables.known .basicFile))
    c.attributes (inherited Γ s c.name.symbol) rs
  have hmethods := foldl_log (addMethod_log (Γ := Γ) c.name.symbol) c.methods
  dsimp only [addClass]
  rw [hnew, hattrs, hmethods]
  simp only [Bool.false_eq_true, if_false, ownTable]
  rw [hmethods _ (List.foldl _ (_, []) c.attributes).2, List.append_assoc]

/-! ## One class after the other -/

/-- The tables of the classes `done`, each of which came after its parent. -/
structure Collects (Γ : Ground) (done : List Class) (acc : Signatures × List Report) : Prop where
  selfType : acc.1.selfType = Γ.tables.known .selfType
  keys : acc.1.classes.keys = done.map (·.name.symbol)
  parents : ∀ c ∈ done, ∀ p, Γ.hierarchy.graph.get? c.name.symbol = some p →
    p ∈ done.map (·.name.symbol)
  table : ∀ c ∈ done, acc.1.get? c.name.symbol =
    some (ownTable Γ c (inherited Γ acc.1 c.name.symbol)).1
  reports : acc.2 = done.flatMap fun c => (ownTable Γ c (inherited Γ acc.1 c.name.symbol)).2

theorem contains_iff_mem_keys {s : Signatures} {n : Symbol} :
    s.contains n = true ↔ n ∈ s.classes.keys :=
  SymbolMap.contains_iff_mem_keys

/-- A class starts from the same table as long as the table of its parent stays. -/
theorem inherited_congr {s s' : Signatures} {c : Symbol}
    (h : ∀ p, Γ.hierarchy.graph.get? c = some p → s'.get? p = s.get? p) :
    inherited Γ s' c = inherited Γ s c := by
  unfold inherited
  cases hp : Γ.hierarchy.graph.get? c with
  | none => rfl
  | some p => simp only [h p hp]

theorem Collects.addClass {done : List Class} {acc : Signatures × List Report} {c : Class}
    (h : Collects Γ done acc) (hnew : c.name.symbol ∉ done.map (·.name.symbol))
    (hparent : ∀ p, Γ.hierarchy.graph.get? c.name.symbol = some p →
      p ∈ done.map (·.name.symbol)) :
    Collects Γ (done ++ [c]) (addClass Γ acc c) := by
  obtain ⟨s, rs⟩ := acc
  have habsent : s.contains c.name.symbol = false := by
    rw [Bool.eq_false_iff, ne_eq, contains_iff_mem_keys, h.keys]
    exact hnew
  rw [addClass_eq habsent]
  let own := ownTable Γ c (inherited Γ s c.name.symbol)
  let s' : Signatures := { s with classes := s.classes.insert c.name.symbol own.1 }
  show Collects Γ (done ++ [c]) (s', rs ++ own.2)
  have hparents : ∀ d ∈ done ++ [c], ∀ p, Γ.hierarchy.graph.get? d.name.symbol = some p →
      p ∈ done.map (·.name.symbol) := by
    intro d hd p hp
    rcases List.mem_append.mp hd with hd | hd
    · exact h.parents d hd p hp
    · rw [List.mem_singleton.mp hd] at hp
      exact hparent p hp
  have hget : ∀ n ∈ done.map (·.name.symbol), s'.get? n = s.get? n := by
    intro n hn
    refine (SymbolMap.get?_insert _ _ _ _).trans (if_neg ?_)
    rintro rfl
    exact hnew hn
  -- the parents of all these classes were there before, so no class starts from a changed table
  have hstart : ∀ d ∈ done ++ [c], inherited Γ s' d.name.symbol = inherited Γ s d.name.symbol :=
    fun d hd => inherited_congr fun p hp => hget p (hparents d hd p hp)
  refine ⟨h.selfType, ?_, fun d hd p hp => ?_, fun d hd => ?_, ?_⟩
  · show (s.classes.insert c.name.symbol own.1).keys = _
    rw [SymbolMap.keys_insert, h.keys, if_neg hnew, List.map_append]
    rfl
  · rw [List.map_append]
    exact List.mem_append_left _ (hparents d hd p hp)
  · rw [hstart d hd]
    rcases List.mem_append.mp hd with hd | hd
    · exact (hget _ (List.mem_map_of_mem hd)).trans (h.table d hd)
    · rw [List.mem_singleton.mp hd]
      exact (SymbolMap.get?_insert _ _ _ _).trans (if_pos rfl)
  · have hdone : rs = done.flatMap fun d => (ownTable Γ d (inherited Γ s' d.name.symbol)).2 :=
      h.reports.trans (List.flatMap_congr fun d hd => by
        rw [hstart d (List.mem_append_left _ hd)])
    rw [List.flatMap_append, ← hdone, List.flatMap_singleton, hstart c (by simp)]

/-- If no class of a list comes twice or before its parent, the tables of all are collected. -/
theorem Collects.foldl {rest done : List Class} {acc : Signatures × List Report}
    (h : Collects Γ done acc) (hnodup : ((done ++ rest).map (·.name.symbol)).Nodup)
    (hparents : ∀ pre c post, rest = pre ++ c :: post → ∀ p,
      Γ.hierarchy.graph.get? c.name.symbol = some p → p ∈ (done ++ pre).map (·.name.symbol)) :
    Collects Γ (done ++ rest) (rest.foldl (Signatures.addClass Γ) acc) := by
  induction rest generalizing done acc with
  | nil => simpa using h
  | cons c rest ih =>
    have hsplit : done ++ c :: rest = (done ++ [c]) ++ rest := by simp
    have hnew : c.name.symbol ∉ done.map (·.name.symbol) := by
      rw [List.map_append, List.nodup_append] at hnodup
      exact fun hc => hnodup.2.2 _ hc _ (by simp) rfl
    have hstep := h.addClass hnew fun p hp => by simpa using hparents [] c rest rfl p hp
    rw [hsplit] at hnodup ⊢
    refine ih hstep hnodup fun pre d post hd p hp => ?_
    have hbefore := hparents (c :: pre) d post (by rw [hd]; rfl) p hp
    simpa using hbefore

/-! ## All classes -/

variable {t : SymbolTables} {classes : List Class}

theorem filter_contains (hw : WellFormedHierarchy t classes) :
    (classes.filter fun c => (hierarchyOf t classes).contains c.name.symbol) = classes :=
  List.filter_eq_self.mpr fun _ hc => hw.contains_iff.mpr (List.mem_map_of_mem hc)

/-- The classes of a well-formed hierarchy are all put in order. -/
theorem rootFirst_hierarchyOf_perm (hw : WellFormedHierarchy t classes) :
    (rootFirst (hierarchyOf t classes) classes).Perm classes := by
  have hperm := @rootFirst_perm _ classes hw.rooted_hierarchy
  rwa [filter_contains hw] at hperm

theorem mem_rootFirst_hierarchyOf (hw : WellFormedHierarchy t classes) {c : Class} :
    c ∈ rootFirst (hierarchyOf t classes) classes ↔ c ∈ classes :=
  (rootFirst_hierarchyOf_perm hw).mem_iff

/-- The tables of all classes of a well-formed hierarchy are collected. -/
theorem collects_collect (hw : WellFormedHierarchy t classes) :
    Collects ⟨t, hierarchyOf t classes⟩ (rootFirst (hierarchyOf t classes) classes)
      (collect t (hierarchyOf t classes) classes) := by
  have hperm := rootFirst_hierarchyOf_perm hw
  have hstart : Collects ⟨t, hierarchyOf t classes⟩ [] (⟨.empty, t.known .selfType⟩, []) :=
    ⟨rfl, rfl, fun _ h => absurd h List.not_mem_nil, fun _ h => absurd h List.not_mem_nil, rfl⟩
  have hfold := @Collects.foldl _ (rootFirst (hierarchyOf t classes) classes) _ _ hstart
    ((hperm.map _).nodup_iff.mpr hw.names) fun pre c post hsplit p hp => ?_
  · exact hfold
  · obtain ⟨d, hd, rfl⟩ := List.mem_map.mp (soundEdge_of_get? hp).declaredParent
    exact List.mem_map_of_mem (parent_before hw.rooted_hierarchy hsplit (hperm.mem_iff.mpr hd) hp)

/-- The table of a class is what its features make of the table of its parent. -/
theorem collect_get? (hw : WellFormedHierarchy t classes) {c : Class} (hc : c ∈ classes) :
    let s := (collect t (hierarchyOf t classes) classes).1
    s.get? c.name.symbol = some (ownTable ⟨t, hierarchyOf t classes⟩ c
      (inherited ⟨t, hierarchyOf t classes⟩ s c.name.symbol)).1 :=
  (collects_collect hw).table c ((mem_rootFirst_hierarchyOf hw).mpr hc)

theorem collect_reports (hw : WellFormedHierarchy t classes) :
    let s := (collect t (hierarchyOf t classes) classes).1
    (collect t (hierarchyOf t classes) classes).2 =
      (rootFirst (hierarchyOf t classes) classes).flatMap fun c =>
        (ownTable ⟨t, hierarchyOf t classes⟩ c
          (inherited ⟨t, hierarchyOf t classes⟩ s c.name.symbol)).2 :=
  (collects_collect hw).reports

/-- The classes with tables are those of the hierarchy. -/
theorem contains_collect (hw : WellFormedHierarchy t classes) {n : Symbol} :
    (collect t (hierarchyOf t classes) classes).1.contains n = true ↔
      (hierarchyOf t classes).contains n = true := by
  rw [contains_iff_mem_keys, (collects_collect hw).keys, hw.contains_iff]
  simp only [List.mem_map, mem_rootFirst_hierarchyOf hw]

end Signatures

end CoolTypes
