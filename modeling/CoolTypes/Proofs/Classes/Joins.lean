import CoolTypes.Proofs.Classes.Conformance
import CoolTypes.Proofs.Classes.Validation
import CoolTypes.Proofs.Syntax.TypeNames

/-!
# Joins as least upper bounds

The classes above the computed join of some types are the classes above all of them
(`Rooted.joinAll?_reaches_iff`), and in a rooted hierarchy a class is known by the classes above it. So
two lists with the same classes above them have the same join (`Rooted.joinAll?_eq_of_above`), and the
laws of joins are read off the lists: only the members count, and a list can be joined group by group.
`joins_are_least_upper_bounds` puts this together for the hierarchies that the check accepts.
-/

namespace CoolTypes

namespace InheritanceGraph

variable {g : InheritanceGraph}

/-- The classes above a list are those above its least one. -/
theorem IsJoin.reaches_iff {cs : List Symbol} {j k : Symbol} (hj : g.IsJoin cs j) :
    g.Reaches j k ↔ ∀ c ∈ cs, g.Reaches c k :=
  ⟨fun hjk c hc => (hj.above c hc).trans hjk, hj.least k⟩

/-- The upper one of two classes is the least class above both. -/
theorem isJoin_pair_right_iff {c d : Symbol} : g.IsJoin [c, d] d ↔ g.Reaches c d := by
  constructor
  · exact fun hj => hj.above c List.mem_cons_self
  · intro hcd
    refine ⟨fun e he => ?_, fun k hk => hk d (by simp)⟩
    rcases List.mem_cons.mp he with rfl | he
    · exact hcd
    · rw [List.mem_singleton.mp he]
      exact Relation.ReflTransGen.refl

end InheritanceGraph

namespace ClassHierarchy

/-- All of `tys` conform to the class `j` inside `current`, and `j` does so to every other class of that
kind. -/
structure LeastBound (h : ClassHierarchy) (current : Symbol) (tys : List Ty) (j : Symbol) : Prop where
  above : ∀ ty ∈ tys, h.conforms current ty (.named j) = true
  least : ∀ k, (∀ ty ∈ tys, h.conforms current ty (.named k) = true) →
    h.conforms current (.named j) (.named k) = true

variable {h : ClassHierarchy} {current : Symbol}

/-! ## The classes above a join -/

theorem Rooted.conforms_named_iff (hr : h.Rooted) {ty : Ty} {k : Symbol}
    (hty : h.contains (ty.within current) = true) :
    h.conforms current ty (.named k) = true ↔ h.graph.Reaches (ty.within current) k := by
  rw [← hr.isSubclass_iff hty]
  cases ty <;> rfl

/-- A list without members has no join, and then no class is excluded. -/
theorem Rooted.joinAll?_reaches_iff (hr : h.Rooted) {tys : List Ty} {k : Symbol}
    (htys : ∀ ty ∈ tys, h.contains (ty.within current) = true) :
    (∀ j ∈ h.joinAll? current tys, h.graph.Reaches j k) ↔
      ∀ ty ∈ tys, h.graph.Reaches (ty.within current) k := by
  by_cases hne : tys = []
  · subst hne
    simp [joinAll?]
  · obtain ⟨j, hj, _, hjoin⟩ := hr.isJoin_joinAll? htys hne
    simp only [hj, Option.mem_def, Option.some.injEq, forall_eq', hjoin.reaches_iff,
      List.forall_mem_map]

theorem joinAll?_eq_none_iff {tys : List Ty} : h.joinAll? current tys = none ↔ tys = [] := by
  cases tys <;> simp [joinAll?]

/-- The join of a list depends on the classes above it alone. -/
theorem Rooted.joinAll?_eq_of_above (hr : h.Rooted) {tys tys' : List Ty}
    (htys : ∀ ty ∈ tys, h.contains (ty.within current) = true)
    (htys' : ∀ ty ∈ tys', h.contains (ty.within current) = true) (hnil : tys = [] ↔ tys' = [])
    (habove : ∀ k, (∀ ty ∈ tys, h.graph.Reaches (ty.within current) k) ↔
      ∀ ty ∈ tys', h.graph.Reaches (ty.within current) k) :
    h.joinAll? current tys = h.joinAll? current tys' := by
  by_cases hne : tys = []
  · rw [joinAll?_eq_none_iff.mpr hne, joinAll?_eq_none_iff.mpr (hnil.mp hne)]
  · obtain ⟨j, hj, hjc, hjoin⟩ := hr.isJoin_joinAll? htys hne
    obtain ⟨j', hj', _, hjoin'⟩ := hr.isJoin_joinAll? htys' (mt hnil.mpr hne)
    -- each of the two joins is above the other
    have hiff : ∀ k, h.graph.Reaches j k ↔ h.graph.Reaches j' k := fun k => by
      rw [hjoin.reaches_iff, hjoin'.reaches_iff, List.forall_mem_map, List.forall_mem_map]
      exact habove k
    have heq : j = j' := InheritanceGraph.Reaches.antisymm
      ((hiff j').mpr Relation.ReflTransGen.refl) ((hiff j).mp Relation.ReflTransGen.refl)
      (hr.ends hjc)
    rw [hj, hj', heq]

/-! ## Laws -/

/-- Neither order nor repetition matters. -/
theorem Rooted.joinAll?_congr (hr : h.Rooted) {tys tys' : List Ty}
    (htys : ∀ ty ∈ tys, h.contains (ty.within current) = true)
    (hmem : ∀ ty, ty ∈ tys ↔ ty ∈ tys') : h.joinAll? current tys = h.joinAll? current tys' := by
  refine hr.joinAll?_eq_of_above htys (fun ty hty => htys ty ((hmem ty).mpr hty)) ?_ fun k => ?_
  · simp only [List.eq_nil_iff_forall_not_mem, hmem]
  · simp only [hmem]

/-- A list can be joined group by group. Groups without members do not count. -/
theorem Rooted.joinAll?_flatten (hr : h.Rooted) (groups : List (List Ty))
    (htys : ∀ tys ∈ groups, ∀ ty ∈ tys, h.contains (ty.within current) = true) :
    h.joinAll? current groups.flatten =
      h.joinAll? current (groups.filterMap fun tys => (h.joinAll? current tys).map .named) := by
  have hjoins : ∀ P : Ty → Prop,
      (∀ ty ∈ groups.filterMap fun tys => (h.joinAll? current tys).map Ty.named, P ty) ↔
        ∀ tys ∈ groups, ∀ j ∈ h.joinAll? current tys, P (.named j) := by
    intro P
    simp only [List.mem_filterMap, Option.map_eq_some_iff, Option.mem_def]
    constructor
    · exact fun hall tys htys j hj => hall _ ⟨tys, htys, j, hj, rfl⟩
    · rintro hall _ ⟨tys, htys, j, hj, rfl⟩
      exact hall tys htys j hj
  refine hr.joinAll?_eq_of_above (List.forall_mem_flatten.mpr htys) ?_ ?_ fun k => ?_
  · rw [hjoins]
    intro tys hmem j hj
    obtain ⟨j', hj', hjc, _⟩ := hr.isJoin_joinAll? (htys tys hmem) fun hnil => by
      rw [joinAll?_eq_none_iff.mpr hnil] at hj
      cases hj
    rw [hj'] at hj
    cases hj
    exact hjc
  · simp only [List.flatten_eq_nil_iff, List.filterMap_eq_nil_iff, Option.map_eq_none_iff,
      joinAll?_eq_none_iff]
  · rw [List.forall_mem_flatten, hjoins]
    exact forall₂_congr fun tys hmem => (hr.joinAll?_reaches_iff (htys tys hmem)).symm

/-- The join of two types is that of the list of both. -/
theorem joinAll?_pair (a b : Ty) : h.joinAll? current [a, b] = some (h.join current a b) := rfl

theorem join_self (a : Ty) : h.join current a a = a.within current := by simp [join]

theorem Rooted.join_comm (hr : h.Rooted) {a b : Ty}
    (ha : h.contains (a.within current) = true) (hb : h.contains (b.within current) = true) :
    h.join current a b = h.join current b a := by
  have hswap : h.joinAll? current [a, b] = h.joinAll? current [b, a] :=
    hr.joinAll?_congr (by simp [ha, hb]) (by simp [or_comm])
  rwa [joinAll?_pair, joinAll?_pair, Option.some.injEq] at hswap

theorem Rooted.join_assoc (hr : h.Rooted) {a b c : Ty} (ha : h.contains (a.within current) = true)
    (hb : h.contains (b.within current) = true) (hc : h.contains (c.within current) = true) :
    h.join current (.named (h.join current a b)) c =
      h.join current a (.named (h.join current b c)) := by
  have hleft : h.joinAll? current [a, b, c] =
      h.joinAll? current [.named (h.join current a b), .named (c.within current)] :=
    hr.joinAll?_flatten [[a, b], [c]] (by simp [ha, hb, hc])
  have hright : h.joinAll? current [a, b, c] =
      h.joinAll? current [.named (a.within current), .named (h.join current b c)] :=
    hr.joinAll?_flatten [[a], [b, c]] (by simp [ha, hb, hc])
  -- a join sees no difference between a type and the class that it stands for
  exact Option.some.inj (hleft.symm.trans hright)

/-- The join with a type adds nothing to it exactly if the other one conforms to it. -/
theorem Rooted.join_eq_right_iff (hr : h.Rooted) {a b : Ty}
    (ha : h.contains (a.within current) = true) (hb : h.contains (b.within current) = true) :
    h.join current a b = b.within current ↔
      h.conforms current a (.named (b.within current)) = true := by
  have hjoin := hr.isJoin_join ha hb
  rw [hr.conforms_named_iff ha, ← InheritanceGraph.isJoin_pair_right_iff]
  constructor
  · exact fun heq => heq ▸ hjoin
  · exact fun hb' => hjoin.unique hb' (hr.ends (hr.contains_join ha hb))

theorem Rooted.exists_leastBound (hr : h.Rooted) {tys : List Ty}
    (htys : ∀ ty ∈ tys, h.contains (ty.within current) = true) (hne : tys ≠ []) :
    ∃ j, h.joinAll? current tys = some j ∧ h.contains j = true ∧ h.LeastBound current tys j := by
  obtain ⟨j, hj, hjc, hjoin⟩ := hr.isJoin_joinAll? htys hne
  refine ⟨j, hj, hjc, fun ty hty => ?_, fun k hk => ?_⟩
  · exact (hr.conforms_named_iff (htys ty hty)).mpr (hjoin.above _ (List.mem_map_of_mem hty))
  · refine (hr.isSubclass_iff hjc).mpr (hjoin.least k ?_)
    exact List.forall_mem_map.mpr fun ty hty => (hr.conforms_named_iff (htys ty hty)).mp (hk ty hty)

end ClassHierarchy

/-! ## Accepted hierarchies -/

/-- In a hierarchy that the check accepts, the join of some types of declared classes is the least
declared class to which all of them conform. It depends on the members of the list alone and can be
computed group by group; the join of two types is commutative, associative and idempotent, and it is
the second one exactly if the first one conforms to that. -/
theorem joins_are_least_upper_bounds {t : SymbolTables} {classes : List Class} {current : Symbol}
    (hvalid : (checkInheritance t classes).isValid = true)
    (hcurrent : current ∈ classes.map (·.name.symbol)) :
    let h := hierarchyOf t classes
    let Declared := Ty.In (· ∈ classes.map (·.name.symbol))
    (∀ tys, tys ≠ [] → (∀ ty ∈ tys, Declared ty) →
      ∃ j ∈ classes.map (·.name.symbol),
        h.joinAll? current tys = some j ∧ h.LeastBound current tys j) ∧
    (∀ tys tys', (∀ ty ∈ tys, Declared ty) → (∀ ty, ty ∈ tys ↔ ty ∈ tys') →
      h.joinAll? current tys = h.joinAll? current tys') ∧
    (∀ groups : List (List Ty), (∀ tys ∈ groups, ∀ ty ∈ tys, Declared ty) →
      h.joinAll? current groups.flatten =
        h.joinAll? current (groups.filterMap fun tys => (h.joinAll? current tys).map .named)) ∧
    (∀ a b, Declared a → Declared b → h.join current a b = h.join current b a) ∧
    (∀ a b c, Declared a → Declared b → Declared c →
      h.join current (.named (h.join current a b)) c =
        h.join current a (.named (h.join current b c))) ∧
    (∀ a, h.join current a a = a.within current) ∧
    ∀ a b, Declared a → Declared b → (h.join current a b = b.within current ↔
      h.conforms current a (.named (b.within current)) = true) := by
  intro h Declared
  have hwf := isValid_iff_wellFormed.mp hvalid
  have hr : h.Rooted := hwf.rooted_hierarchy
  have hin : ∀ {ty}, Declared ty → h.contains (ty.within current) = true := by
    intro ty hty
    cases ty with
    | named c => exact hwf.contains_iff.mpr hty
    | selfType => exact hwf.contains_iff.mpr hcurrent
  refine ⟨fun tys hne htys => ?_, fun tys tys' htys hmem => ?_, fun groups hgroups => ?_,
    fun a b ha hb => hr.join_comm (hin ha) (hin hb),
    fun a b c ha hb hc => hr.join_assoc (hin ha) (hin hb) (hin hc),
    ClassHierarchy.join_self, fun a b ha hb => hr.join_eq_right_iff (hin ha) (hin hb)⟩
  · obtain ⟨j, hj, hjc, hbound⟩ := hr.exists_leastBound (fun ty hty => hin (htys ty hty)) hne
    exact ⟨j, hwf.contains_iff.mp hjc, hj, hbound⟩
  · exact hr.joinAll?_congr (fun ty hty => hin (htys ty hty)) hmem
  · exact hr.joinAll?_flatten groups fun tys hmem ty hty => hin (hgroups tys hmem ty hty)

/-- The basic classes and a main class with two heirs. -/
def siblingClasses : List Class :=
  BasicClass.all .initial ++
    [bareClass .main .object, bareClass .abort .main, bareClass .copy .main]

theorem joins_are_least_upper_bounds_siblings :
    let h := hierarchyOf .initial siblingClasses
    let main := SymbolTables.known .initial .main
    let abort := SymbolTables.known .initial .abort
    let copy := SymbolTables.known .initial .copy
    (checkInheritance .initial siblingClasses).isValid = true ∧
      abort ∈ siblingClasses.map (·.name.symbol) ∧
      h.joinAll? abort [.named copy, .selfType, .named copy] = some main ∧
      h.LeastBound abort [.named copy, .selfType, .named copy] main ∧
      h.join abort .selfType (.named main) = main := by
  intro h main abort copy
  have hvalid : (checkInheritance .initial siblingClasses).isValid = true := by decide +kernel
  have hcurrent : abort ∈ siblingClasses.map (·.name.symbol) := by decide +kernel
  obtain ⟨hall, _, _, _, _, _, hright⟩ := joins_are_least_upper_bounds hvalid hcurrent
  obtain ⟨j, _, hj, hbound⟩ := hall [.named copy, .selfType, .named copy] (by simp) fun ty hty => by
    simp only [List.mem_cons, List.not_mem_nil, or_false] at hty
    rcases hty with rfl | rfl | rfl
    · exact (by decide +kernel : copy ∈ siblingClasses.map (·.name.symbol))
    · trivial
    · exact (by decide +kernel : copy ∈ siblingClasses.map (·.name.symbol))
  have hmain : h.joinAll? abort [.named copy, .selfType, .named copy] = some main := by
    decide +kernel
  cases hj.symm.trans hmain
  exact ⟨hvalid, hcurrent, hmain, hbound, (hright .selfType (.named main) trivial
    (by decide +kernel : main ∈ siblingClasses.map (·.name.symbol))).mpr (by decide +kernel)⟩

end CoolTypes
