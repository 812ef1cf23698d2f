import Mathlib.Data.List.Perm.Subperm
import Mathlib.Logic.Relation
import CoolTypes.Classes.Hierarchy

/-!
# Chains of parents

The chain above a class is a relation (`ChainFrom`) that follows the edges of an inheritance graph to
a class without parent. A class has at most one chain, the chain holds exactly the classes that the
class reaches (`ChainFrom.mem_iff`), and it never repeats one, so the bounded computation of the
ancestors finds all of it (`ancestors_eq`). A class on a cycle has no chain.
-/

namespace CoolTypes

namespace InheritanceGraph

/-- One step from a class to its parent. -/
def Edge (g : InheritanceGraph) (a b : Symbol) : Prop := g.get? a = some b

/-- Following parents, in any number of steps, none included. -/
def Reaches (g : InheritanceGraph) : Symbol → Symbol → Prop := Relation.ReflTransGen g.Edge

/-- The chain above `c`: `c` itself, its parent and so on up to a class without parent. -/
inductive ChainFrom (g : InheritanceGraph) : Symbol → List Symbol → Prop
  | top {c} : g.get? c = none → ChainFrom g c [c]
  | link {c p l} : g.get? c = some p → ChainFrom g p l → ChainFrom g c (c :: l)

/-- Following the parents of a class comes to an end. -/
def Ends (g : InheritanceGraph) (c : Symbol) : Prop := ∃ l, g.ChainFrom c l

variable {g : InheritanceGraph}

/-! ## The shape of a chain -/

/-- The parent is a function of the class, so a chain goes on with the chain of the parent. -/
theorem ChainFrom.of_edge {c p : Symbol} {l : List Symbol} (hl : g.ChainFrom c l)
    (h : g.get? c = some p) : ∃ m, l = c :: m ∧ g.ChainFrom p m := by
  cases hl with
  | top hc =>
    rw [h] at hc
    exact absurd hc (by simp)
  | link hc hrest =>
    rw [h] at hc
    injection hc with hp
    subst hp
    exact ⟨_, rfl, hrest⟩

theorem ChainFrom.unique {c : Symbol} {l m : List Symbol} (hl : g.ChainFrom c l)
    (hm : g.ChainFrom c m) : l = m := by
  induction hl generalizing m with
  | top hc =>
    cases hm with
    | top _ => rfl
    | link hc' _ =>
      rw [hc] at hc'
      exact absurd hc' (by simp)
  | link hc _ ih =>
    obtain ⟨rest, rfl, hrest⟩ := hm.of_edge hc
    rw [ih hrest]

/-- A chain starts at its class. -/
theorem ChainFrom.self_mem {c : Symbol} {l : List Symbol} (hl : g.ChainFrom c l) : c ∈ l := by
  cases hl <;> exact List.mem_cons_self

/-- A chain stops at a class without parent. -/
theorem ChainFrom.exists_top {c : Symbol} {l : List Symbol} (hl : g.ChainFrom c l) :
    ∃ top, g.get? top = none ∧ g.Reaches c top := by
  induction hl with
  | top hc => exact ⟨_, hc, Relation.ReflTransGen.refl⟩
  | link hc _ ih =>
    obtain ⟨top, hnone, hreach⟩ := ih
    exact ⟨top, hnone, Relation.ReflTransGen.head hc hreach⟩

/-- A member without parent is the last one. -/
theorem ChainFrom.getLast?_of_mem {c d : Symbol} {l : List Symbol} (hl : g.ChainFrom c l)
    (hd : d ∈ l) (hnone : g.get? d = none) : l.getLast? = some d := by
  induction hl with
  | top _ =>
    rw [List.mem_singleton.mp hd]
    rfl
  | link hc hrest ih =>
    rcases List.mem_cons.mp hd with rfl | hd
    · rw [hc] at hnone
      exact absurd hnone (by simp)
    · rw [List.getLast?_cons, ih hd]
      rfl

/-- A chain that starts lower is longer. -/
theorem ChainFrom.above {c d : Symbol} {l : List Symbol} (hl : g.ChainFrom c l)
    (h : Relation.TransGen g.Edge c d) : ∃ m, g.ChainFrom d m ∧ m.length < l.length := by
  induction h with
  | single hcd =>
    obtain ⟨m, rfl, hm⟩ := hl.of_edge hcd
    exact ⟨m, hm, Nat.lt_succ_self _⟩
  | tail _ hde ih =>
    obtain ⟨m, hm, hlt⟩ := ih
    obtain ⟨rest, rfl, hrest⟩ := hm.of_edge hde
    refine ⟨rest, hrest, ?_⟩
    simp only [List.length_cons] at hlt
    omega

/-- A class on a cycle has no chain. -/
theorem not_ends_of_cycle {c : Symbol} (h : Relation.TransGen g.Edge c c) : ¬ g.Ends c := by
  rintro ⟨l, hl⟩
  obtain ⟨m, hm, hlt⟩ := hl.above h
  rw [hl.unique hm] at hlt
  exact absurd hlt (Nat.lt_irrefl _)

/-- The members of a chain are the classes that its first class reaches. -/
theorem ChainFrom.mem_iff {c d : Symbol} {l : List Symbol} (hl : g.ChainFrom c l) :
    d ∈ l ↔ g.Reaches c d := by
  constructor
  · intro hd
    induction hl with
    | top _ =>
      rw [List.mem_singleton.mp hd]
      exact Relation.ReflTransGen.refl
    | link hc hrest ih =>
      rcases List.mem_cons.mp hd with rfl | hd
      · exact Relation.ReflTransGen.refl
      · exact Relation.ReflTransGen.head hc (ih hd)
  · intro h
    induction hl with
    | top hc =>
      rcases Relation.ReflTransGen.cases_head h with rfl | ⟨p, hp, _⟩
      · exact List.mem_cons_self
      · rw [show g.get? _ = some p from hp] at hc
        exact absurd hc (by simp)
    | link hc hrest ih =>
      rcases Relation.ReflTransGen.cases_head h with rfl | ⟨p, hp, hreach⟩
      · exact List.mem_cons_self
      · rw [show g.get? _ = some p from hp] at hc
        injection hc with hpp
        subst hpp
        exact List.mem_cons_of_mem _ (ih hreach)

/-- A chain has no repetition. -/
theorem ChainFrom.nodup {c : Symbol} {l : List Symbol} (hl : g.ChainFrom c l) : l.Nodup := by
  induction hl with
  | top _ => simp
  | link hc hrest ih =>
    refine List.nodup_cons.mpr ⟨fun hmem => ?_, ih⟩
    exact not_ends_of_cycle (Relation.TransGen.head' hc (hrest.mem_iff.mp hmem))
      ⟨_, .link hc hrest⟩

/-! ## Ends along an edge -/

theorem ends_iff_of_edge {c p : Symbol} (h : g.get? c = some p) : g.Ends c ↔ g.Ends p := by
  constructor
  · rintro ⟨l, hl⟩
    obtain ⟨m, -, hm⟩ := hl.of_edge h
    exact ⟨m, hm⟩
  · rintro ⟨l, hl⟩
    exact ⟨c :: l, .link h hl⟩

theorem ends_iff_of_reaches {c d : Symbol} (h : g.Reaches c d) : g.Ends c ↔ g.Ends d := by
  induction h with
  | refl => exact Iff.rfl
  | tail _ hedge ih => exact ih.trans (ends_iff_of_edge hedge)

/-! ## The computed chain -/

/-- The classes of a chain below its last one have a parent, so the number of edges bounds them. -/
theorem ChainFrom.length_le {c : Symbol} {l : List Symbol} (hl : g.ChainFrom c l) :
    l.length ≤ g.size + 1 := by
  have hkeys : ∀ x ∈ l.dropLast, x ∈ g.keys := by
    induction hl with
    | top _ => simp
    | link hc hrest ih =>
      rename_i c p l
      have hne : l ≠ [] := List.ne_nil_of_mem hrest.self_mem
      intro x hx
      rw [List.dropLast_cons_of_ne_nil hne] at hx
      rcases List.mem_cons.mp hx with rfl | hx
      · exact SymbolMap.mem_keys_of_get? hc
      · exact ih x hx
  have hdrop : l.dropLast.length ≤ g.keys.length :=
    (List.subperm_of_subset (hl.nodup.sublist (List.dropLast_sublist l)) hkeys).length_le
  have hsize : g.keys.length = g.size := by simp [SymbolMap.keys, SymbolMap.size]
  rw [List.length_dropLast, hsize] at hdrop
  omega

/-- Enough fuel computes the whole chain. -/
theorem ChainFrom.chain_eq {c : Symbol} {l : List Symbol} (hl : g.ChainFrom c l) {fuel : Nat}
    (hfuel : l.length ≤ fuel + 1) : g.chain fuel c = l := by
  induction hl generalizing fuel with
  | top hc =>
    cases fuel with
    | zero => rfl
    | succ n => simp [chain, hc]
  | link hc hrest ih =>
    cases fuel with
    | zero =>
      have hpos := List.length_pos_of_mem hrest.self_mem
      simp only [List.length_cons] at hfuel
      omega
    | succ n =>
      simp only [List.length_cons] at hfuel
      simp only [chain, hc]
      rw [ih (by omega)]

end InheritanceGraph

namespace ClassHierarchy

variable {h : ClassHierarchy}

/-- The ancestors of a class are its chain, if it has one. -/
theorem ancestors_eq {c : Symbol} {l : List Symbol} (hl : h.graph.ChainFrom c l) :
    h.ancestors c = l :=
  hl.chain_eq hl.length_le

/-- Every class of the hierarchy leads to its root, and the root has no parent. -/
structure Rooted (h : ClassHierarchy) : Prop where
  root_top : h.graph.get? h.root = none
  reaches_root : ∀ c, h.contains c = true → h.graph.Reaches c h.root

theorem contains_iff {c : Symbol} :
    h.contains c = true ↔ c = h.root ∨ ∃ p, h.graph.get? c = some p := by
  simp [contains, SymbolMap.contains, Option.isSome_iff_exists]

/-- In a rooted hierarchy the ancestors of a class are its whole chain, and the root is the last of
them. -/
theorem Rooted.chainFrom_ancestors (hr : h.Rooted) {c : Symbol} (hc : h.contains c = true) :
    h.graph.ChainFrom c (h.ancestors c) ∧ (h.ancestors c).getLast? = some h.root := by
  have hreach := hr.reaches_root c hc
  have hroot : h.graph.Ends h.root := ⟨[h.root], .top hr.root_top⟩
  obtain ⟨l, hl⟩ := (InheritanceGraph.ends_iff_of_reaches hreach).mpr hroot
  rw [ancestors_eq hl]
  exact ⟨hl, hl.getLast?_of_mem (hl.mem_iff.mpr hreach) hr.root_top⟩

end ClassHierarchy

end CoolTypes
