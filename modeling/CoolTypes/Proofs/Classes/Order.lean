import CoolTypes.Classes.Signatures
import CoolTypes.Proofs.Classes.Conformance

/-!
# Parents before children

`rootFirst` puts the classes of a hierarchy in the order of their depth. In a rooted hierarchy it keeps
each of them (`rootFirst_perm`), and a class comes after the class that is its parent
(`parent_before`).
-/

namespace CoolTypes

namespace Signatures

variable {h : ClassHierarchy} {classes : List Class}

/-- Members picked key by key are the members with a key below the bound. -/
theorem flatMap_range_filter_perm {α : Type} (key : α → Nat) (l : List α) (bound : Nat) :
    ((List.range bound).flatMap fun k => l.filter fun x => key x == k).Perm
      (l.filter fun x => key x < bound) := by
  induction bound with
  | zero => simp
  | succ n ih =>
    rw [List.range_succ, List.flatMap_append]
    simp only [List.flatMap_cons, List.flatMap_nil, List.append_nil]
    have hsplit := List.filter_append_perm (fun x => decide (key x < n))
      (l.filter fun x => key x < n + 1)
    rw [List.filter_filter, List.filter_filter] at hsplit
    have hlow : (l.filter fun x => decide (key x < n) && decide (key x < n + 1)) =
        l.filter fun x => key x < n :=
      List.filter_congr fun x _ => by
        by_cases hx : key x < n
        · simp [hx, Nat.lt_succ_of_lt hx]
        · simp [hx]
    have hhigh : (l.filter fun x => (!decide (key x < n)) && decide (key x < n + 1)) =
        l.filter fun x => key x == n :=
      List.filter_congr fun x _ => by
        rw [Bool.eq_iff_iff]
        simp only [Bool.and_eq_true, Bool.not_eq_true', decide_eq_false_iff_not, decide_eq_true_eq,
          beq_iff_eq]
        omega
    rw [hlow, hhigh] at hsplit
    exact (ih.append_right _).trans hsplit

theorem pairwise_rootFirst (h : ClassHierarchy) (classes : List Class) :
    (rootFirst h classes).Pairwise fun c d => h.depth c.name.symbol ≤ h.depth d.name.symbol := by
  rw [rootFirst, List.pairwise_flatMap]
  refine ⟨fun depth _ => ?_, List.pairwise_lt_range.imp fun hlt c hc d hd => ?_⟩
  · refine List.pairwise_iff_forall_sublist.mpr fun {c d} hcd => ?_
    have hc := List.mem_filter.mp (hcd.subset List.mem_cons_self)
    have hd := List.mem_filter.mp (hcd.subset (List.mem_cons_of_mem _ List.mem_cons_self))
    exact Nat.le_of_eq ((beq_iff_eq.mp hc.2).trans (beq_iff_eq.mp hd.2).symm)
  · rw [beq_iff_eq.mp (List.mem_filter.mp hc).2, beq_iff_eq.mp (List.mem_filter.mp hd).2]
    exact Nat.le_of_lt hlt

end Signatures

namespace ClassHierarchy

variable {h : ClassHierarchy}

theorem Rooted.depth_lt (hr : h.Rooted) {c : Symbol} (hc : h.contains c = true) :
    h.depth c < h.graph.size + 2 :=
  Nat.lt_succ_of_le (hr.chainFrom_ancestors hc).1.length_le

/-- A class lies one below its parent. -/
theorem Rooted.depth_parent (hr : h.Rooted) {c p : Symbol} (hp : h.graph.get? c = some p) :
    h.depth c = h.depth p + 1 := by
  have hc : h.contains c = true := contains_iff.mpr (.inr ⟨p, hp⟩)
  have hpc := hr.contains_of_reaches hc (Relation.ReflTransGen.single hp)
  have hchain := InheritanceGraph.ChainFrom.link hp (hr.chainFrom_ancestors hpc).1
  rw [depth, ancestors_eq hchain]
  rfl

end ClassHierarchy

namespace Signatures

variable {h : ClassHierarchy} {classes : List Class}

theorem rootFirst_perm (hr : h.Rooted) : (rootFirst h classes).Perm
    (classes.filter fun c => h.contains c.name.symbol) := by
  have hall : ((classes.filter fun c => h.contains c.name.symbol).filter fun c =>
      h.depth c.name.symbol < h.graph.size + 2) =
        classes.filter fun c => h.contains c.name.symbol :=
    List.filter_eq_self.mpr fun c hc => decide_eq_true (hr.depth_lt (List.mem_filter.mp hc).2)
  rw [← hall]
  exact flatMap_range_filter_perm _ _ _

/-- The class that is the parent of a class comes before it. -/
theorem parent_before (hr : h.Rooted) {pre post : List Class} {c d : Class}
    (hsplit : rootFirst h classes = pre ++ c :: post) (hd : d ∈ rootFirst h classes)
    (hedge : h.graph.get? c.name.symbol = some d.name.symbol) : d ∈ pre := by
  have hdepth := hr.depth_parent hedge
  have hsorted := pairwise_rootFirst h classes
  rw [hsplit, List.pairwise_append, List.pairwise_cons] at hsorted
  rw [hsplit] at hd
  rcases List.mem_append.mp hd with hpre | hd
  · exact hpre
  rcases List.mem_cons.mp hd with rfl | hpost
  · omega
  · have hle := hsorted.2.1.1 d hpost
    omega

end Signatures

end CoolTypes
