import CoolTypes.Proofs.Classes.Search

/-!
# Reported cycles

What the search knows is closed under following parents, and it has closed each cycle on which it knows a
class at exactly one class (`SearchCovers`). In the end it knows all classes with a parent, so the classes
at which it has closed a cycle are one for each cycle of the graph (`closing_onePerCycle`).
-/

namespace CoolTypes

namespace InheritanceGraph

variable {g : InheritanceGraph} {root : Symbol}

/-! ## Cycles -/

/-- Following parents leads from a class back to it. -/
def OnCycle (g : InheritanceGraph) (c : Symbol) : Prop := Relation.TransGen g.Edge c c

/-- Two classes are on one cycle: following parents leads from each of them to the other. -/
def SameCycle (g : InheritanceGraph) (c d : Symbol) : Prop :=
  Relation.TransGen g.Edge c d ∧ Relation.TransGen g.Edge d c

theorem Edge.unique {a b b' : Symbol} (h : g.Edge a b) (h' : g.Edge a b') : b = b' :=
  Option.some.inj (h.symm.trans h')

theorem OnCycle.exists_edge {c : Symbol} (h : g.OnCycle c) : ∃ p, g.Edge c p := by
  obtain ⟨p, hp, _⟩ := Relation.TransGen.head'_iff.mp h
  exact ⟨p, hp⟩

/-- There is no way out of a cycle. -/
theorem OnCycle.reaches_back {c d : Symbol} (h : g.OnCycle c) (hd : g.Reaches c d) :
    g.Reaches d c := by
  induction hd with
  | refl => exact .refl
  | tail _ hedge ih =>
    rcases Relation.ReflTransGen.cases_head ih with rfl | ⟨w, hw, hback⟩
    · obtain ⟨w, hw, hback⟩ := Relation.TransGen.head'_iff.mp h
      rwa [Edge.unique hedge hw]
    · rwa [Edge.unique hedge hw]

theorem OnCycle.sameCycle {c d : Symbol} (h : g.OnCycle c) (hd : g.Reaches c d) :
    g.SameCycle c d :=
  ⟨.trans_left h hd, .trans_right (h.reaches_back hd) h⟩

theorem OnCycle.of_reaches {c d : Symbol} (h : g.OnCycle c) (hd : g.Reaches c d) : g.OnCycle d :=
  .trans_left (h.sameCycle hd).2 hd

/-- A cycle leads to no class without parent. -/
theorem OnCycle.not_reaches {c top : Symbol} (h : g.OnCycle c) (htop : g.get? top = none) :
    ¬ g.Reaches c top := fun hreach =>
  not_ends_of_cycle h ((ends_iff_of_reaches hreach).mpr ⟨_, .top htop⟩)

/-! ## A single walk -/

theorem subset_path_walkUp (fates : SymbolMap Fate) (fuel : Nat) (path : List Symbol)
    (node : Symbol) : path ⊆ (walkUp g root fates fuel path node).path := by
  induction fuel generalizing path node with
  | zero => exact List.Subset.refl _
  | succ n ih =>
    unfold walkUp
    split
    · exact List.Subset.refl _
    · split
      · exact List.Subset.refl _
      · split
        · exact List.Subset.refl _
        · split
          · exact List.Subset.trans (List.subset_cons_self _ _) (ih _ _)
          · exact List.subset_cons_self _ _

/-- After a walk from `start` all classes that it leads to are known or on the walk, and each cycle on the
walk has been closed now or leads to what was known before. -/
structure WalkCovers (g : InheritanceGraph) (root : Symbol) (fates : SymbolMap Fate)
    (start : Symbol) (stop : WalkEnd) : Prop where
  start : start = root ∨ fates.get? start ≠ none ∨ start ∈ stop.path
  edge : ∀ x ∈ stop.path, ∀ p, g.Edge x p → p = root ∨ fates.get? p ≠ none ∨ p ∈ stop.path
  closing : ∀ c, stop.closing = some c → fates.get? c = none ∧ c ∈ stop.path ∧ g.OnCycle c
  cycle : ∀ x ∈ stop.path, g.OnCycle x →
    (∃ c, stop.closing = some c ∧ g.Reaches x c) ∨ ∃ k, fates.get? k ≠ none ∧ g.Reaches x k

theorem walkUp_covers (hroot : g.get? root = none) (fates : SymbolMap Fate) {fuel : Nat}
    {path : List Symbol} {node : Symbol} (hw : g.OnWalk path node)
    (hfuel : g.size + 2 ≤ fuel + path.length)
    (hpath : ∀ x ∈ path, ∀ p, g.Edge x p → p = node ∨ p ∈ path) :
    g.WalkCovers root fates node (walkUp g root fates fuel path node) := by
  have hleads : ∀ x ∈ path, g.Reaches x node := fun x hx => (hw.leads x hx).to_reflTransGen
  induction fuel generalizing path node with
  | zero =>
    have := hw.length_le
    omega
  | succ n ih =>
    unfold walkUp
    by_cases hnode : node = root
    · -- nothing on a cycle leads to the root
      rw [if_pos hnode]
      refine ⟨.inl hnode, fun x hx p hp => ?_, by simp, fun x hx hcycle => ?_⟩
      · exact (hpath x hx p hp).imp (·.trans hnode) .inr
      · exact absurd (hleads x hx) (hcycle.not_reaches (hnode ▸ hroot))
    rw [if_neg hnode]
    cases hf : fates.get? node with
    | some fate =>
      -- the walk runs into what an earlier one has covered
      have hknown : fates.get? node ≠ none := by simp [hf]
      refine ⟨.inr (.inl hknown), fun x hx p hp => ?_, by simp, fun x hx _ => ?_⟩
      · rcases hpath x hx p hp with rfl | hp
        · exact .inr (.inl hknown)
        · exact .inr (.inr hp)
      · exact .inr ⟨node, hknown, hleads x hx⟩
    | none =>
      by_cases hmem : node ∈ path
      · -- the walk has come back to a class behind it
        simp only [if_pos hmem]
        refine ⟨.inr (.inr hmem), fun x hx p hp => ?_, ?_, fun x hx _ => ?_⟩
        · exact .inr (.inr ((hpath x hx p hp).elim (fun h => h ▸ hmem) id))
        · rintro c ⟨⟩
          exact ⟨hf, hmem, hw.leads node hmem⟩
        · exact .inl ⟨node, rfl, hleads x hx⟩
      · simp only [if_neg hmem]
        cases hp : g.get? node with
        | none =>
          -- the walk ends at a class without parent, which is on no cycle either
          refine ⟨.inr (.inr List.mem_cons_self), fun x hx p hedge => ?_, by simp,
            fun x hx hcycle => ?_⟩
          · rcases List.mem_cons.mp hx with rfl | hx
            · exact absurd (hp.symm.trans hedge) (by simp)
            · exact .inr (.inr (List.mem_cons.mpr (hpath x hx p hedge)))
          · refine absurd ?_ (hcycle.not_reaches hp)
            rcases List.mem_cons.mp hx with rfl | hx
            · exact .refl
            · exact hleads x hx
        | some parent =>
          have hlen : (node :: path).length = path.length + 1 := rfl
          have hnext := hw.push hmem hp
          have hstep := ih hnext (by omega) (fun x hx p hedge => by
            rcases List.mem_cons.mp hx with rfl | hx
            · exact .inl (Edge.unique hedge hp)
            · exact .inr (List.mem_cons.mpr (hpath x hx p hedge)))
            fun x hx => (hnext.leads x hx).to_reflTransGen
          exact ⟨.inr (.inr (subset_path_walkUp fates n _ parent List.mem_cons_self)), hstep.edge,
            hstep.closing, hstep.cycle⟩

/-! ## All walks -/

/-- After walks from the classes `starts`, what is known is closed under following parents, and each cycle
with a known class has been closed at exactly one of its classes. -/
structure SearchCovers (g : InheritanceGraph) (root : Symbol) (starts : List Symbol)
    (found : Search) : Prop where
  starts : ∀ c ∈ starts, c = root ∨ found.fates.get? c ≠ none
  edge : ∀ x, found.fates.get? x ≠ none → ∀ p, g.Edge x p → p = root ∨ found.fates.get? p ≠ none
  closing : ∀ c ∈ found.closing, found.fates.get? c ≠ none ∧ g.OnCycle c
  distinct : found.closing.Pairwise fun c d => ¬ g.Reaches c d
  cycle : ∀ x, found.fates.get? x ≠ none → g.OnCycle x → ∃ c ∈ found.closing, g.Reaches x c

theorem SearchCovers.known_of_reaches (hroot : g.get? root = none) {starts : List Symbol}
    {found : Search} (h : g.SearchCovers root starts found) {c d : Symbol}
    (hc : found.fates.get? c ≠ none) (hd : g.Reaches c d) :
    d = root ∨ found.fates.get? d ≠ none := by
  induction hd with
  | refl => exact .inr hc
  | tail _ hedge ih =>
    rcases ih with rfl | hknown
    · exact absurd (hroot.symm.trans hedge) (by simp)
    · exact h.edge _ hknown _ hedge

theorem searchFrom_covers (hroot : g.get? root = none) {starts : List Symbol} {found : Search}
    (h : g.SearchCovers root starts found) (start : Symbol) :
    g.SearchCovers root (starts ++ [start]) (searchFrom g root found start) := by
  have hstop := walkUp_covers hroot found.fates (OnWalk.nil g start) (Nat.le_refl (g.size + 2))
    (fun _ hx => absurd hx List.not_mem_nil)
  generalize hs : walkUp g root found.fates (g.size + 2) [] start = stop at hstop
  have hknown : ∀ c, (searchFrom g root found start).fates.get? c ≠ none ↔
      found.fates.get? c ≠ none ∨ c ∈ stop.path := fun c => by
    simp only [searchFrom, hs, get?_foldl_insert]
    by_cases hc : c ∈ stop.path <;> simp [hc]
  have hclosing : ∀ c, c ∈ (searchFrom g root found start).closing ↔
      c ∈ found.closing ∨ stop.closing = some c := fun c => by
    simp [searchFrom, hs]
  refine ⟨fun c hc => ?_, fun x hx p hp => ?_, fun c hc => ?_, ?_, fun x hx hcycle => ?_⟩
  · rw [hknown]
    rcases List.mem_append.mp hc with hc | hc
    · exact (h.starts c hc).imp_right .inl
    · rw [List.mem_singleton.mp hc]
      exact hstop.start
  · rw [hknown] at hx ⊢
    rcases hx with hx | hx
    · exact (h.edge x hx p hp).imp_right .inl
    · exact hstop.edge x hx p hp
  · rw [hknown]
    rcases (hclosing c).mp hc with hc | hc
    · exact ⟨.inl (h.closing c hc).1, (h.closing c hc).2⟩
    · exact ⟨.inr (hstop.closing c hc).2.1, (hstop.closing c hc).2.2⟩
  · -- a class that is closed now was not known, so no class that was closed before leads to it
    simp only [searchFrom, hs]
    refine List.pairwise_append.mpr ⟨h.distinct, by cases stop.closing <;> simp, ?_⟩
    intro c hc d hd hreach
    rw [Option.mem_toList] at hd
    obtain ⟨hnew, -, hcycle⟩ := hstop.closing d hd
    rcases h.known_of_reaches hroot (h.closing c hc).1 hreach with rfl | hd'
    · exact hcycle.not_reaches hroot .refl
    · exact hd' hnew
  · rw [hknown] at hx
    have hbefore : ∀ k, found.fates.get? k ≠ none → g.Reaches x k →
        ∃ c ∈ (searchFrom g root found start).closing, g.Reaches x c := fun k hk hreach => by
      obtain ⟨c, hc, hkc⟩ := h.cycle k hk (hcycle.of_reaches hreach)
      exact ⟨c, (hclosing c).mpr (.inl hc), hreach.trans hkc⟩
    rcases hx with hx | hx
    · exact hbefore x hx .refl
    · rcases hstop.cycle x hx hcycle with ⟨c, hc, hreach⟩ | ⟨k, hk, hreach⟩
      · exact ⟨c, (hclosing c).mpr (.inr hc), hreach⟩
      · exact hbefore k hk hreach

theorem foldl_searchFrom_covers (hroot : g.get? root = none) {starts : List Symbol}
    {found : Search} (h : g.SearchCovers root starts found) (rest : List Symbol) :
    g.SearchCovers root (starts ++ rest) (rest.foldl (searchFrom g root) found) := by
  induction rest generalizing starts found with
  | nil => simpa using h
  | cons c rest ih =>
    have hstep := ih (searchFrom_covers hroot h c)
    rwa [List.append_assoc, List.singleton_append] at hstep

theorem search_covers (hroot : g.get? root = none) :
    g.SearchCovers root g.keys (g.search root) := by
  have hcovers : g.SearchCovers root [] {} :=
    ⟨by simp, by simp, by simp, List.Pairwise.nil, by simp⟩
  exact foldl_searchFrom_covers hroot hcovers g.keys

/-- The classes are one for each cycle of the graph. -/
structure OnePerCycle (g : InheritanceGraph) (cs : List Symbol) : Prop where
  onCycle : ∀ c ∈ cs, g.OnCycle c
  distinct : cs.Pairwise fun c d => ¬ g.SameCycle c d
  complete : ∀ x, g.OnCycle x → ∃ c ∈ cs, g.SameCycle x c

/-- The search closes each cycle of the graph once. -/
theorem closing_onePerCycle (hroot : g.get? root = none) : g.OnePerCycle (g.search root).closing := by
  have h := search_covers hroot
  refine ⟨fun c hc => (h.closing c hc).2, ?_, fun x hx => ?_⟩
  · exact h.distinct.imp fun hcd hsame => hcd hsame.1.to_reflTransGen
  · obtain ⟨p, hp⟩ := hx.exists_edge
    rcases h.starts x (SymbolMap.mem_keys_of_get? hp) with rfl | hknown
    · exact absurd (hroot.symm.trans hp) (by simp)
    · obtain ⟨c, hc, hreach⟩ := h.cycle x hknown hx
      exact ⟨c, hc, hx.sameCycle hreach⟩

end InheritanceGraph

end CoolTypes
