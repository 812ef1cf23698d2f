import CoolTypes.Proofs.Classes.Chain

/-!
# The search for cycles

A walk ends as the chains of its classes do: it settles the classes from which following parents comes
to an end and finds the others cyclic (`walkUp_right`). Its fuel never runs out (`walkUp_fuel`), because
a walk meets each class with a parent at most once. The whole search therefore reports nothing exactly
if all classes with a parent have a chain (`search_right`); a walk that runs into a cycle of an earlier
walk fails without a report, but that cycle has been reported before.
-/

namespace CoolTypes

namespace InheritanceGraph

variable {g : InheritanceGraph} {root : Symbol}

/-! ## A single walk -/

/-- A walk in progress: the classes behind it are distinct, have parents and lead to `node`. -/
structure OnWalk (g : InheritanceGraph) (path : List Symbol) (node : Symbol) : Prop where
  nodup : path.Nodup
  keys : ∀ x ∈ path, x ∈ g.keys
  leads : ∀ x ∈ path, Relation.TransGen g.Edge x node

theorem OnWalk.nil (g : InheritanceGraph) (node : Symbol) : g.OnWalk [] node :=
  ⟨List.nodup_nil, by simp, by simp⟩

theorem OnWalk.push {path : List Symbol} {node parent : Symbol} (hw : g.OnWalk path node)
    (hnew : node ∉ path) (hp : g.get? node = some parent) : g.OnWalk (node :: path) parent := by
  refine ⟨List.nodup_cons.mpr ⟨hnew, hw.nodup⟩, fun x hx => ?_, fun x hx => ?_⟩
  · rcases List.mem_cons.mp hx with rfl | hx
    · exact SymbolMap.mem_keys_of_get? hp
    · exact hw.keys x hx
  · rcases List.mem_cons.mp hx with rfl | hx
    · exact Relation.TransGen.single hp
    · exact (hw.leads x hx).tail hp

/-- The classes behind a walk are no more than the edges. -/
theorem OnWalk.length_le {path : List Symbol} {node : Symbol} (hw : g.OnWalk path node) :
    path.length ≤ g.size := by
  have h := (List.subperm_of_subset hw.nodup hw.keys).length_le
  have hsize : g.keys.length = g.size := by simp [SymbolMap.keys, SymbolMap.size]
  omega

/-- More fuel than a walk can use changes nothing. -/
theorem walkUp_fuel (fates : SymbolMap Fate) {fuel : Nat} {path : List Symbol} {node : Symbol}
    (hw : g.OnWalk path node) (hfuel : g.size + 2 ≤ fuel + path.length) (extra : Nat) :
    walkUp g root fates (fuel + extra) path node = walkUp g root fates fuel path node := by
  induction fuel generalizing path node with
  | zero =>
    have := hw.length_le
    omega
  | succ n ih =>
    rw [show n + 1 + extra = (n + extra) + 1 by omega]
    unfold walkUp
    by_cases hroot : node = root
    · simp only [if_pos hroot]
    · simp only [if_neg hroot]
      cases fates.get? node with
      | some fate => rfl
      | none =>
        by_cases hmem : node ∈ path
        · simp only [if_pos hmem]
        · simp only [if_neg hmem]
          cases hp : g.get? node with
          | none => rfl
          | some parent =>
            have hlen : (node :: path).length = path.length + 1 := rfl
            exact ih (hw.push hmem hp) (by omega)

/-- What is known of classes is right: the settled ones are those that have a chain. -/
def FatesRight (g : InheritanceGraph) (fates : SymbolMap Fate) : Prop :=
  ∀ c fate, fates.get? c = some fate → (fate = .settled ↔ g.Ends c)

/-- The end of a walk tells the truth about the class where it started. -/
structure EndRight (g : InheritanceGraph) (fates : SymbolMap Fate) (start : Symbol)
    (stop : WalkEnd) : Prop where
  fate : stop.fate = .settled ↔ g.Ends start
  path : ∀ c ∈ stop.path, g.Ends c ↔ g.Ends start
  closing : ∀ c, stop.closing = some c → stop.fate = .cyclic ∧ Relation.TransGen g.Edge c c
  /-- A walk that closes no cycle itself is cyclic only by running into a cyclic class. -/
  silent : stop.closing = none → stop.fate = .cyclic → ∃ c, fates.get? c = some .cyclic

theorem Fate.cyclic_iff {fate : Fate} : fate = .cyclic ↔ ¬ fate = .settled := by
  cases fate <;> simp

theorem walkUp_right (hroot : g.get? root = none) {fates : SymbolMap Fate}
    (hfates : g.FatesRight fates) {fuel : Nat} {path : List Symbol} {node : Symbol}
    (hw : g.OnWalk path node) (hfuel : g.size + 2 ≤ fuel + path.length) :
    g.EndRight fates node (walkUp g root fates fuel path node) := by
  -- the classes behind the walk lead to its end, so they share its fate
  have hpath : ∀ {c x}, c ∈ path → node = x → (g.Ends c ↔ g.Ends x) := fun hc hx =>
    hx ▸ ends_iff_of_reaches (hw.leads _ hc).to_reflTransGen
  induction fuel generalizing path node with
  | zero =>
    have := hw.length_le
    omega
  | succ n ih =>
    unfold walkUp
    by_cases hnode : node = root
    · rw [if_pos hnode]
      have hend : g.Ends node := ⟨[node], .top (hnode ▸ hroot)⟩
      exact ⟨by simp [hend], fun c hc => hpath hc rfl, by simp, by simp⟩
    rw [if_neg hnode]
    cases hf : fates.get? node with
    | some fate =>
      refine ⟨hfates node fate hf, fun c hc => hpath hc rfl, by simp, fun _ hcyc => ?_⟩
      exact ⟨node, by rw [hf]; exact congrArg some hcyc⟩
    | none =>
      by_cases hmem : node ∈ path
      · -- the walk has come back to a class behind it
        simp only [if_pos hmem]
        have hend : ¬ g.Ends node := not_ends_of_cycle (hw.leads node hmem)
        refine ⟨by simp [hend], fun c hc => hpath hc rfl, fun c hc => ⟨rfl, ?_⟩, by simp⟩
        rw [← Option.some.inj hc]
        exact hw.leads node hmem
      · simp only [if_neg hmem]
        cases hp : g.get? node with
        | none =>
          have hend : g.Ends node := ⟨[node], .top hp⟩
          refine ⟨by simp [hend], fun c hc => ?_, by simp, by simp⟩
          rcases List.mem_cons.mp hc with rfl | hc
          · exact Iff.rfl
          · exact hpath hc rfl
        | some parent =>
          have hlen : (node :: path).length = path.length + 1 := rfl
          have hnext := hw.push hmem hp
          have hstep := ih hnext (by omega) fun hc hx =>
            hx ▸ ends_iff_of_reaches (hnext.leads _ hc).to_reflTransGen
          have hends := ends_iff_of_edge hp
          exact ⟨hstep.fate.trans hends.symm, fun c hc => (hstep.path c hc).trans hends.symm,
            hstep.closing, hstep.silent⟩

/-! ## All walks -/

theorem get?_foldl_insert (fate : Fate) (path : List Symbol) (fates : SymbolMap Fate) (c : Symbol) :
    (path.foldl (fun m node => m.insert node fate) fates).get? c =
      if c ∈ path then some fate else fates.get? c := by
  induction path generalizing fates with
  | nil => simp
  | cons node rest ih =>
    rw [List.foldl_cons, ih, SymbolMap.get?_insert]
    by_cases hc : c ∈ rest
    · simp [hc]
    · by_cases hn : c = node <;> simp [hc, hn]

/-- What walks from the classes `starts` have found is right. -/
structure SearchRight (g : InheritanceGraph) (starts : List Symbol) (found : Search) : Prop where
  fates : g.FatesRight found.fates
  acyclic : found.acyclic = true ↔ ∀ c ∈ starts, g.Ends c
  /-- A cyclic class is known only after a walk has failed. -/
  known : ∀ c, found.fates.get? c = some .cyclic → found.acyclic = false
  reported : found.closing = [] ↔ found.acyclic = true
  closing : ∀ c ∈ found.closing, Relation.TransGen g.Edge c c

theorem searchFrom_right (hroot : g.get? root = none) {starts : List Symbol} {found : Search}
    (h : g.SearchRight starts found) (start : Symbol) :
    g.SearchRight (starts ++ [start]) (searchFrom g root found start) := by
  have hstop := walkUp_right hroot h.fates (OnWalk.nil g start) (Nat.le_refl (g.size + 2))
  generalize hs : walkUp g root found.fates (g.size + 2) [] start = stop at hstop
  have hacyclic : (searchFrom g root found start).acyclic = true ↔
      found.acyclic = true ∧ stop.fate = .settled := by
    simp [searchFrom, hs]
  refine ⟨fun c fate hc => ?_, ?_, fun c hc => ?_, ?_, fun c hc => ?_⟩
  · -- the classes of the walk get its fate, the others keep theirs
    simp only [searchFrom, hs, get?_foldl_insert] at hc
    by_cases hmem : c ∈ stop.path
    · rw [if_pos hmem] at hc
      injection hc with hfate
      rw [← hfate, hstop.fate]
      exact (hstop.path c hmem).symm
    · rw [if_neg hmem] at hc
      exact h.fates c fate hc
  · rw [hacyclic, h.acyclic, hstop.fate]
    simp [or_imp, forall_and]
  · rw [← Bool.not_eq_true, hacyclic]
    rintro ⟨hbefore, hsettled⟩
    simp only [searchFrom, hs, get?_foldl_insert] at hc
    by_cases hmem : c ∈ stop.path
    · rw [if_pos hmem, hsettled] at hc
      exact absurd hc (by simp)
    · rw [if_neg hmem] at hc
      rw [h.known c hc] at hbefore
      exact absurd hbefore (by simp)
  · have hclosing : (searchFrom g root found start).closing = [] ↔
        found.acyclic = true ∧ stop.closing = none := by
      simp [searchFrom, hs, h.reported]
    rw [hclosing, hacyclic]
    refine and_congr_right fun hbefore => ⟨fun hnone => ?_, fun hsettled => ?_⟩
    · -- a walk that fails in silence has met a cyclic class, but none was known before
      by_contra hcyc
      obtain ⟨c, hc⟩ := hstop.silent hnone (Fate.cyclic_iff.mpr hcyc)
      rw [h.known c hc] at hbefore
      exact absurd hbefore (by simp)
    · cases hcl : stop.closing with
      | none => rfl
      | some c =>
        have hcyc := (hstop.closing c hcl).1
        rw [hsettled] at hcyc
        exact absurd hcyc (by simp)
  · simp only [searchFrom, hs, List.mem_append, Option.mem_toList] at hc
    rcases hc with hc | hc
    · exact h.closing c hc
    · exact (hstop.closing c hc).2

theorem foldl_searchFrom_right (hroot : g.get? root = none) {starts : List Symbol} {found : Search}
    (h : g.SearchRight starts found) (rest : List Symbol) :
    g.SearchRight (starts ++ rest) (rest.foldl (searchFrom g root) found) := by
  induction rest generalizing starts found with
  | nil => simpa using h
  | cons c rest ih =>
    have hstep := ih (searchFrom_right hroot h c)
    rwa [List.append_assoc, List.singleton_append] at hstep

theorem search_right (hroot : g.get? root = none) : g.SearchRight g.keys (g.search root) := by
  have hstart : g.SearchRight [] {} := ⟨by simp [FatesRight], by simp, by simp, by simp, by simp⟩
  exact foldl_searchFrom_right hroot hstart g.keys

end InheritanceGraph

end CoolTypes
