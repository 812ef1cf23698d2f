import CoolTypes.Proofs.Classes.Cycles

/-!
# Where cycles are closed

A walk that closes a cycle comes back to the first class on the cycle that it met (`walkUp_meets`): the
classes before that one are on no cycle, since a cycle leads to its own classes only and all of these stand
behind it on the walk. An earlier edge into the same cycle would have made the cycle known, so the search
closes each cycle from the earliest edge that leads into it, and in the order of these edges
(`search_closesInOrder`). No two walks of the search pass the same class (`nodup_walksFrom`).
-/

namespace CoolTypes

namespace InheritanceGraph

variable {g : InheritanceGraph} {root : Symbol}

/-! ## The way to a cycle -/

/-- The first class on a cycle that following parents from a class comes to. -/
inductive Meets (g : InheritanceGraph) : Symbol → Symbol → Prop
  | here {c} : g.OnCycle c → Meets g c c
  | up {a b c} : ¬ g.OnCycle a → g.Edge a b → Meets g b c → Meets g a c

/-- Following parents leads from `start` over the classes of a path, the last of them first, to a class. -/
inductive Walk (g : InheritanceGraph) (start : Symbol) : List Symbol → Symbol → Prop
  | start : Walk g start [] start
  | step {path node parent} : Walk g start path node → g.Edge node parent →
      Walk g start (node :: path) parent

/-- A class on a walk cuts it into a walk to this class and a walk on from it. -/
theorem Walk.split {start node c : Symbol} {path : List Symbol} (h : g.Walk start path node)
    (hc : c ∈ path) : ∃ after before, path = after ++ c :: before ∧ g.Walk start before c ∧
      g.Walk c (after ++ [c]) node := by
  induction h with
  | start => exact absurd hc List.not_mem_nil
  | step hw hedge ih =>
    rcases List.mem_cons.mp hc with rfl | hc
    · exact ⟨[], _, rfl, hw, .step .start hedge⟩
    · obtain ⟨after, before, rfl, hbefore, hafter⟩ := ih hc
      exact ⟨_ :: after, before, rfl, hbefore, .step hafter hedge⟩

/-- The parent of a class on a walk is the next class. -/
theorem Walk.edge_mem {start node x y : Symbol} {path : List Symbol} (h : g.Walk start path node)
    (hx : x ∈ path) (hxy : g.Edge x y) : y ∈ path ∨ y = node := by
  induction h with
  | start => exact absurd hx List.not_mem_nil
  | step _ hedge ih =>
    rcases List.mem_cons.mp hx with rfl | hx
    · exact .inr (Edge.unique hxy hedge)
    · exact .inl (List.mem_cons.mpr (ih hx).symm)

theorem Walk.leads {start node x : Symbol} {path : List Symbol} (h : g.Walk start path node)
    (hx : x ∈ path) : Relation.TransGen g.Edge x node := by
  induction h with
  | start => exact absurd hx List.not_mem_nil
  | step _ hedge ih =>
    rcases List.mem_cons.mp hx with rfl | hx
    · exact .single hedge
    · exact (ih hx).tail hedge

/-- A walk that comes back to where it began has gone over all classes that it leads to. -/
theorem Walk.mem_of_reaches {c d : Symbol} {path : List Symbol} (h : g.Walk c path c)
    (hc : c ∈ path) (hd : g.Reaches c d) : d ∈ path := by
  induction hd with
  | refl => exact hc
  | tail _ hedge ih =>
    rcases h.edge_mem ih hedge with hmem | rfl
    · exact hmem
    · exact hc

/-- A walk over classes on no cycle meets what the class at its end meets. -/
theorem Walk.meets {start node c : Symbol} {path : List Symbol} (h : g.Walk start path node)
    (hoff : ∀ x ∈ path, ¬ g.OnCycle x) (hc : g.Meets node c) : g.Meets start c := by
  induction h with
  | start => exact hc
  | step _ hedge ih =>
    rw [List.forall_mem_cons] at hoff
    exact ih hoff.2 (.up hoff.1 hedge hc)

/-- A walk without repetition that comes back to one of its classes has met a cycle there first. -/
theorem Walk.meets_of_mem {start node : Symbol} {path : List Symbol} (h : g.Walk start path node)
    (hnodup : path.Nodup) (hnode : node ∈ path) : g.Meets start node := by
  obtain ⟨after, before, rfl, hbefore, hafter⟩ := h.split hnode
  have hcycle : g.OnCycle node := h.leads hnode
  refine hbefore.meets (fun x hx hxcycle => ?_) (.here hcycle)
  -- a class before the cycle that is on one is on this one, so the walk has it twice
  have hback : g.Reaches node x := hxcycle.reaches_back (hbefore.leads hx).to_reflTransGen
  have hmem : x ∈ after ++ [node] := hafter.mem_of_reaches (by simp) hback
  rw [List.append_cons, List.nodup_append] at hnodup
  exact hnodup.2.2 x hmem x hx rfl

/-! ## A single walk -/

theorem walkUp_meets (fates : SymbolMap Fate) {fuel : Nat} {path : List Symbol}
    {start node : Symbol} (hw : g.Walk start path node) (hnodup : path.Nodup) {c : Symbol}
    (hc : (walkUp g root fates fuel path node).closing = some c) : g.Meets start c := by
  induction fuel generalizing path node with
  | zero => exact absurd hc (by simp [walkUp])
  | succ n ih =>
    unfold walkUp at hc
    split at hc
    · exact absurd hc (by simp)
    split at hc
    · exact absurd hc (by simp)
    split at hc
    · next hmem =>
      cases hc
      exact hw.meets_of_mem hnodup hmem
    · next hmem =>
      split at hc
      · next parent hp => exact ih (.step hw hp) (List.nodup_cons.mpr ⟨hmem, hnodup⟩) hc
      · exact absurd hc (by simp)

/-- The classes that a walk passes were unknown, and it passes none of them twice. -/
theorem walkUp_path (fates : SymbolMap Fate) {fuel : Nat} {path : List Symbol} {node : Symbol}
    (hnodup : path.Nodup) (hnew : ∀ x ∈ path, fates.get? x = none) :
    (walkUp g root fates fuel path node).path.Nodup ∧
      ∀ x ∈ (walkUp g root fates fuel path node).path, fates.get? x = none := by
  induction fuel generalizing path node with
  | zero => exact ⟨hnodup, hnew⟩
  | succ n ih =>
    unfold walkUp
    split
    · exact ⟨hnodup, hnew⟩
    split
    · exact ⟨hnodup, hnew⟩
    next hunknown =>
    split
    · exact ⟨hnodup, hnew⟩
    next hmem =>
    have hnodup' : (node :: path).Nodup := List.nodup_cons.mpr ⟨hmem, hnodup⟩
    have hnew' : ∀ x ∈ node :: path, fates.get? x = none :=
      List.forall_mem_cons.mpr ⟨hunknown, hnew⟩
    split
    · exact ih hnodup' hnew'
    · exact ⟨hnodup', hnew'⟩

/-! ## All walks -/

/-- The walks from the classes `starts`, each with what is known after the earlier ones. -/
def walksFrom (g : InheritanceGraph) (root : Symbol) : Search → List Symbol → List WalkEnd
  | _, [] => []
  | found, c :: rest =>
    walkUp g root found.fates (g.size + 2) [] c :: walksFrom g root (searchFrom g root found c) rest

/-- The walks are those of the search: it closes what they close. -/
theorem closing_foldl_searchFrom (found : Search) (starts : List Symbol) :
    (starts.foldl (searchFrom g root) found).closing =
      found.closing ++ (g.walksFrom root found starts).flatMap (·.closing.toList) := by
  induction starts generalizing found with
  | nil => simp [walksFrom]
  | cons c rest ih =>
    rw [List.foldl_cons, ih, walksFrom, List.flatMap_cons, ← List.append_assoc]
    rfl

/-- No class is passed twice, by one walk or by two, and none that was known before. -/
theorem nodup_walksFrom (found : Search) (starts : List Symbol) :
    ((g.walksFrom root found starts).flatMap (·.path)).Nodup ∧
      ∀ x ∈ (g.walksFrom root found starts).flatMap (·.path), found.fates.get? x = none := by
  induction starts generalizing found with
  | nil => exact ⟨List.nodup_nil, List.forall_mem_nil _⟩
  | cons c rest ih =>
    have hwalk : (walkUp g root found.fates (g.size + 2) [] c).path.Nodup ∧
        ∀ x ∈ (walkUp g root found.fates (g.size + 2) [] c).path, found.fates.get? x = none :=
      walkUp_path found.fates List.nodup_nil (List.forall_mem_nil _)
    obtain ⟨hpath, hnew⟩ := hwalk
    obtain ⟨hrest, hlater⟩ := ih (searchFrom g root found c)
    -- what a later walk passes was unknown before this one and is not on it
    have hsplit : ∀ x ∈ (g.walksFrom root (searchFrom g root found c) rest).flatMap (·.path),
        x ∉ (walkUp g root found.fates (g.size + 2) [] c).path ∧ found.fates.get? x = none := by
      intro x hx
      have hunknown := hlater x hx
      simp only [searchFrom, get?_foldl_insert] at hunknown
      by_cases hmem : x ∈ (walkUp g root found.fates (g.size + 2) [] c).path
      · rw [if_pos hmem] at hunknown
        exact absurd hunknown (by simp)
      · rw [if_neg hmem] at hunknown
        exact ⟨hmem, hunknown⟩
    rw [walksFrom, List.flatMap_cons]
    refine ⟨List.nodup_append.mpr ⟨hpath, hrest, ?_⟩, List.forall_mem_append.mpr ⟨hnew, ?_⟩⟩
    · rintro x hx y hy rfl
      exact (hsplit x hy).1 hx
    · exact fun x hx => (hsplit x hx).2

/-- Of the classes `keys`, `k` is the first that leads to the cycle of `c`, and it meets the cycle at `c`. -/
structure EntersFirst (g : InheritanceGraph) (keys : List Symbol) (k c : Symbol) : Prop where
  meets : g.Meets k c
  first : ∃ earlier later, keys = earlier ++ k :: later ∧ ∀ k' ∈ earlier, ¬ g.Reaches k' c

theorem EntersFirst.append {keys : List Symbol} {k c : Symbol} (h : g.EntersFirst keys k c)
    (more : List Symbol) : g.EntersFirst (keys ++ more) k c := by
  obtain ⟨earlier, later, rfl, hfirst⟩ := h.first
  exact ⟨h.meets, earlier, later ++ more, by simp, hfirst⟩

/-- The classes of `cs` are where cycles are met from those of the classes `starts` that are the first to
lead to their cycles, in the same order. -/
def ClosesInOrder (g : InheritanceGraph) (starts cs : List Symbol) : Prop :=
  ∃ leads, leads.Sublist starts ∧ List.Forall₂ (g.EntersFirst starts) leads cs

theorem searchFrom_closesInOrder (hroot : g.get? root = none) {starts : List Symbol}
    {found : Search} (hcovers : g.SearchCovers root starts found)
    (h : g.ClosesInOrder starts found.closing) (start : Symbol) :
    g.ClosesInOrder (starts ++ [start]) (searchFrom g root found start).closing := by
  obtain ⟨leads, hsub, hleads⟩ := h
  have hold : List.Forall₂ (g.EntersFirst (starts ++ [start])) leads found.closing :=
    hleads.imp fun _ _ henters => henters.append [start]
  have hstop := walkUp_covers hroot found.fates (OnWalk.nil g start) (Nat.le_refl (g.size + 2))
    (fun _ hx => absurd hx List.not_mem_nil)
  show g.ClosesInOrder _ (found.closing ++
    (walkUp g root found.fates (g.size + 2) [] start).closing.toList)
  cases hclosing : (walkUp g root found.fates (g.size + 2) [] start).closing with
  | none =>
    refine ⟨leads, hsub.trans (List.sublist_append_left _ _), ?_⟩
    simpa using hold
  | some c =>
    have hmeets : g.Meets start c := walkUp_meets found.fates .start List.nodup_nil hclosing
    obtain ⟨hnew, -, hcycle⟩ := hstop.closing c hclosing
    -- if an earlier class led to `c`, then `c` would have been known
    have hfirst : ∀ k ∈ starts, ¬ g.Reaches k c := by
      intro k hk hreach
      have hknown : c = root ∨ found.fates.get? c ≠ none := by
        rcases hcovers.starts k hk with rfl | hk
        · rcases Relation.ReflTransGen.cases_head hreach with rfl | ⟨p, hp, _⟩
          · exact .inl rfl
          · exact absurd (hroot.symm.trans hp) (by simp)
        · exact hcovers.known_of_reaches hroot hk hreach
      rcases hknown with rfl | hknown
      · exact hcycle.not_reaches hroot .refl
      · exact hknown hnew
    refine ⟨leads ++ [start], hsub.append (List.Sublist.refl _), ?_⟩
    exact List.rel_append hold (.cons ⟨hmeets, starts, [], rfl, hfirst⟩ .nil)

theorem foldl_searchFrom_closesInOrder (hroot : g.get? root = none) {starts : List Symbol}
    {found : Search} (hcovers : g.SearchCovers root starts found)
    (h : g.ClosesInOrder starts found.closing) (rest : List Symbol) :
    g.ClosesInOrder (starts ++ rest) (rest.foldl (searchFrom g root) found).closing := by
  induction rest generalizing starts found with
  | nil => simpa using h
  | cons c rest ih =>
    have hstep := ih (searchFrom_covers hroot hcovers c) (searchFrom_closesInOrder hroot hcovers h c)
    rwa [List.append_assoc, List.singleton_append] at hstep

/-- The search closes each cycle where the earliest edge into it meets it, in the order of these edges. -/
theorem search_closesInOrder (hroot : g.get? root = none) :
    g.ClosesInOrder g.keys (g.search root).closing := by
  have hcovers : g.SearchCovers root [] {} :=
    ⟨by simp, by simp, by simp, List.Pairwise.nil, by simp⟩
  exact foldl_searchFrom_closesInOrder hroot hcovers ⟨[], .slnil, .nil⟩ g.keys

end InheritanceGraph

end CoolTypes
