import CoolTypes.Proofs.Classes.Chain

/-!
# Conformance and joins

Two relations on an inheritance graph say what conformance (`Conforms`) and a least common ancestor
(`IsJoin`) are. In a rooted hierarchy the computed ones agree with them on types of declared classes
(`Rooted.conforms_iff`, `Rooted.isJoin_join`, `Rooted.isJoin_joinAll?`).
-/

namespace CoolTypes

namespace InheritanceGraph

/-- Inside the class `current`, values of one type can stand where the other is expected. -/
inductive Conforms (g : InheritanceGraph) (current : Symbol) : Ty → Ty → Prop
  | self : Conforms g current .selfType .selfType
  | selfNamed {d} : g.Reaches current d → Conforms g current .selfType (.named d)
  | named {c d} : g.Reaches c d → Conforms g current (.named c) (.named d)

/-- All of `cs` inherit from `j`, and `j` does so from every other class of that kind. -/
structure IsJoin (g : InheritanceGraph) (cs : List Symbol) (j : Symbol) : Prop where
  above : ∀ c ∈ cs, g.Reaches c j
  least : ∀ k, (∀ c ∈ cs, g.Reaches c k) → g.Reaches j k

variable {g : InheritanceGraph}

/-! ## Order -/

theorem Reaches.antisymm {c d : Symbol} (hcd : g.Reaches c d) (hdc : g.Reaches d c)
    (hc : g.Ends c) : c = d := by
  rcases Relation.ReflTransGen.cases_head hcd with heq | ⟨p, hp, hpd⟩
  · exact heq
  · exact absurd hc (not_ends_of_cycle (Relation.TransGen.head' hp (hpd.trans hdc)))

theorem IsJoin.unique {cs : List Symbol} {j k : Symbol} (hj : g.IsJoin cs j) (hk : g.IsJoin cs k)
    (hends : g.Ends j) : j = k :=
  Reaches.antisymm (hj.least k hk.above) (hk.least j hj.above) hends

theorem isJoin_singleton (c : Symbol) : g.IsJoin [c] c :=
  ⟨fun d hd => by rw [List.mem_singleton.mp hd]; exact Relation.ReflTransGen.refl,
    fun k hk => hk c List.mem_cons_self⟩

/-- The join of a list can be taken one class at a time. -/
theorem IsJoin.append {cs : List Symbol} {c j k : Symbol} (hj : g.IsJoin cs j)
    (hk : g.IsJoin [j, c] k) : g.IsJoin (cs ++ [c]) k := by
  have hjk : g.Reaches j k := hk.above j (by simp)
  refine ⟨fun d hd => ?_, fun m hm => hk.least m fun d hd => ?_⟩
  · rcases List.mem_append.mp hd with hd | hd
    · exact (hj.above d hd).trans hjk
    · exact hk.above d (by simpa using Or.inr (List.mem_singleton.mp hd))
  · simp only [List.mem_cons, List.not_mem_nil, or_false] at hd
    rcases hd with rfl | rfl
    · exact hj.least m fun e he => hm e (List.mem_append_left _ he)
    · exact hm d (by simp)

/-! ## Ends of a chain -/

/-- Behind each of its members a chain is the chain of that member. -/
theorem ChainFrom.suffix_of_mem {c d : Symbol} {l : List Symbol} (hl : g.ChainFrom c l)
    (hd : d ∈ l) : ∃ m, g.ChainFrom d m ∧ m <:+ l := by
  induction hl with
  | top hc =>
    rw [List.mem_singleton.mp hd]
    exact ⟨_, .top hc, List.suffix_refl _⟩
  | link hc hrest ih =>
    rcases List.mem_cons.mp hd with rfl | hd
    · exact ⟨_, .link hc hrest, List.suffix_refl _⟩
    · obtain ⟨m, hm, hsuffix⟩ := ih hd
      exact ⟨m, hm, hsuffix.trans (List.suffix_cons _ _)⟩

theorem ChainFrom.of_suffix {c d : Symbol} {l m : List Symbol} (hl : g.ChainFrom c l)
    (h : d :: m <:+ l) : g.ChainFrom d (d :: m) := by
  induction hl with
  | top hc =>
    rcases List.suffix_cons_iff.mp h with heq | hnil
    · cases heq
      exact .top hc
    · exact absurd (List.suffix_nil.mp hnil) (by simp)
  | link hc hrest ih =>
    rcases List.suffix_cons_iff.mp h with heq | hsuffix
    · cases heq
      exact .link hc hrest
    · exact ih hsuffix

end InheritanceGraph

/-! ## The last common class of two chains -/

/-- The result is the end of the longest common beginning. -/
theorem exists_prefix_lastCommon (as bs : List Symbol) :
    ∃ p, p <+: as ∧ p <+: bs ∧ lastCommon as bs = p.getLast? ∧
      ∀ q, q <+: as → q <+: bs → q <+: p := by
  induction as generalizing bs with
  | nil => exact ⟨[], List.nil_prefix, List.nil_prefix, rfl, fun q hq _ => hq⟩
  | cons a as ih =>
    cases bs with
    | nil => exact ⟨[], List.nil_prefix, List.nil_prefix, rfl, fun q _ hq => hq⟩
    | cons b bs =>
      by_cases hab : a = b
      · subst hab
        obtain ⟨p, has, hbs, hlast, hmax⟩ := ih bs
        refine ⟨a :: p, by simpa using has, by simpa using hbs, ?_, fun q hqa hqb => ?_⟩
        · rw [lastCommon, if_pos rfl, hlast, List.getLast?_cons]
          cases p.getLast? <;> rfl
        · cases q with
          | nil => exact List.nil_prefix
          | cons c q =>
            rw [List.cons_prefix_cons] at hqa hqb ⊢
            exact ⟨hqa.1, hmax q hqa.2 hqb.2⟩
      · refine ⟨[], List.nil_prefix, List.nil_prefix, by rw [lastCommon, if_neg hab]; rfl,
          fun q hqa hqb => ?_⟩
        cases q with
        | nil => exact List.nil_prefix
        | cons c q =>
          rw [List.cons_prefix_cons] at hqa hqb
          exact absurd (hqa.1.symm.trans hqb.1) hab

namespace InheritanceGraph

variable {g : InheritanceGraph}

/-- Two chains with the same last class meet in the least class above both of their starts. -/
theorem exists_isJoin_lastCommon {x y top : Symbol} {lx ly : List Symbol} (hx : g.ChainFrom x lx)
    (hy : g.ChainFrom y ly) (htopx : lx.getLast? = some top) (htopy : ly.getLast? = some top) :
    ∃ j, lastCommon lx.reverse ly.reverse = some j ∧ g.IsJoin [x, y] j := by
  obtain ⟨p, hpx, hpy, hlast, hmax⟩ := exists_prefix_lastCommon lx.reverse ly.reverse
  have htop : ∀ {l : List Symbol}, l.getLast? = some top → [top] <+: l.reverse := by
    intro l hl
    obtain ⟨init, rfl⟩ := List.getLast?_eq_some_iff.mp hl
    simp
  have hne : p ≠ [] := by
    rintro rfl
    exact absurd (hmax [top] (htop htopx) (htop htopy)) (by simp)
  obtain ⟨init, j, rfl⟩ : ∃ init j, p = init ++ [j] :=
    ⟨p.dropLast, p.getLast hne, (List.dropLast_append_getLast hne).symm⟩
  -- read from below, the common beginning is the chain of its last class
  have hsuffix : ∀ {l : List Symbol}, init ++ [j] <+: l.reverse → j :: init.reverse <:+ l := by
    intro l hl
    have h := List.reverse_suffix.mpr hl
    simpa using h
  have hchain := hx.of_suffix (hsuffix hpx)
  refine ⟨j, by simpa using hlast, ⟨fun c hc => ?_, fun k hk => ?_⟩⟩
  · simp only [List.mem_cons, List.not_mem_nil, or_false] at hc
    rcases hc with rfl | rfl
    · exact hx.mem_iff.mp ((hsuffix hpx).subset List.mem_cons_self)
    · exact hy.mem_iff.mp ((hsuffix hpy).subset List.mem_cons_self)
  · -- the chain of a class above both starts ends both chains, so the common beginning holds it
    obtain ⟨m, hm, hmx⟩ := hx.suffix_of_mem (hx.mem_iff.mpr (hk x (by simp)))
    obtain ⟨m', hm', hmy⟩ := hy.suffix_of_mem (hy.mem_iff.mpr (hk y (by simp)))
    cases hm.unique hm'
    have hprefix := hmax m.reverse (List.reverse_prefix.mpr hmx) (List.reverse_prefix.mpr hmy)
    have hk := hprefix.subset (List.mem_reverse.mpr hm.self_mem)
    exact hchain.mem_iff.mp (by simpa [or_comm] using hk)

end InheritanceGraph

namespace ClassHierarchy

variable {h : ClassHierarchy}

/-! ## The computed relations -/

/-- The class that a type names, if it names one, is in the hierarchy. -/
def Declares (h : ClassHierarchy) : Ty → Prop
  | .named c => h.contains c = true
  | .selfType => True

@[simp] theorem contains_root : h.contains h.root = true := contains_iff.mpr (.inl rfl)

theorem Declares.contains_within {current : Symbol} (hC : h.contains current = true) {ty : Ty}
    (hty : h.Declares ty) : h.contains (ty.within current) = true := by
  cases ty with
  | named c => exact hty
  | selfType => exact hC

theorem Declares.orSelf {ty substitute : Ty} (hty : h.Declares ty) (hs : h.Declares substitute) :
    h.Declares (ty.orSelf substitute) := by
  cases ty with
  | named c => exact hty
  | selfType => exact hs

theorem Rooted.ends (hr : h.Rooted) {c : Symbol} (hc : h.contains c = true) : h.graph.Ends c :=
  ⟨_, (hr.chainFrom_ancestors hc).1⟩

/-- What a class inherits from is in the hierarchy. -/
theorem Rooted.contains_of_reaches (hr : h.Rooted) {c d : Symbol} (hc : h.contains c = true)
    (hcd : h.graph.Reaches c d) : h.contains d = true := by
  obtain ⟨hchain, hlast⟩ := hr.chainFrom_ancestors hc
  cases hd : h.graph.get? d with
  | some p => exact contains_iff.mpr (.inr ⟨p, hd⟩)
  | none =>
    have hlast' := hchain.getLast?_of_mem (hchain.mem_iff.mpr hcd) hd
    rw [hlast] at hlast'
    exact contains_iff.mpr (.inl (Option.some.inj hlast').symm)

theorem Rooted.isSubclass_iff (hr : h.Rooted) {c d : Symbol} (hc : h.contains c = true) :
    h.isSubclass c d = true ↔ h.graph.Reaches c d := by
  rw [isSubclass, List.contains_iff_mem]
  exact (hr.chainFrom_ancestors hc).1.mem_iff

theorem Rooted.conforms_iff (hr : h.Rooted) {current : Symbol} (hC : h.contains current = true)
    {ty expected : Ty} (hty : h.Declares ty) :
    h.conforms current ty expected = true ↔ h.graph.Conforms current ty expected := by
  constructor
  · intro hconf
    cases ty with
    | named c =>
      cases expected with
      | named d => exact .named ((hr.isSubclass_iff hty).mp hconf)
      | selfType => exact absurd hconf (by simp [conforms])
    | selfType =>
      cases expected with
      | named d => exact .selfNamed ((hr.isSubclass_iff hC).mp hconf)
      | selfType => exact .self
  · intro hconf
    cases hconf with
    | self => rfl
    | selfNamed hreach => exact (hr.isSubclass_iff hC).mpr hreach
    | named hreach => exact (hr.isSubclass_iff hty).mpr hreach

theorem Rooted.isJoin_join (hr : h.Rooted) {current : Symbol} {a b : Ty}
    (ha : h.contains (a.within current) = true) (hb : h.contains (b.within current) = true) :
    h.graph.IsJoin [a.within current, b.within current] (h.join current a b) := by
  unfold join
  by_cases heq : a.within current = b.within current
  · simp only [heq, if_true]
    refine ⟨fun c hc => ?_, fun k hk => hk _ List.mem_cons_self⟩
    rw [show c = b.within current by simpa using hc]
    exact Relation.ReflTransGen.refl
  · obtain ⟨hx, htopx⟩ := hr.chainFrom_ancestors ha
    obtain ⟨hy, htopy⟩ := hr.chainFrom_ancestors hb
    obtain ⟨j, hj, hjoin⟩ := InheritanceGraph.exists_isJoin_lastCommon hx hy htopx htopy
    simp only [heq, if_false, hj, Option.getD_some]
    exact hjoin

theorem Rooted.contains_join (hr : h.Rooted) {current : Symbol} {a b : Ty}
    (ha : h.contains (a.within current) = true) (hb : h.contains (b.within current) = true) :
    h.contains (h.join current a b) = true :=
  hr.contains_of_reaches ha ((hr.isJoin_join ha hb).above _ List.mem_cons_self)

/-- One step of the join of a list after the other. -/
theorem Rooted.isJoin_foldl (hr : h.Rooted) {current : Symbol} {cs : List Symbol} {j : Symbol}
    (hj : h.graph.IsJoin cs j) (hjc : h.contains j = true) {tys : List Ty}
    (htys : ∀ ty ∈ tys, h.contains (ty.within current) = true) :
    let k := tys.foldl (fun c ty => h.join current (.named c) ty) j
    h.graph.IsJoin (cs ++ tys.map (·.within current)) k ∧ h.contains k = true := by
  induction tys generalizing cs j with
  | nil => simpa using ⟨hj, hjc⟩
  | cons ty rest ih =>
    have hty := htys ty List.mem_cons_self
    have hstep := hj.append (hr.isJoin_join (a := .named j) hjc hty)
    have hrest := ih hstep (hr.contains_join (a := .named j) hjc hty)
      fun ty hty => htys ty (List.mem_cons_of_mem _ hty)
    simpa using hrest

theorem Rooted.isJoin_joinAll? (hr : h.Rooted) {current : Symbol} {tys : List Ty}
    (htys : ∀ ty ∈ tys, h.contains (ty.within current) = true) (hne : tys ≠ []) :
    ∃ j, h.joinAll? current tys = some j ∧ h.contains j = true ∧
      h.graph.IsJoin (tys.map (·.within current)) j := by
  cases tys with
  | nil => exact absurd rfl hne
  | cons ty rest =>
    have hty := htys ty List.mem_cons_self
    obtain ⟨hjoin, hmem⟩ := hr.isJoin_foldl (InheritanceGraph.isJoin_singleton (ty.within current))
      hty fun ty hty => htys ty (List.mem_cons_of_mem _ hty)
    exact ⟨_, rfl, hmem, hjoin⟩

end ClassHierarchy

end CoolTypes
