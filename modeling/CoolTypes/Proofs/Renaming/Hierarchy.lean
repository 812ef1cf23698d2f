import CoolTypes.Classes.Hierarchy
import CoolTypes.Proofs.Renaming.Collections

/-!
# Hierarchies of corresponding classes

The check of the inheritance relation compares names and looks at nothing else of them. Over classes that
correspond along a faithful relation it makes corresponding reports, edges and walks
(`checkInheritance_related`), and questions to corresponding hierarchies have corresponding answers.
-/

namespace CoolTypes

/-- A relation that pairs identifiers one to one, and each well-known name with itself. -/
structure SymbolRel.Faithful (R : SymbolRel) (t t' : SymbolTables) : Prop where
  biUnique : Relator.BiUnique R.id
  known : ∀ w : WellKnown, R.id (t.known w) (t'.known w)

/-- Reports that correspond one by one, in the same order. -/
abbrev ReportsRelated (R : SymbolRel) : List Report → List Report → Prop :=
  List.Forall₂ (TypeError.Related R.id (Ty.Related R))

theorem Violation.Related.report {R : SymbolRel} {v v' : Violation Symbol Ty}
    (h : v.Related R.id (Ty.Related R) v') {s s' : Span} (hs : s = s') :
    ReportsRelated R [v.place s] [v'.place s'] :=
  .cons (h.place hs) .nil

theorem Name.Related.undeclaredType {R : SymbolRel} {n n' : Name} (hn : n.Related R n') :
    ReportsRelated R [(Violation.undeclaredType n.symbol).place n.span]
      [(Violation.undeclaredType n'.symbol).place n'.span] :=
  (Violation.Related.undeclaredType hn.symbol).report hn.span

/-- What is found of two corresponding classes. -/
structure ClassVerdict.Related (R : SymbolRel) (v v' : ClassVerdict) : Prop where
  parent : R.id v.parent v'.parent
  reports : ReportsRelated R v.reports v'.reports
  edge : Option.Rel (fun e e' => R.id e.1 e'.1 ∧ R.id e.2 e'.2) v.edge v'.edge

/-- Two walks that end in the same way at corresponding classes. -/
structure WalkEnd.Related (R : SymbolRel) (w w' : WalkEnd) : Prop where
  fate : w.fate = w'.fate
  path : List.Forall₂ R.id w.path w'.path
  closing : Option.Rel R.id w.closing w'.closing

/-- Two searches with the same findings about corresponding classes. -/
structure Search.Related (R : SymbolRel) (f f' : Search) : Prop where
  fates : f.fates.Related R Eq f'.fates
  closing : List.Forall₂ R.id f.closing f'.closing
  acyclic : f.acyclic = f'.acyclic

/-- Two checks of all classes with the same outcome. -/
structure Inheritance.Related (R : SymbolRel) (i i' : Inheritance) : Prop where
  verdicts : List.Forall₂ (ClassVerdict.Related R) i.verdicts i'.verdicts
  graph : i.graph.Related R R.id i'.graph
  closing : ReportsRelated R i.closing i'.closing
  acyclic : i.acyclic = i'.acyclic

/-- Two hierarchies with corresponding edges and roots. -/
structure ClassHierarchy.Related (R : SymbolRel) (h h' : ClassHierarchy) : Prop where
  graph : h.graph.Related R R.id h'.graph
  root : R.id h.root h'.root

section

variable {R : SymbolRel} {t t' : SymbolTables} (hR : R.Faithful t t')

include hR

/-! ## Comparisons -/

theorem SymbolRel.Faithful.eq_iff {a a' b b' : Symbol} (ha : R.id a a') (hb : R.id b b') :
    a = b ↔ a' = b' :=
  Relator.rel_eq hR.biUnique ha hb

theorem SymbolRel.Faithful.known_iff {s s' : Symbol} (h : R.id s s') (w : WellKnown) :
    s = t.known w ↔ s' = t'.known w :=
  hR.eq_iff h (hR.known w)

theorem ofSymbol?_eq {s s' : Symbol} (h : R.id s s') :
    BuiltinClass.ofSymbol? t s = BuiltinClass.ofSymbol? t' s' := by
  have hsame : ∀ b : BuiltinClass, (b.symbol t == s) = (b.symbol t' == s') := fun b =>
    beq_eq_of_biUnique hR.biUnique (hR.known b.wellKnown) h
  simp only [BuiltinClass.ofSymbol?, hsame]

/-! ## Rules for a single class -/

section

variable {c c' : Class} (hc : c.Related R c')

include hc

theorem checkParent_related : ReportsRelated R (checkParent t c) (checkParent t' c') := by
  unfold checkParent
  rw [ofSymbol?_eq hR hc.parent.symbol]
  cases BuiltinClass.ofSymbol? t' c'.parent.symbol with
  | none => exact .nil
  | some b =>
    -- the same basic class in both
    refine rel_ite Iff.rfl (Violation.Related.report ?_ hc.parent.span) .nil
    exact .illegalParent hc.name.symbol

theorem checkFresh_related {earlier earlier' : List Symbol}
    (hearlier : List.Forall₂ R.id earlier earlier') :
    ReportsRelated R (checkFresh t earlier c) (checkFresh t' earlier' c') := by
  unfold checkFresh
  rw [ofSymbol?_eq hR hc.name.symbol]
  refine rel_ite (List.rel_mem hR.biUnique hc.name.symbol hearlier) ?_ .nil
  cases BuiltinClass.ofSymbol? t' c'.name.symbol with
  | none => exact (Violation.Related.multipleClassDefinition hc.name.symbol).report hc.name.span
  | some b => exact Violation.Related.builtinRedefined.report hc.name.span

theorem checkClassName_related :
    ReportsRelated R (checkClassName t c) (checkClassName t' c') :=
  rel_ite (hR.known_iff hc.name.symbol .selfType)
    (Violation.Related.illegalSelfType.report hc.name.span) .nil

theorem checkDeclaredParent_related {declared declared' : List Symbol}
    (hdeclared : List.Forall₂ R.id declared declared') :
    ReportsRelated R (checkDeclaredParent t declared c) (checkDeclaredParent t' declared' c') := by
  have hmem := List.rel_mem hR.biUnique hc.parent.symbol hdeclared
  refine rel_ite (and_congr (not_congr (hR.known_iff hc.name.symbol .object)) (not_congr hmem)) ?_ .nil
  exact (Violation.Related.unresolvedParent hc.name.symbol hc.parent.symbol).report hc.parent.span

theorem checkClass_related {declared declared' earlier earlier' : List Symbol}
    (hdeclared : List.Forall₂ R.id declared declared')
    (hearlier : List.Forall₂ R.id earlier earlier') :
    (checkClass t declared earlier c).Related R (checkClass t' declared' earlier' c') := by
  have hreports : ReportsRelated R (checkClass t declared earlier c).reports
      (checkClass t' declared' earlier' c').reports :=
    List.rel_append (List.rel_append (List.rel_append (checkParent_related hR hc)
      (checkFresh_related hR hc hearlier)) (checkClassName_related hR hc))
      (checkDeclaredParent_related hR hc hdeclared)
  refine ⟨hc.parent.symbol, hreports, rel_ite (and_congr ?_ ?_) (.some ?_) .none⟩
  · exact Bool.eq_iff_iff.mp (isEmpty_eq_of_forall₂ hreports)
  · exact not_congr (hR.known_iff hc.name.symbol .object)
  · exact ⟨hc.name.symbol, hc.parent.symbol⟩

end

theorem checkClasses_related {classes classes' : List Class}
    (h : List.Forall₂ (Class.Related R) classes classes') {declared declared' : List Symbol}
    (hdeclared : List.Forall₂ R.id declared declared') {earlier earlier' : List Symbol}
    (hearlier : List.Forall₂ R.id earlier earlier') :
    List.Forall₂ (ClassVerdict.Related R) (checkClasses t declared earlier classes)
      (checkClasses t' declared' earlier' classes') := by
  induction h generalizing earlier earlier' with
  | nil => exact .nil
  | cons hc _ ih =>
    exact .cons (checkClass_related hR hc hdeclared hearlier) (ih (.cons hc.name.symbol hearlier))

/-! ## Cycles -/

section

variable {g g' : InheritanceGraph} (hg : g.Related R R.id g') {root root' : Symbol}
  (hroot : R.id root root')

include hg hroot

/-- A walk stops where the corresponding one does: it asks whether a class is the root, has a fate, has
been met before or has a parent. -/
theorem walkUp_related {fates fates' : SymbolMap Fate} (hfates : fates.Related R Eq fates')
    (fuel : Nat) {path path' : List Symbol} (hpath : List.Forall₂ R.id path path')
    {node node' : Symbol} (hnode : R.id node node') :
    (walkUp g root fates fuel path node).Related R (walkUp g' root' fates' fuel path' node') := by
  induction fuel generalizing path path' node node' with
  | zero => exact ⟨rfl, hpath, .none⟩
  | succ fuel ih =>
    unfold walkUp
    -- the cases are the questions of the walk, in its order
    refine rel_ite (hR.eq_iff hnode hroot) ⟨rfl, hpath, .none⟩ ?_
    obtain ⟨hf, hf'⟩ | ⟨fate, _, hf, hf', rfl⟩ := rel_none_or_some (hfates.get? hR.biUnique hnode)
    · simp only [hf, hf']
      refine rel_ite (List.rel_mem hR.biUnique hnode hpath) ⟨rfl, hpath, .some hnode⟩ ?_
      obtain ⟨hp, hp'⟩ | ⟨p, p', hp, hp', hparent⟩ :=
        rel_none_or_some (hg.get? hR.biUnique hnode)
      · simp only [hp, hp']
        exact ⟨rfl, .cons hnode hpath, .none⟩
      · simp only [hp, hp']
        exact ih (.cons hnode hpath) hparent
    · simp only [hf, hf']
      exact ⟨rfl, hpath, .none⟩

theorem searchFrom_related {found found' : Search} (hfound : found.Related R found')
    {start start' : Symbol} (hstart : R.id start start') :
    (searchFrom g root found start).Related R (searchFrom g' root' found' start') := by
  have hstop := walkUp_related hR hg hroot hfound.fates (g.size + 2) .nil hstart
  unfold searchFrom
  -- the fuel of a walk is a number of edges, which is the same for both graphs
  rw [← hg.size]
  refine ⟨?_, List.rel_append hfound.closing (forall₂_toList hstop.closing), ?_⟩
  · exact List.rel_foldl (R := R.id) (P := SymbolMap.Related R Eq)
      (fun _ _ hm _ _ hn => hm.insert hR.biUnique hn hstop.fate) hfound.fates hstop.path
  · dsimp only
    rw [hfound.acyclic, hstop.fate]

theorem search_related : (g.search root).Related R (g'.search root') :=
  List.rel_foldl (R := R.id) (P := Search.Related R)
    (fun _ _ hfound _ _ hstart => searchFrom_related hR hg hroot hfound hstart)
    ⟨SymbolMap.related_empty, .nil, rfl⟩ hg.keys

end

/-! ## The whole check -/

section

variable {classes classes' : List Class} (h : List.Forall₂ (Class.Related R) classes classes')

include h

theorem definedAt_eq {s s' : Symbol} (hs : R.id s s') : definedAt classes s = definedAt classes' s' := by
  unfold definedAt
  induction h with
  | nil => rfl
  | @cons c c' _ _ hc _ ih =>
    simp only [List.find?_cons, beq_eq_of_biUnique hR.biUnique hc.name.symbol hs]
    cases c'.name.symbol == s' with
    | true => exact hc.name.span
    | false => exact ih

/-- The check of corresponding classes has corresponding findings. -/
theorem checkInheritance_related :
    (checkInheritance t classes).Related R (checkInheritance t' classes') := by
  have hdeclared : List.Forall₂ R.id (classes.map (·.name.symbol)) (classes'.map (·.name.symbol)) :=
    List.rel_map (fun _ _ hc => hc.name.symbol) h
  have hverdicts := checkClasses_related hR h hdeclared .nil
  have hgraph := SymbolMap.related_ofList hR.biUnique
    (List.rel_filterMap (fun _ _ hv => ClassVerdict.Related.edge hv) hverdicts)
  have hsearch := search_related hR hgraph (hR.known .object)
  refine ⟨hverdicts, hgraph, List.rel_append ?_ (List.rel_map (fun c c' hc => ?_) hsearch.closing),
    hsearch.acyclic⟩
  · exact rel_ite (List.rel_mem hR.biUnique (hR.known .main) hdeclared) .nil
      (Violation.Related.noMainClass.report rfl)
  · exact (Violation.Related.inheritanceCycle hc).place (definedAt_eq hR h hc)

end

omit hR in
theorem Inheritance.Related.isValid {i i' : Inheritance} (h : i.Related R i') :
    i.isValid = i'.isValid := by
  have hreports : ReportsRelated R i.reports i'.reports :=
    List.rel_append (List.rel_flatMap h.verdicts fun _ _ hv => hv.reports) h.closing
  rw [Inheritance.isValid, Inheritance.isValid, isEmpty_eq_of_forall₂ hreports, h.acyclic]

/-! ## Ancestors -/

theorem chain_related {g g' : InheritanceGraph} (hg : g.Related R R.id g') (fuel : Nat)
    {c c' : Symbol} (hc : R.id c c') :
    List.Forall₂ R.id (g.chain fuel c) (g'.chain fuel c') := by
  induction fuel generalizing c c' with
  | zero => exact .cons hc .nil
  | succ fuel ih =>
    unfold InheritanceGraph.chain
    obtain ⟨hp, hp'⟩ | ⟨p, p', hp, hp', hparent⟩ := rel_none_or_some (hg.get? hR.biUnique hc)
    · simp only [hp, hp']
      exact .cons hc .nil
    · simp only [hp, hp']
      exact .cons hc (ih hparent)

theorem lastCommon_related {as as' bs bs' : List Symbol} (ha : List.Forall₂ R.id as as')
    (hb : List.Forall₂ R.id bs bs') : Option.Rel R.id (lastCommon as bs) (lastCommon as' bs') := by
  induction ha generalizing bs bs' with
  | nil => exact .none
  | cons hx _ ih =>
    -- a later common member counts more than this one
    cases hb with
    | nil => exact .none
    | cons hy hb => exact rel_ite (hR.eq_iff hx hy) (rel_or (ih hb) (.some hx)) .none

omit hR in
theorem Ty.Related.within {T T' : Ty} (hT : T.Related R T') {C C' : Symbol} (hC : R.id C C') :
    R.id (T.within C) (T'.within C') := by
  cases hT with
  | named h => exact h
  | selfType => exact hC

omit hR in
theorem Ty.Related.orSelf {T T' U U' : Ty} (hT : T.Related R T') (hU : U.Related R U') :
    (T.orSelf U).Related R (T'.orSelf U') := by
  cases hT with
  | named h => exact .named h
  | selfType => exact hU

namespace ClassHierarchy.Related

variable {h h' : ClassHierarchy} (hh : h.Related R h')

include hh

theorem contains {c c' : Symbol} (hc : R.id c c') : h.contains c = h'.contains c' := by
  rw [ClassHierarchy.contains, ClassHierarchy.contains, beq_eq_of_biUnique hR.biUnique hc hh.root,
    hh.graph.contains hR.biUnique hc]

theorem ancestors {c c' : Symbol} (hc : R.id c c') :
    List.Forall₂ R.id (h.ancestors c) (h'.ancestors c') := by
  rw [ClassHierarchy.ancestors, ClassHierarchy.ancestors, ← hh.graph.size]
  exact chain_related hR hh.graph _ hc

theorem depth {c c' : Symbol} (hc : R.id c c') : h.depth c = h'.depth c' :=
  (hh.ancestors hR hc).length_eq

theorem isSubclass {c c' d d' : Symbol} (hc : R.id c c') (hd : R.id d d') :
    h.isSubclass c d = h'.isSubclass c' d' :=
  contains_eq_of_biUnique hR.biUnique (hh.ancestors hR hc) hd

theorem conforms {C C' : Symbol} (hC : R.id C C') {T T' U U' : Ty} (hT : T.Related R T')
    (hU : U.Related R U') : h.conforms C T U = h'.conforms C' T' U' := by
  cases hU with
  | selfType => cases hT <;> rfl
  | named hu =>
    cases hT with
    | selfType => exact hh.isSubclass hR hC hu
    | named ht => exact hh.isSubclass hR ht hu

theorem join {C C' : Symbol} (hC : R.id C C') {T T' U U' : Ty} (hT : T.Related R T')
    (hU : U.Related R U') : R.id (h.join C T U) (h'.join C' T' U') := by
  have ht := hT.within hC
  have hu := hU.within hC
  refine rel_ite (hR.eq_iff ht hu) ht (rel_getD ?_ hh.root)
  -- the paths from the root down to both classes
  exact lastCommon_related hR (List.rel_reverse (hh.ancestors hR ht))
    (List.rel_reverse (hh.ancestors hR hu))

theorem joinAll? {C C' : Symbol} (hC : R.id C C') {Ts Ts' : List Ty}
    (hTs : List.Forall₂ (Ty.Related R) Ts Ts') :
    Option.Rel R.id (h.joinAll? C Ts) (h'.joinAll? C' Ts') := by
  cases hTs with
  | nil => exact .none
  | cons hT hrest =>
    exact .some (List.rel_foldl (R := Ty.Related R) (P := R.id)
      (fun _ _ hc _ _ hT => hh.join hR hC (.named hc) hT) (hT.within hC) hrest)

end ClassHierarchy.Related

end

end CoolTypes
