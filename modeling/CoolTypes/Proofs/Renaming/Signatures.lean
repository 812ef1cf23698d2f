import CoolTypes.Classes.Signatures
import CoolTypes.Proofs.Renaming.Hierarchy

/-!
# Signatures of corresponding classes

Signatures are collected from the root down, and nothing on the way depends on a name but through
comparisons. Corresponding classes over corresponding hierarchies have corresponding tables in the same
order, and what is reported of them corresponds (`collect_related`).
-/

namespace CoolTypes

/-- Method types with corresponding parameters, result and defining class. -/
structure MethodSig.Related (R : SymbolRel) (s s' : MethodSig) : Prop where
  params : List.Forall₂ (Ty.Related R) s.params s'.params
  ret : s.ret.Related R s'.ret
  definedIn : R.id s.definedIn s'.definedIn

/-- Attribute types with corresponding type and defining class. -/
structure AttrSig.Related (R : SymbolRel) (s s' : AttrSig) : Prop where
  ty : s.ty.Related R s'.ty
  definedIn : R.id s.definedIn s'.definedIn

/-- Tables of two classes with corresponding entries in the same order. -/
structure ClassTable.Related (R : SymbolRel) (tab tab' : ClassTable) : Prop where
  parent : Option.Rel R.id tab.parent tab'.parent
  methods : tab.methods.Related R (MethodSig.Related R) tab'.methods
  attrs : tab.attrs.Related R (AttrSig.Related R) tab'.attrs

/-- Tables of all classes, with corresponding classes in the same order. -/
structure Signatures.Related (R : SymbolRel) (s s' : Signatures) : Prop where
  classes : s.classes.Related R (ClassTable.Related R) s'.classes
  selfType : R.id s.selfType s'.selfType

/-- A result and reports that correspond. -/
structure Logged {α α' : Type} (R : SymbolRel) (S : α → α' → Prop) (x : α × List Report)
    (x' : α' × List Report) : Prop where
  result : S x.1 x'.1
  reports : ReportsRelated R x.2 x'.2

theorem Class.Related.attributes {R : SymbolRel} {c c' : Class} (hc : c.Related R c') :
    List.Forall₂ (Binding.Related R) c.attributes c'.attributes := by
  apply List.rel_filterMap _ hc.features
  intro f f' hf
  cases hf with
  | method _ => exact .none
  | attr hb => exact .some hb

theorem Class.Related.methods {R : SymbolRel} {c c' : Class} (hc : c.Related R c') :
    List.Forall₂ (Method.Related R) c.methods c'.methods := by
  apply List.rel_filterMap _ hc.features
  intro f f' hf
  cases hf with
  | method hm => exact .some hm
  | attr _ => exact .none

theorem ClassTable.related_empty {R : SymbolRel} : ClassTable.Related R {} {} :=
  ⟨.none, SymbolMap.related_empty, SymbolMap.related_empty⟩

section

variable {R : SymbolRel} {t t' : SymbolTables} (hR : R.Faithful t t')

include hR

/-! ## Comparisons -/

theorem Ty.Related.biUnique : Relator.BiUnique (Ty.Related R) := by
  constructor
  · intro T U V hT hU
    cases hT with
    | selfType => cases hU; rfl
    | named h => cases hU with | named h' => rw [hR.biUnique.1 h h']
  · intro T U V hU hV
    cases hU with
    | selfType => cases hV; rfl
    | named h => cases hV with | named h' => rw [hR.biUnique.2 h h']

theorem Ty.Related.eq_iff {T T' U U' : Ty} (hT : T.Related R T') (hU : U.Related R U') :
    T = U ↔ T' = U' :=
  Relator.rel_eq (Ty.Related.biUnique hR) hT hU

theorem Ty.Related.bne_eq {T T' U U' : Ty} (hT : T.Related R T') (hU : U.Related R U') :
    (T != U) = (T' != U') := by
  rw [Bool.eq_iff_iff, bne_iff_ne, bne_iff_ne]
  exact not_congr (hT.eq_iff hR hU)

theorem MethodSig.Related.mismatch? {s s' own own' : MethodSig} (hs : s.Related R s')
    (hown : own.Related R own') : s.mismatch? own = s'.mismatch? own' := by
  have hdiffers := findIdx?_eq_of_forall₂ (forall₂_zip hs.params hown.params)
    (p := fun p => p.1 != p.2) (q := fun p => p.1 != p.2) fun _ _ hp => hp.1.bne_eq hR hp.2
  unfold MethodSig.mismatch?
  rw [hs.params.length_eq, hown.params.length_eq, hdiffers]
  refine rel_ite (S := Eq) Iff.rfl rfl ?_
  cases (s'.params.zip own'.params).findIdx? fun p => p.1 != p.2 with
  | some i => rfl
  | none => exact rel_ite (S := Eq) (hs.ret.eq_iff hR hown.ret) rfl rfl

namespace Signatures.Related

variable {s s' : Signatures} (hs : s.Related R s')

include hs

theorem get? {c c' : Symbol} (hc : R.id c c') :
    Option.Rel (ClassTable.Related R) (s.get? c) (s'.get? c') :=
  hs.classes.get? hR.biUnique hc

theorem contains {c c' : Symbol} (hc : R.id c c') : s.contains c = s'.contains c' :=
  hs.classes.contains hR.biUnique hc

theorem method? {c c' n n' : Symbol} (hc : R.id c c') (hn : R.id n n') :
    Option.Rel (MethodSig.Related R) (s.method? c n) (s'.method? c' n') :=
  rel_bind (hs.get? hR hc) fun _ _ htab => htab.methods.get? hR.biUnique hn

theorem attr? {c c' n n' : Symbol} (hc : R.id c c') (hn : R.id n n') :
    Option.Rel (AttrSig.Related R) (s.attr? c n) (s'.attr? c' n') :=
  rel_bind (hs.get? hR hc) fun _ _ htab => htab.attrs.get? hR.biUnique hn

theorem resolve? {n n' : Symbol} (hn : R.id n n') :
    Option.Rel (Ty.Related R) (s.resolve? n) (s'.resolve? n') := by
  refine rel_ite (hR.eq_iff hn hs.selfType) (.some .selfType) (rel_ite ?_ (.some (.named hn)) .none)
  rw [hs.contains hR hn]

end Signatures.Related

end

namespace Signatures

section

variable {R : SymbolRel} {Γ Γ' : Ground} (hR : R.Faithful Γ.tables Γ'.tables)
  (hh : Γ.hierarchy.Related R Γ'.hierarchy)

include hR hh

/-! ## One declaration -/

theorem declaredType_related {n n' : Name} (hn : n.Related R n') :
    Logged R (Ty.Related R) (declaredType Γ n) (declaredType Γ' n') := by
  refine rel_ite (hR.known_iff hn.symbol .selfType) ⟨.selfType, .nil⟩
    (rel_ite ?_ ⟨.named hn.symbol, .nil⟩ ⟨.named hh.root, hn.undeclaredType⟩)
  rw [hh.contains hR hn.symbol]

theorem paramType_related {n n' : Name} (hn : n.Related R n') :
    Logged R (Ty.Related R) (paramType Γ n) (paramType Γ' n') := by
  have hdecl := declaredType_related hR hh hn
  unfold paramType
  generalize declaredType Γ n = x at hdecl ⊢
  generalize declaredType Γ' n' = x' at hdecl ⊢
  obtain ⟨T, rs⟩ := x
  obtain ⟨T', rs'⟩ := x'
  obtain ⟨hT, hrs⟩ := hdecl
  cases hT with
  | named hc => exact ⟨.named hc, hrs⟩
  | selfType =>
    refine ⟨.named hh.root, List.rel_append hrs ?_⟩
    exact Violation.Related.illegalSelfType.report hn.span

theorem attrType_related (basic : Bool) {n n' : Name} (hn : n.Related R n') :
    Logged R (Ty.Related R) (attrType Γ basic n) (attrType Γ' basic n') :=
  rel_ite (and_congr Iff.rfl (hR.known_iff hn.symbol .primSlot)) ⟨.named hn.symbol, .nil⟩
    (declaredType_related hR hh hn)

theorem methodSig_related {c c' : Symbol} (hc : R.id c c') {m m' : Method} (hm : m.Related R m') :
    Logged R (MethodSig.Related R) (methodSig Γ c m) (methodSig Γ' c' m') := by
  have hparams : List.Forall₂ (Logged R (Ty.Related R))
      (m.params.map fun f => paramType Γ f.typeName) (m'.params.map fun f => paramType Γ' f.typeName) :=
    List.rel_map (fun _ _ hf => paramType_related hR hh hf.typeName) hm.params
  have hret := declaredType_related hR hh hm.returnType
  refine ⟨⟨List.rel_map (fun _ _ h => h.result) hparams, hret.result, hc⟩, ?_⟩
  exact List.rel_append (List.rel_flatMap hparams fun _ _ h => h.reports) hret.reports

/-! ## One class -/

variable {c c' : Symbol} (hc : R.id c c')

include hc

theorem addAttr_related (basic : Bool) {acc acc' : Collected}
    (hacc : Logged R (ClassTable.Related R) acc acc') {b b' : Binding} (hb : b.Related R b') :
    Logged R (ClassTable.Related R) (addAttr Γ c basic acc b) (addAttr Γ' c' basic acc' b') := by
  obtain ⟨hn, htn, _⟩ := hb
  have hty := attrType_related hR hh basic htn
  have hlog := List.rel_append hacc.reports hty.reports
  refine rel_ite (hR.known_iff hn.symbol .self) ⟨hacc.result, ?_⟩ ?_
  · exact List.rel_append hlog (Violation.Related.illegalSelf.report hn.span)
  obtain ⟨hp, hp'⟩ | ⟨p, p', hp, hp', hprevious⟩ :=
    rel_none_or_some (hacc.result.attrs.get? hR.biUnique hn.symbol)
  · simp only [hp, hp']
    refine ⟨⟨hacc.result.parent, hacc.result.methods, ?_⟩, hlog⟩
    exact hacc.result.attrs.insert hR.biUnique hn.symbol ⟨hty.result, hc⟩
  · -- the report says whether the attribute that is there is inherited
    have hinherited : (p.definedIn != c) = (p'.definedIn != c') :=
      congrArg not (beq_eq_of_biUnique hR.biUnique hprevious.definedIn hc)
    simp only [hp, hp', hinherited]
    refine ⟨hacc.result, List.rel_append hlog ?_⟩
    exact (Violation.Related.multipleDefinition hn.symbol).report hn.span

theorem addMethod_related {acc acc' : Collected} (hacc : Logged R (ClassTable.Related R) acc acc')
    {m m' : Method} (hm : m.Related R m') :
    Logged R (ClassTable.Related R) (addMethod Γ c acc m) (addMethod Γ' c' acc' m') := by
  have hsig := methodSig_related hR hh hc hm
  have hlog := List.rel_append hacc.reports hsig.reports
  have htable : ClassTable.Related R
      { acc.1 with methods := acc.1.methods.insert m.name.symbol (methodSig Γ c m).1 }
      { acc'.1 with methods := acc'.1.methods.insert m'.name.symbol (methodSig Γ' c' m').1 } :=
    ⟨hacc.result.parent, hacc.result.methods.insert hR.biUnique hm.name.symbol hsig.result,
      hacc.result.attrs⟩
  unfold addMethod
  obtain ⟨hp, hp'⟩ | ⟨p, p', hp, hp', hprevious⟩ :=
    rel_none_or_some (hacc.result.methods.get? hR.biUnique hm.name.symbol)
  · simp only [hp, hp']
    exact ⟨htable, hlog⟩
  · simp only [hp, hp']
    refine rel_ite (hR.eq_iff hprevious.definedIn hc) ⟨hacc.result, List.rel_append hlog ?_⟩ ?_
    · exact (Violation.Related.multipleDefinition hm.name.symbol).report hm.name.span
    rw [hprevious.mismatch? hR hsig.result]
    -- the entry is set whether the methods agree or not
    cases p'.mismatch? (methodSig Γ' c' m').1 with
    | none => exact ⟨htable, hlog⟩
    | some d =>
      refine ⟨htable, List.rel_append hlog ?_⟩
      exact (Violation.Related.invalidOverride hm.name.symbol hprevious.definedIn).report hm.name.span

omit hc

/-! ## All classes -/

theorem inherited_related {s s' : Signatures} (hs : s.Related R s') {c c' : Symbol} (hc : R.id c c') :
    (inherited Γ s c).Related R (inherited Γ' s' c') := by
  unfold inherited
  obtain ⟨hp, hp'⟩ | ⟨p, p', hp, hp', hparent⟩ :=
    rel_none_or_some (hh.graph.get? hR.biUnique hc)
  · simp only [hp, hp']
    exact ClassTable.related_empty
  · simp only [hp, hp']
    have htable := rel_getD (hs.get? hR hparent) ClassTable.related_empty
    exact ⟨.some hparent, htable.methods, htable.attrs⟩

theorem addClass_related {acc acc' : Signatures × List Report}
    (hacc : Logged R (Signatures.Related R) acc acc') {c c' : Class} (hc : c.Related R c') :
    Logged R (Signatures.Related R) (addClass Γ acc c) (addClass Γ' acc' c') := by
  have hname := hc.name.symbol
  have hbasic : (c.file == Γ.tables.known .basicFile) = (c'.file == Γ'.tables.known .basicFile) :=
    beq_eq_of_biUnique hR.biUnique hc.file (hR.known .basicFile)
  have hstart : Logged R (ClassTable.Related R) (inherited Γ acc.1 c.name.symbol, acc.2)
      (inherited Γ' acc'.1 c'.name.symbol, acc'.2) :=
    ⟨inherited_related hR hh hacc.result hname, hacc.reports⟩
  have hattrs := List.rel_foldl (R := Binding.Related R) (P := Logged R (ClassTable.Related R))
    (fun _ _ h _ _ hb => addAttr_related hR hh hname (c'.file == Γ'.tables.known .basicFile) h hb)
    hstart hc.attributes
  have hdone := List.rel_foldl (R := Method.Related R) (P := Logged R (ClassTable.Related R))
    (fun _ _ h _ _ hm => addMethod_related hR hh hname h hm) hattrs hc.methods
  unfold addClass
  dsimp only
  rw [hacc.result.contains hR hname, hbasic]
  refine rel_ite Iff.rfl hacc ⟨⟨?_, hacc.result.selfType⟩, hdone.reports⟩
  exact hacc.result.classes.insert hR.biUnique hname hdone.result

end

section

variable {R : SymbolRel} {t t' : SymbolTables} (hR : R.Faithful t t') {h h' : ClassHierarchy}
  (hh : h.Related R h') {classes classes' : List Class}
  (hclasses : List.Forall₂ (Class.Related R) classes classes')

include hR hh hclasses

theorem rootFirst_related :
    List.Forall₂ (Class.Related R) (rootFirst h classes) (rootFirst h' classes') := by
  have hknown : List.Forall₂ (Class.Related R) (classes.filter fun c => h.contains c.name.symbol)
      (classes'.filter fun c => h'.contains c.name.symbol) := by
    refine List.rel_filter (fun c c' hc => ?_) hclasses
    show h.contains c.name.symbol = true ↔ h'.contains c'.name.symbol = true
    rw [hh.contains hR hc.name.symbol]
  unfold rootFirst
  -- depths are the same numbers, and classes of one depth keep their order
  rw [hh.graph.size]
  refine List.rel_flatMap (List.forall₂_same.mpr fun depth _ => rfl) fun depth _ hdepth => ?_
  subst hdepth
  refine List.rel_filter (fun c c' hc => ?_) hknown
  show (h.depth c.name.symbol == depth) = true ↔ (h'.depth c'.name.symbol == depth) = true
  rw [hh.depth hR hc.name.symbol]

/-- The signatures of corresponding classes correspond, and so does what is reported of them. -/
theorem collect_related :
    Logged R (Signatures.Related R) (collect t h classes) (collect t' h' classes') :=
  List.rel_foldl (R := Class.Related R) (P := Logged R (Signatures.Related R))
    (fun _ _ hacc _ _ hc => @addClass_related R ⟨t, h⟩ ⟨t', h'⟩ hR hh _ _ hacc _ _ hc)
    ⟨⟨SymbolMap.related_empty, hR.known .selfType⟩, .nil⟩ (rootFirst_related hR hh hclasses)

end

end Signatures

end CoolTypes
