import CoolTypes.Proofs.Classes.Within

/-!
# Hierarchies that agree

Two well-formed lists of classes that declare the same classes with names among some, which all type names
of the first list are, give these classes the same parents, the same ancestors and the same tables, with
the same reports (`ClassesAgree.get?_collect`, `ClassesAgree.ownTable`). What stands among the classes of
the second list under other names, and the order of both lists, does not count.
-/

namespace CoolTypes

variable {S : Symbol → Prop}

/-! ## Hierarchies -/

/-- Two hierarchies have the same root and give some classes the same parents. -/
structure ClassHierarchy.AgreesOn (S : Symbol → Prop) (h h' : ClassHierarchy) : Prop where
  root : h'.root = h.root
  parent : ∀ c, S c → h'.graph.get? c = h.graph.get? c

namespace ClassHierarchy.AgreesOn

variable {h h' : ClassHierarchy} (hh : h.AgreesOn S h')

include hh

theorem contains {c : Symbol} (hc : S c) : h'.contains c = h.contains c := by
  simp only [ClassHierarchy.contains, SymbolMap.contains, hh.root, hh.parent c hc]

theorem chainFrom (hin : h.Within S) {c : Symbol} {l : List Symbol} (hl : h.graph.ChainFrom c l)
    (hc : S c) : h'.graph.ChainFrom c l := by
  induction hl with
  | top hnone => exact .top ((hh.parent _ hc).trans hnone)
  | link hp _ ih => exact .link ((hh.parent _ hc).trans hp) (ih (hin.parent _ _ hp))

/-- A class of a rooted hierarchy has the same ancestors in the other one, however many edges this has. -/
theorem ancestors (hin : h.Within S) (hr : h.Rooted) {c : Symbol} (hc : S c) :
    h'.ancestors c = h.ancestors c := by
  obtain ⟨l, hl⟩ : h.graph.Ends c := by
    by_cases hin : h.contains c = true
    · exact ⟨_, (hr.chainFrom_ancestors hin).1⟩
    · exact ⟨[c], .top (by
        rw [contains_iff, not_or] at hin
        exact Option.eq_none_iff_forall_ne_some.mpr fun p hp => hin.2 ⟨p, hp⟩)⟩
  rw [ancestors_eq hl, ancestors_eq (hh.chainFrom hin hl hc)]

end ClassHierarchy.AgreesOn

/-! ## Declarations -/

namespace Signatures

variable {t : SymbolTables} {h h' : ClassHierarchy} (hh : h.AgreesOn S h')

include hh

theorem declaredType_agrees {n : Name} (hn : S n.symbol) :
    declaredType ⟨t, h'⟩ n = declaredType ⟨t, h⟩ n := by
  simp only [declaredType, hh.contains hn, hh.root]

theorem paramType_agrees {n : Name} (hn : S n.symbol) :
    paramType ⟨t, h'⟩ n = paramType ⟨t, h⟩ n := by
  simp only [paramType, declaredType_agrees hh hn, hh.root]

theorem attrType_agrees (basic : Bool) {n : Name} (hn : S n.symbol) :
    attrType ⟨t, h'⟩ basic n = attrType ⟨t, h⟩ basic n := by
  simp only [attrType, declaredType_agrees hh hn]

theorem methodSig_agrees (c : Symbol) {m : Method} (hm : m.TypesIn S) :
    methodSig ⟨t, h'⟩ c m = methodSig ⟨t, h⟩ c m := by
  have hparams : m.params.map (fun f => paramType ⟨t, h'⟩ f.typeName) =
      m.params.map fun f => paramType ⟨t, h⟩ f.typeName :=
    List.map_congr_left fun f hf => paramType_agrees hh (hm.params f hf)
  simp only [methodSig, hparams, declaredType_agrees hh hm.returnType]

theorem ownTable_agrees {c : Class} (hc : c.TypesIn S) (start : ClassTable) :
    ownTable ⟨t, h'⟩ c start = ownTable ⟨t, h⟩ c start := by
  have hattrs : ∀ acc : Collected, ∀ b ∈ c.attributes,
      addAttr ⟨t, h'⟩ c.name.symbol (c.file == t.known .basicFile) acc b =
        addAttr ⟨t, h⟩ c.name.symbol (c.file == t.known .basicFile) acc b := fun acc b hb => by
    simp only [addAttr, attrType_agrees hh _ (hc.attributes b hb).typeName]
  have hmethods : ∀ acc : Collected, ∀ m ∈ c.methods,
      addMethod ⟨t, h'⟩ c.name.symbol acc m = addMethod ⟨t, h⟩ c.name.symbol acc m :=
    fun acc m hm => by simp only [addMethod, methodSig_agrees hh _ (hc.methods m hm)]
  unfold ownTable
  rw [List.foldl_ext _ _ _ hattrs, List.foldl_ext _ _ _ hmethods]

end Signatures

/-! ## Lists of classes -/

theorem WellFormedHierarchy.get?_eq_some_iff {t : SymbolTables} {classes : List Class}
    (hw : WellFormedHierarchy t classes) {a b : Symbol} :
    (hierarchyOf t classes).graph.get? a = some b ↔ a ≠ t.known .object ∧ ParentOf classes a b := by
  constructor
  · intro h
    exact ⟨(soundEdge_of_get? h).notRoot, (soundEdge_of_get? h).parentOf⟩
  · rintro ⟨hroot, c, hc, rfl, rfl⟩
    exact hw.classesOk.get? hc hroot

/-- A name that is not declared has no table. -/
theorem Signatures.get?_collect_eq_none {t : SymbolTables} {classes : List Class}
    (hw : WellFormedHierarchy t classes) {c : Symbol} (hc : c ∉ classes.map (·.name.symbol)) :
    (collect t (hierarchyOf t classes) classes).1.get? c = none := by
  rw [← hw.contains_iff, ← contains_collect hw, contains_iff_mem_keys] at hc
  exact SymbolMap.get?_eq_none_iff.mpr hc

/-- Two well-formed lists of classes declare the same classes with names among some, and the built-in
classes and all type names of the first list are among these names. -/
structure ClassesAgree (S : Symbol → Prop) (t : SymbolTables) (classes classes' : List Class) :
    Prop where
  wellFormed : WellFormedHierarchy t classes
  wellFormed' : WellFormedHierarchy t classes'
  builtin : ∀ b : BuiltinClass, S (b.symbol t)
  typesIn : ∀ c ∈ classes, c.TypesIn S
  mem_iff : ∀ c : Class, S c.name.symbol → (c ∈ classes' ↔ c ∈ classes)

namespace ClassesAgree

variable {t : SymbolTables} {classes classes' : List Class} (hs : ClassesAgree S t classes classes')

include hs

theorem declared_iff {n : Symbol} (hn : S n) :
    n ∈ classes'.map (·.name.symbol) ↔ n ∈ classes.map (·.name.symbol) := by
  simp only [List.mem_map]
  constructor
  · rintro ⟨c, hc, rfl⟩
    exact ⟨c, (hs.mem_iff c hn).mp hc, rfl⟩
  · rintro ⟨c, hc, rfl⟩
    exact ⟨c, (hs.mem_iff c hn).mpr hc, rfl⟩

theorem parentOf_iff {a b : Symbol} (ha : S a) : ParentOf classes' a b ↔ ParentOf classes a b := by
  constructor
  · rintro ⟨c, hc, rfl, rfl⟩
    exact ⟨c, (hs.mem_iff c ha).mp hc, rfl, rfl⟩
  · rintro ⟨c, hc, rfl, rfl⟩
    exact ⟨c, (hs.mem_iff c ha).mpr hc, rfl, rfl⟩

theorem hierarchy : (hierarchyOf t classes).AgreesOn S (hierarchyOf t classes') := by
  refine ⟨rfl, fun c hc => Option.ext fun p => ?_⟩
  rw [hs.wellFormed.get?_eq_some_iff, hs.wellFormed'.get?_eq_some_iff, hs.parentOf_iff hc]

theorem within : (hierarchyOf t classes).Within S := hierarchyOf_within (hs.builtin .object) hs.typesIn

theorem ancestors {c : Symbol} (hc : S c) :
    (hierarchyOf t classes').ancestors c = (hierarchyOf t classes).ancestors c :=
  hs.hierarchy.ancestors hs.within hs.wellFormed.rooted_hierarchy hc

open Signatures

/-- A class starts from the same table if the tables of its parent are the same. -/
theorem inherited {s s' : Signatures} {c : Class} (hc : c ∈ classes)
    (hparent : ∀ d ∈ classes, (hierarchyOf t classes).graph.get? c.name.symbol = some d.name.symbol →
      s'.get? d.name.symbol = s.get? d.name.symbol) :
    Signatures.inherited ⟨t, hierarchyOf t classes'⟩ s' c.name.symbol =
      Signatures.inherited ⟨t, hierarchyOf t classes⟩ s c.name.symbol := by
  simp only [Signatures.inherited, hs.hierarchy.parent _ (hs.typesIn c hc).name]
  cases hp : (hierarchyOf t classes).graph.get? c.name.symbol with
  | none => rfl
  | some p =>
    obtain ⟨d, hd, rfl⟩ := List.mem_map.mp (soundEdge_of_get? hp).declaredParent
    simp only [hparent d hd hp]

/-- The classes have the same tables. -/
theorem get?_collect {c : Symbol} (hc : S c) :
    (collect t (hierarchyOf t classes') classes').1.get? c =
      (collect t (hierarchyOf t classes) classes).1.get? c := by
  have hall : ∀ d ∈ classes,
      (collect t (hierarchyOf t classes') classes').1.get? d.name.symbol =
        (collect t (hierarchyOf t classes) classes).1.get? d.name.symbol := by
    -- from the root down: a class starts from what its parent has
    refine hierarchy_induction hs.wellFormed fun d hd ih => ?_
    have htypes := hs.typesIn d hd
    have hd' := (hs.mem_iff d htypes.name).mpr hd
    rw [Signatures.collect_get? hs.wellFormed hd, Signatures.collect_get? hs.wellFormed' hd',
      hs.inherited hd ih, ownTable_agrees hs.hierarchy htypes]
  by_cases hdeclared : c ∈ classes.map (·.name.symbol)
  · obtain ⟨d, hd, rfl⟩ := List.mem_map.mp hdeclared
    exact hall d hd
  · rw [get?_collect_eq_none hs.wellFormed hdeclared,
      get?_collect_eq_none hs.wellFormed' (mt (hs.declared_iff hc).mp hdeclared)]

/-- The same is reported about the signatures of a class. -/
theorem ownTable {c : Class} (hc : c ∈ classes) :
    Signatures.ownTable ⟨t, hierarchyOf t classes'⟩ c
        (Signatures.inherited ⟨t, hierarchyOf t classes'⟩
          (collect t (hierarchyOf t classes') classes').1 c.name.symbol) =
      Signatures.ownTable ⟨t, hierarchyOf t classes⟩ c
        (Signatures.inherited ⟨t, hierarchyOf t classes⟩
          (collect t (hierarchyOf t classes) classes).1 c.name.symbol) := by
  rw [hs.inherited hc fun d hd _ => hs.get?_collect (hs.typesIn d hd).name,
    ownTable_agrees hs.hierarchy (hs.typesIn c hc)]

end ClassesAgree

end CoolTypes
