import CoolTypes.Proofs.Classes.Lookup

/-!
# Accepted signatures

`WellFormedSignatures` says on the list of classes alone which signatures are right: an overriding
method agrees with the methods of all ancestors, not of the nearest one only. Signatures are compared
with the tables of the parent, which have been flattened by then. Still nothing is reported exactly if
the signatures are right, and then each class has what its ancestors have
(`signatures_accepted_iff`).
-/

namespace CoolTypes

/-- The class called `a` is not the root and is declared with parent `b`. -/
def InheritsFrom (t : SymbolTables) (classes : List Class) (a b : Symbol) : Prop :=
  a ≠ t.known .object ∧ ParentOf classes a b

/-- A name that a declaration can use as a type. -/
def NamesType (t : SymbolTables) (classes : List Class) (n : Symbol) : Prop :=
  n = t.known .selfType ∨ n ∈ classes.map (·.name.symbol)

/-- The types of a method are declared, and no parameter has the self type. -/
structure Method.NamesTypes (t : SymbolTables) (classes : List Class) (m : Method) : Prop where
  params : ∀ f ∈ m.params, NamesType t classes f.typeName.symbol
  notSelfType : ∀ f ∈ m.params, f.typeName.symbol ≠ t.known .selfType
  ret : NamesType t classes m.returnType.symbol

/-- A method overrides another one if it has the same number of parameters, with the same types, and
the same type of result. -/
structure Method.SameSignature (m m' : Method) : Prop where
  paramCount : m.params.length = m'.params.length
  paramTypes : ∀ i (hi : i < m.params.length) (hi' : i < m'.params.length),
    m.params[i].typeName.symbol = m'.params[i].typeName.symbol
  returnType : m.returnType.symbol = m'.returnType.symbol

/-- The types of methods and attributes are declared, no name is used twice in a way that matters, and
overriding methods have the signatures of all methods that they override. -/
structure WellFormedSignatures (t : SymbolTables) (classes : List Class) : Prop where
  methodTypes : ∀ c ∈ classes, ∀ m ∈ c.methods, m.NamesTypes t classes
  attrTypes : ∀ c ∈ classes, ∀ b ∈ c.attributes,
    IsSlot t c b.typeName.symbol ∨ NamesType t classes b.typeName.symbol
  attrNotSelf : ∀ c ∈ classes, ∀ b ∈ c.attributes, b.name.symbol ≠ t.known .self
  attrsOnce : ∀ c ∈ classes, (c.attributes.map (·.name.symbol)).Nodup
  attrsNotInherited : ∀ c ∈ classes, ∀ d ∈ classes,
    Relation.TransGen (InheritsFrom t classes) c.name.symbol d.name.symbol →
      ∀ b ∈ c.attributes, ∀ b' ∈ d.attributes, b.name.symbol ≠ b'.name.symbol
  methodsOnce : ∀ c ∈ classes, (c.methods.map (·.name.symbol)).Nodup
  overrides : ∀ c ∈ classes, ∀ d ∈ classes,
    Relation.TransGen (InheritsFrom t classes) c.name.symbol d.name.symbol →
      ∀ m ∈ c.methods, ∀ m' ∈ d.methods, m.name.symbol = m'.name.symbol → m.SameSignature m'

namespace Signatures

variable {t : SymbolTables} {classes : List Class}

/-! ## Silence of one feature after the other -/

section Folds

variable {Γ : Ground} {c : Symbol} {basic : Bool} {tab : ClassTable}

theorem addAttr_silent_iff {b : Binding} : (addAttr Γ c basic (tab, []) b).2 = [] ↔
    (attrType Γ basic b.typeName).2 = [] ∧ b.name.symbol ≠ Γ.tables.known .self ∧
      b.name.symbol ∉ tab.attrs.keys := by
  unfold addAttr
  by_cases hself : b.name.symbol = Γ.tables.known .self
  · simp [hself]
  · simp only [hself, if_false]
    rw [← SymbolMap.get?_eq_none_iff]
    cases tab.attrs.get? b.name.symbol <;> simp [hself]

/-- Attributes are added in silence if their types are declared and their names are new, in the table
and among themselves. -/
theorem foldl_addAttr_silent_iff (bs : List Binding) :
    (bs.foldl (addAttr Γ c basic) (tab, [])).2 = [] ↔
      (∀ b ∈ bs, (attrType Γ basic b.typeName).2 = [] ∧ b.name.symbol ≠ Γ.tables.known .self ∧
        b.name.symbol ∉ tab.attrs.keys) ∧ (bs.map (·.name.symbol)).Nodup := by
  induction bs generalizing tab with
  | nil => simp
  | cons b rest ih =>
    rw [List.foldl_cons, foldl_log (addAttr_log _ _) rest _ (addAttr Γ c basic (tab, []) b).2]
    rw [List.append_eq_nil_iff, addAttr_silent_iff, ih, List.forall_mem_cons, List.map_cons,
      List.nodup_cons]
    constructor
    · rintro ⟨hb, hrest, hnodup⟩
      rw [addAttr_of_new hb.2.1 hb.2.2] at hrest
      simp only [SymbolMap.keys_insert, if_neg hb.2.2, List.mem_append, List.mem_singleton,
        not_or] at hrest
      refine ⟨⟨hb, fun d hd => ?_⟩, fun hmem => ?_, hnodup⟩
      · obtain ⟨hty, hself, hnew, _⟩ := hrest d hd
        exact ⟨hty, hself, hnew⟩
      · obtain ⟨d, hd, hname⟩ := List.mem_map.mp hmem
        exact (hrest d hd).2.2.2 hname
    · rintro ⟨⟨hb, hrest⟩, hfresh, hnodup⟩
      refine ⟨hb, fun d hd => ?_, hnodup⟩
      obtain ⟨hty, hself, hnew⟩ := hrest d hd
      refine ⟨hty, hself, ?_⟩
      rw [addAttr_of_new hb.2.1 hb.2.2]
      simp only [SymbolMap.keys_insert, if_neg hb.2.2, List.mem_append, List.mem_singleton, not_or]
      refine ⟨hnew, fun hname => hfresh ?_⟩
      rw [← hname]
      exact List.mem_map_of_mem hd

/-- A method that has been added stands in the way of another one of its name only. -/
theorem overrides_insert_iff {m d : Method} :
    Overrides Γ c { tab with
        methods := tab.methods.insert m.name.symbol (methodSig Γ c m).1 } d ↔
      if d.name.symbol = m.name.symbol then False else Overrides Γ c tab d := by
  unfold Overrides
  simp only [SymbolMap.get?_insert]
  by_cases hname : d.name.symbol = m.name.symbol
  · simp only [hname, if_true, iff_false, not_and]
    intro _ hall
    exact (hall _ rfl).1 rfl
  · simp only [hname, if_false]

/-- Methods are added in silence if each of them can be and their names are different. -/
theorem foldl_addMethod_silent_iff (ms : List Method) :
    (ms.foldl (addMethod Γ c) (tab, [])).2 = [] ↔
      (∀ m ∈ ms, Overrides Γ c tab m) ∧ (ms.map (·.name.symbol)).Nodup := by
  induction ms generalizing tab with
  | nil => simp
  | cons m rest ih =>
    rw [List.foldl_cons, foldl_log (addMethod_log _) rest _ (addMethod Γ c (tab, []) m).2]
    rw [List.append_eq_nil_iff, addMethod_silent_iff, ih, List.forall_mem_cons, List.map_cons,
      List.nodup_cons]
    constructor
    · rintro ⟨hm, hrest, hnodup⟩
      rw [addMethod_of_new fun sig hsig => (hm.2 sig hsig).1] at hrest
      simp only [overrides_insert_iff] at hrest
      refine ⟨⟨hm, fun d hd => ?_⟩, fun hmem => ?_, hnodup⟩
      · have hd' := hrest d hd
        by_cases hname : d.name.symbol = m.name.symbol
        · rw [if_pos hname] at hd'
          exact hd'.elim
        · rwa [if_neg hname] at hd'
      · obtain ⟨d, hd, hname⟩ := List.mem_map.mp hmem
        have hd' := hrest d hd
        rwa [if_pos hname] at hd'
    · rintro ⟨⟨hm, hrest⟩, hfresh, hnodup⟩
      refine ⟨hm, fun d hd => ?_, hnodup⟩
      rw [addMethod_of_new fun sig hsig => (hm.2 sig hsig).1]
      rw [overrides_insert_iff, if_neg]
      · exact hrest d hd
      · intro hname
        apply hfresh
        rw [← hname]
        exact List.mem_map_of_mem hd

theorem ownTable_silent_iff {c : Class} {start : ClassTable} : (ownTable Γ c start).2 = [] ↔
    ((∀ b ∈ c.attributes,
        (attrType Γ (c.file == Γ.tables.known .basicFile) b.typeName).2 = [] ∧
          b.name.symbol ≠ Γ.tables.known .self ∧ b.name.symbol ∉ start.attrs.keys) ∧
      (c.attributes.map (·.name.symbol)).Nodup) ∧
    (∀ m ∈ c.methods, Overrides Γ c.name.symbol start m) ∧
      (c.methods.map (·.name.symbol)).Nodup := by
  have hmethods := methods_foldl_addAttr (Γ := Γ) c.name.symbol
    (c.file == Γ.tables.known .basicFile) (start, []) c.attributes
  rw [ownTable, foldl_log (addMethod_log _) c.methods _ (c.attributes.foldl _ (start, [])).2]
  rw [List.append_eq_nil_iff, foldl_addAttr_silent_iff, foldl_addMethod_silent_iff]
  simp only [Overrides, hmethods]

end Folds

/-! ## Declared types -/

section Types

variable (hw : WellFormedHierarchy t classes)
include hw

theorem declaredType_silent_iff {n : Name} :
    (declaredType ⟨t, hierarchyOf t classes⟩ n).2 = [] ↔ NamesType t classes n.symbol := by
  unfold declaredType NamesType
  rw [← hw.contains_iff]
  by_cases hself : n.symbol = t.known .selfType
  · simp [hself]
  · by_cases hc : (hierarchyOf t classes).contains n.symbol = true
    · simp [hself, hc]
    · simp [hself, hc]

theorem paramType_silent_iff {n : Name} : (paramType ⟨t, hierarchyOf t classes⟩ n).2 = [] ↔
    NamesType t classes n.symbol ∧ n.symbol ≠ t.known .selfType := by
  rw [← declaredType_silent_iff hw]
  unfold paramType declaredType
  by_cases hself : n.symbol = t.known .selfType
  · simp [hself]
  · by_cases hc : (hierarchyOf t classes).contains n.symbol = true
    · simp [hself, hc]
    · simp [hself, hc]

theorem attrType_silent_iff {c : Class} {n : Name} :
    (attrType ⟨t, hierarchyOf t classes⟩ (c.file == t.known .basicFile) n).2 = [] ↔
      IsSlot t c n.symbol ∨ NamesType t classes n.symbol := by
  rw [← declaredType_silent_iff hw]
  unfold attrType IsSlot
  by_cases hslot : c.file = t.known .basicFile ∧ n.symbol = t.known .primSlot
  · simp [hslot.1, hslot.2]
  · rw [if_neg (by simpa using hslot)]
    simp only [hslot, false_or]

theorem methodSig_silent_iff {c : Symbol} {m : Method} :
    (methodSig ⟨t, hierarchyOf t classes⟩ c m).2 = [] ↔ m.NamesTypes t classes := by
  simp only [methodSig, List.append_eq_nil_iff, List.flatMap_eq_nil_iff, List.forall_mem_map,
    paramType_silent_iff hw, declaredType_silent_iff hw]
  constructor
  · rintro ⟨hparams, hret⟩
    exact ⟨fun f hf => (hparams f hf).1, fun f hf => (hparams f hf).2, hret⟩
  · rintro ⟨hparams, hself, hret⟩
    exact ⟨fun f hf => ⟨hparams f hf, hself f hf⟩, hret⟩

end Types

/-- Names of types that are declared stand for different types. -/
theorem resolvedTy_inj {m n : Symbol} (hm : NamesType t classes m) (hn : NamesType t classes n)
    (h : resolvedTy t classes m = resolvedTy t classes n) : m = n := by
  unfold resolvedTy at h
  rcases hm with rfl | hm <;> rcases hn with rfl | hn
  · rfl
  · by_cases hself : n = t.known .selfType
    · exact hself.symm
    · simp [hself, hn] at h
  · by_cases hself : m = t.known .selfType
    · exact hself
    · simp [hself, hm] at h
  · by_cases hm' : m = t.known .selfType <;> by_cases hn' : n = t.known .selfType
    · rw [hm', hn']
    · simp [hm', hn', hn] at h
    · simp [hm', hn', hm] at h
    · simpa [hm', hn', hm, hn] using h

theorem resolvedParam_inj {m n : Symbol} (hm : NamesType t classes m)
    (hm' : m ≠ t.known .selfType) (hn : NamesType t classes n) (hn' : n ≠ t.known .selfType)
    (h : resolvedParam t classes m = resolvedParam t classes n) : m = n := by
  apply resolvedTy_inj hm hn
  have hnamed : ∀ k, NamesType t classes k → k ≠ t.known .selfType →
      resolvedTy t classes k = .named k ∧ resolvedParam t classes k = .named k := by
    intro k hk hk'
    have hmem : k ∈ classes.map (·.name.symbol) := hk.resolve_left hk'
    simp [resolvedParam, resolvedTy, hk', hmem, Ty.orSelf]
  rw [(hnamed m hm hm').1, (hnamed n hn hn').1, ← (hnamed m hm hm').2, ← (hnamed n hn hn').2, h]

/-- Methods of one signature agree, whichever classes they stand in. -/
theorem agrees_of_sameSignature {c d : Class} {m m' : Method} (h : m.SameSignature m') :
    (resolvedMethod t classes d m').Agrees (resolvedMethod t classes c m) := by
  constructor
  · show m'.params.map _ = m.params.map _
    apply List.ext_getElem
    · simpa using h.paramCount.symm
    · intro i hi' hi
      rw [List.length_map] at hi hi'
      simp only [List.getElem_map]
      rw [h.paramTypes i hi hi']
  · show resolvedTy t classes _ = resolvedTy t classes _
    rw [h.returnType]

theorem sameSignature_of_agrees {c d : Class} {m m' : Method} (hm : m.NamesTypes t classes)
    (hm' : m'.NamesTypes t classes)
    (h : (resolvedMethod t classes d m').Agrees (resolvedMethod t classes c m)) :
    m.SameSignature m' := by
  have hparams : m'.params.map (fun f => resolvedParam t classes f.typeName.symbol) =
      m.params.map fun f => resolvedParam t classes f.typeName.symbol := h.params
  have hcount : m.params.length = m'.params.length := by
    simpa using (congrArg List.length hparams).symm
  refine ⟨hcount, fun i hi hi' => ?_, ?_⟩
  · have hi'' : i < (m'.params.map fun f =>
        resolvedParam t classes f.typeName.symbol).length := by simpa using hi'
    have hget := List.getElem_of_eq hparams hi''
    simp only [List.getElem_map] at hget
    have hf := List.getElem_mem hi
    have hf' := List.getElem_mem hi'
    exact resolvedParam_inj (hm.params _ hf) (hm.notSelfType _ hf) (hm'.params _ hf')
      (hm'.notSelfType _ hf') hget.symm
  · exact resolvedTy_inj hm.ret hm'.ret h.ret.symm

/-! ## The start of a class -/

section Start

variable (hw : WellFormedHierarchy t classes)
include hw

theorem edge_iff {a b : Symbol} :
    (hierarchyOf t classes).graph.Edge a b ↔ InheritsFrom t classes a b := by
  constructor
  · intro h
    have hsound := soundEdge_of_get? h
    exact ⟨hsound.notRoot, hsound.parentOf⟩
  · rintro ⟨hroot, c, hc, rfl, rfl⟩
    exact hw.classesOk.get? hc hroot

theorem edge_eq : (hierarchyOf t classes).graph.Edge = InheritsFrom t classes := by
  funext a b
  exact propext (edge_iff hw)

theorem ancestors_eq_cons {c : Class} (hc : c ∈ classes) :
    ∃ above, (hierarchyOf t classes).ancestors c.name.symbol = c.name.symbol :: above := by
  rcases collect_cases hw hc with ⟨hnone, _⟩ | ⟨_, _, hedge, _⟩
  · exact ⟨[], ancestors_of_top hnone⟩
  · exact ⟨_, (ancestors_of_edge hw.rooted_hierarchy hedge).1⟩

/-- The ancestors of a class but for itself. -/
theorem mem_tail_ancestors_iff {c : Class} (hc : c ∈ classes) {x : Symbol} :
    x ∈ ((hierarchyOf t classes).ancestors c.name.symbol).tail ↔
      Relation.TransGen (InheritsFrom t classes) c.name.symbol x := by
  rw [← edge_eq hw, Relation.TransGen.head'_iff]
  rcases collect_cases hw hc with ⟨hnone, _⟩ | ⟨d, hd, hedge, _⟩
  · rw [ancestors_of_top hnone]
    refine iff_of_false (by simp) ?_
    rintro ⟨p, hp, _⟩
    exact absurd (hnone.symm.trans hp) (by simp)
  · have hd' := hw.contains_iff.mpr (List.mem_map_of_mem hd)
    have hchain := (hw.rooted_hierarchy.chainFrom_ancestors hd').1
    rw [(ancestors_of_edge hw.rooted_hierarchy hedge).1, List.tail_cons, hchain.mem_iff]
    constructor
    · intro hreach
      exact ⟨_, hedge, hreach⟩
    · rintro ⟨p, hp, hreach⟩
      cases hedge.symm.trans hp
      exact hreach

theorem exists_class_of_inherits {a x : Symbol}
    (h : Relation.TransGen (InheritsFrom t classes) a x) : ∃ d ∈ classes, d.name.symbol = x := by
  rw [← edge_eq hw] at h
  obtain ⟨y, _, hedge⟩ := Relation.TransGen.tail'_iff.mp h
  exact List.mem_map.mp (soundEdge_of_get? hedge).declaredParent

/-- A class starts with the method that its nearest proper ancestor defines. -/
theorem get?_methods_inherited {c : Class} (hc : c ∈ classes) (n : Symbol) :
    let h := hierarchyOf t classes
    (inherited ⟨t, h⟩ (collect t h classes).1 c.name.symbol).methods.get? n =
      (h.ancestors c.name.symbol).tail.findSome? (definedMethod? t classes n) := by
  intro h
  rcases collect_cases hw hc with ⟨hnone, _⟩ | ⟨d, hd, hedge, up, hup, _⟩
  · rw [ancestors_of_top hnone]
    simp [inherited, h, hnone]
  · rw [(ancestors_of_edge hw.rooted_hierarchy hedge).1, List.tail_cons]
    rw [← method?_eq_nearest hw n d hd, method?_of_get? hup]
    simp only [inherited, h, hedge, hup, Option.getD_some]

/-- A class starts with the attribute that its farthest ancestor declares. -/
theorem get?_attrs_inherited {c : Class} (hc : c ∈ classes) {n : Symbol}
    (hself : n ≠ t.known .self) :
    let h := hierarchyOf t classes
    (inherited ⟨t, h⟩ (collect t h classes).1 c.name.symbol).attrs.get? n =
      (h.ancestors c.name.symbol).tail.reverse.findSome? (definedAttr? t classes n) := by
  intro h
  rcases collect_cases hw hc with ⟨hnone, _⟩ | ⟨d, hd, hedge, up, hup, _⟩
  · rw [ancestors_of_top hnone]
    simp [inherited, h, hnone]
  · rw [(ancestors_of_edge hw.rooted_hierarchy hedge).1, List.tail_cons]
    rw [← attr?_eq_farthest hw hself d hd, attr?_of_get? hup]
    simp only [inherited, h, hedge, hup, Option.getD_some]

/-- A class does not start with an attribute if no proper ancestor declares it. -/
theorem not_mem_attrs_inherited_iff {c : Class} (hc : c ∈ classes) {n : Symbol}
    (hself : n ≠ t.known .self) :
    let h := hierarchyOf t classes
    n ∉ (inherited ⟨t, h⟩ (collect t h classes).1 c.name.symbol).attrs.keys ↔
      ∀ d ∈ classes, Relation.TransGen (InheritsFrom t classes) c.name.symbol d.name.symbol →
        ∀ b ∈ d.attributes, n ≠ b.name.symbol := by
  intro h
  rw [← SymbolMap.get?_eq_none_iff, get?_attrs_inherited hw hc hself, List.findSome?_eq_none_iff]
  simp only [List.mem_reverse, mem_tail_ancestors_iff hw hc]
  have hdefined : ∀ d ∈ classes, definedAttr? t classes n d.name.symbol = none ↔
      ∀ b ∈ d.attributes, n ≠ b.name.symbol := by
    intro d hd
    rw [definedAttr?_class hw hd, Option.map_eq_none_iff, List.find?_eq_none]
    simp only [beq_iff_eq]
    exact ⟨fun hall b hb heq => hall b hb heq.symm, fun hall b hb heq => hall b hb heq.symm⟩
  constructor
  · intro hall d hd hdc
    exact (hdefined d hd).mp (hall _ hdc)
  · intro hall x hx
    obtain ⟨d, hd, rfl⟩ := exists_class_of_inherits hw hx
    exact (hdefined d hd).mpr (hall d hd hx)

/-- If no class has two methods of one name, the method that a class starts with is one of a proper
ancestor. -/
theorem exists_method_of_inherited {c : Class} (hc : c ∈ classes) {n : Symbol} {sig : MethodSig} :
    let h := hierarchyOf t classes
    (inherited ⟨t, h⟩ (collect t h classes).1 c.name.symbol).methods.get? n = some sig →
      sig.definedIn ≠ c.name.symbol ∧ ∃ d ∈ classes,
        Relation.TransGen (InheritsFrom t classes) c.name.symbol d.name.symbol ∧
          ∃ m ∈ d.methods, m.name.symbol = n ∧ sig = resolvedMethod t classes d m := by
  intro h hget
  rw [get?_methods_inherited hw hc] at hget
  obtain ⟨x, hx, hdef⟩ := List.exists_of_findSome?_eq_some hget
  have hcx := (mem_tail_ancestors_iff hw hc).mp hx
  obtain ⟨d, hd, rfl⟩ := exists_class_of_inherits hw hcx
  refine ⟨?_, d, hd, hcx, ?_⟩
  · rw [definedIn_of_definedMethod? hdef]
    intro heq
    -- no class is its own proper ancestor
    rw [heq, ← edge_eq hw] at hcx
    have hc' := hw.contains_iff.mpr (List.mem_map_of_mem hc)
    exact InheritanceGraph.not_ends_of_cycle hcx (hw.rooted_hierarchy.ends hc')
  · rw [definedMethod?_class hw hd, Option.map_eq_some_iff] at hdef
    obtain ⟨m, hm, rfl⟩ := hdef
    exact ⟨m, List.mem_of_find?_eq_some hm, by simpa using List.find?_some hm, rfl⟩

/-! ## One class and all of them -/

/-- Whether something is reported about the features of a class. -/
theorem class_silent_iff {c : Class} (hc : c ∈ classes) :
    let h := hierarchyOf t classes
    let start := inherited ⟨t, h⟩ (collect t h classes).1 c.name.symbol
    (ownTable ⟨t, h⟩ c start).2 = [] ↔
      ((∀ b ∈ c.attributes, (IsSlot t c b.typeName.symbol ∨ NamesType t classes b.typeName.symbol) ∧
          b.name.symbol ≠ t.known .self ∧ ∀ d ∈ classes,
            Relation.TransGen (InheritsFrom t classes) c.name.symbol d.name.symbol →
              ∀ b' ∈ d.attributes, b.name.symbol ≠ b'.name.symbol) ∧
        (c.attributes.map (·.name.symbol)).Nodup) ∧
      (∀ m ∈ c.methods, m.NamesTypes t classes ∧ ∀ sig,
          start.methods.get? m.name.symbol = some sig →
            sig.Agrees (resolvedMethod t classes c m)) ∧
        (c.methods.map (·.name.symbol)).Nodup := by
  intro h start
  rw [ownTable_silent_iff]
  apply and_congr
  · apply and_congr_left'
    refine forall₂_congr fun b _ => and_congr (attrType_silent_iff hw) (and_congr_right ?_)
    intro hself
    exact not_mem_attrs_inherited_iff hw hc hself
  · apply and_congr_left'
    refine forall₂_congr fun m _ => ?_
    unfold Overrides
    rw [methodSig_silent_iff hw, methodSig_eq hw]
    refine and_congr_right fun _ => forall₂_congr fun sig hsig => and_iff_right ?_
    exact (exists_method_of_inherited hw hc hsig).1

theorem collect_silent_iff : (collect t (hierarchyOf t classes) classes).2 = [] ↔
    ∀ c ∈ classes, (ownTable ⟨t, hierarchyOf t classes⟩ c (inherited ⟨t, hierarchyOf t classes⟩
      (collect t (hierarchyOf t classes) classes).1 c.name.symbol)).2 = [] := by
  rw [collect_reports hw, List.flatMap_eq_nil_iff]
  simp only [mem_rootFirst_hierarchyOf hw]

/-- If nothing is reported, overriding agrees with all ancestors: the parent has kept what they
define. -/
theorem overrides_of_silent (hsilent : (collect t (hierarchyOf t classes) classes).2 = [])
    {c d : Class} (hc : c ∈ classes) (hd : d ∈ classes)
    (hdc : Relation.TransGen (InheritsFrom t classes) c.name.symbol d.name.symbol)
    {m m' : Method} (hm : m ∈ c.methods) (hm' : m' ∈ d.methods)
    (hname : m.name.symbol = m'.name.symbol) : m.SameSignature m' := by
  have hown := (class_silent_iff hw hc).mp ((collect_silent_iff hw).mp hsilent c hc)
  have hup := (class_silent_iff hw hd).mp ((collect_silent_iff hw).mp hsilent d hd)
  -- the ancestor has no other method of the name
  have hfind : d.methods.find? (·.name.symbol == m.name.symbol) = some m' := by
    rw [hname]
    exact find?_of_nodup_map hup.2.2 hm'
  have hdefined : (collect t (hierarchyOf t classes) classes).1.method? d.name.symbol
      m.name.symbol = some (resolvedMethod t classes d m') := by
    have hdef : definedMethod? t classes m.name.symbol d.name.symbol =
        some (resolvedMethod t classes d m') := by
      rw [definedMethod?_class hw hd, hfind, Option.map_some]
    obtain ⟨above, hchain⟩ := ancestors_eq_cons hw hd
    rw [method?_eq_nearest hw m.name.symbol d hd, hchain, List.findSome?_cons, hdef]
  have hedge : Relation.TransGen (hierarchyOf t classes).graph.Edge c.name.symbol d.name.symbol := by
    rwa [edge_eq hw]
  obtain ⟨p, hp, hreach⟩ := Relation.TransGen.head'_iff.mp hedge
  obtain ⟨sig, hsig, hag⟩ := method_of_reaches hw hsilent hreach hdefined
  have hstart : (inherited ⟨t, hierarchyOf t classes⟩
      (collect t (hierarchyOf t classes) classes).1 c.name.symbol).methods.get? m.name.symbol =
        some sig := by
    obtain ⟨_, _, _, up, hup, _⟩ := tables_of_edge hw hp
    rw [method?_of_get? hup] at hsig
    simp only [inherited, show (hierarchyOf t classes).graph.get? c.name.symbol = some p from hp,
      hup, Option.getD_some]
    exact hsig
  have hboth := hag.trans ((hown.2.1 m hm).2 sig hstart)
  exact sameSignature_of_agrees (hown.2.1 m hm).1 (hup.2.1 m' hm').1 hboth

/-- Nothing is reported exactly if the signatures are right. -/
theorem collect_silent_iff_wellFormed :
    (collect t (hierarchyOf t classes) classes).2 = [] ↔ WellFormedSignatures t classes := by
  constructor
  · intro hsilent
    have hall := fun c hc => (class_silent_iff hw hc).mp ((collect_silent_iff hw).mp hsilent c hc)
    constructor
    case methodTypes => exact fun c hc m hm => ((hall c hc).2.1 m hm).1
    case attrTypes => exact fun c hc b hb => ((hall c hc).1.1 b hb).1
    case attrNotSelf => exact fun c hc b hb => ((hall c hc).1.1 b hb).2.1
    case attrsOnce => exact fun c hc => (hall c hc).1.2
    case attrsNotInherited =>
      exact fun c hc d hd hdc b hb b' hb' => ((hall c hc).1.1 b hb).2.2 d hd hdc b' hb'
    case methodsOnce => exact fun c hc => (hall c hc).2.2
    case overrides =>
      exact fun c hc d hd hdc m hm m' hm' => overrides_of_silent hw hsilent hc hd hdc hm hm'
  · intro h
    rw [collect_silent_iff hw]
    intro c hc
    refine (class_silent_iff hw hc).mpr ⟨⟨?_, h.attrsOnce c hc⟩, ?_, h.methodsOnce c hc⟩
    · intro b hb
      exact ⟨h.attrTypes c hc b hb, h.attrNotSelf c hc b hb, fun d hd hdc b' hb' =>
        h.attrsNotInherited c hc d hd hdc b hb b' hb'⟩
    · intro m hm
      refine ⟨h.methodTypes c hc m hm, fun sig hsig => ?_⟩
      obtain ⟨_, d, hd, hdc, m', hm', hname, rfl⟩ := exists_method_of_inherited hw hc hsig
      exact agrees_of_sameSignature (h.overrides c hc d hd hdc m hm m' hm' hname.symm)

end Start

end Signatures

open Signatures

/-- Collecting the signatures of classes comes to an end and tells a sink nothing. -/
def CollectsInSilence (t : SymbolTables) (classes : List Class) (s : Sink) : Prop :=
  ∃ s', s.reportOver t (collect t (hierarchyOf t classes) classes).2 = .ok s' ∧
    s'.emitted = s.emitted

theorem collectsInSilence_iff {t : SymbolTables} {classes : List Class} {s : Sink} :
    CollectsInSilence t classes s ↔ (collect t (hierarchyOf t classes) classes).2 = [] := by
  unfold CollectsInSilence Sink.reportOver
  constructor
  · rintro ⟨s', hs, hemitted⟩
    obtain ⟨es, hes, hs⟩ := bind_eq_ok.mp hs
    cases hs
    rw [Sink.emitted_reportTypeErrors_eq_iff] at hemitted
    have hlength := length_of_mapM_eq_ok hes
    rw [hemitted] at hlength
    exact List.length_eq_zero_iff.mp hlength.symm
  · intro hnil
    rw [hnil]
    exact ⟨_, rfl, rfl⟩

/-- Over a valid hierarchy collecting the signatures is silent exactly if they are right. The tables
of a class then have the methods and attributes of all its ancestors, with the same types. -/
theorem signatures_accepted_iff (t : SymbolTables) (classes : List Class) (s : Sink)
    (hvalid : (checkInheritance t classes).isValid = true) :
    (CollectsInSilence t classes s ↔ WellFormedSignatures t classes) ∧
      (CollectsInSilence t classes s → ∀ c d,
        Relation.ReflTransGen (InheritsFrom t classes) d c →
          let sigs := (collect t (hierarchyOf t classes) classes).1
          (∀ n sig, sigs.method? c n = some sig →
            ∃ sig', sigs.method? d n = some sig' ∧ sig.Agrees sig') ∧
          ∀ n a, sigs.attr? c n = some a → ∃ a', sigs.attr? d n = some a' ∧ a'.ty = a.ty) := by
  have hw : WellFormedHierarchy t classes := isValid_iff_wellFormed.mp hvalid
  rw [collectsInSilence_iff]
  refine ⟨collect_silent_iff_wellFormed hw, ?_⟩
  intro hsilent c d hdc
  rw [← edge_eq hw] at hdc
  constructor
  · intro n sig hsig
    exact method_of_reaches hw hsilent hdc hsig
  · intro n a ha
    exact ⟨a, attr_of_reaches hw hdc ha, rfl⟩

/-- The basic classes, a main class that overrides a method of the root class rightly, and an heir. -/
def heirClasses : List Class :=
  BasicClass.all .initial ++
    [⟨BasicClass.name .initial .main, BasicClass.name .initial .object,
        SymbolTables.known .initial .main,
        [BasicClass.method .initial .copy [] .selfType], .synthetic⟩,
      ⟨BasicClass.name .initial .abort, BasicClass.name .initial .main,
        SymbolTables.known .initial .main, [], .synthetic⟩]

theorem signatures_accepted_iff_heirClasses :
    ((checkInheritance .initial heirClasses).isValid = true ∧
        WellFormedSignatures .initial heirClasses ∧
        ∃ sig, (collect .initial (hierarchyOf .initial heirClasses) heirClasses).1.method?
          (SymbolTables.known .initial .abort) (SymbolTables.known .initial .copy) = some sig ∧
            sig.ret = .selfType) ∧
      (checkInheritance .initial overridingClasses).isValid = true ∧
        ¬ WellFormedSignatures .initial overridingClasses := by
  have hvalid : (checkInheritance .initial heirClasses).isValid = true := by decide +kernel
  have hvalid' : (checkInheritance .initial overridingClasses).isValid = true := by decide +kernel
  obtain ⟨hiff, htables⟩ := signatures_accepted_iff .initial heirClasses {} hvalid
  obtain ⟨hiff', _⟩ := signatures_accepted_iff .initial overridingClasses {} hvalid'
  have hsilent : CollectsInSilence .initial heirClasses {} := by
    rw [collectsInSilence_iff]
    decide +kernel
  have hloud : ¬ CollectsInSilence .initial overridingClasses {} := by
    rw [collectsInSilence_iff]
    decide +kernel
  refine ⟨⟨hvalid, hiff.mp hsilent, ?_⟩, hvalid', fun h => hloud (hiff'.mpr h)⟩
  -- the heir has the method of the root class with the type that the root class gives it
  have hedge : ∀ a b, (hierarchyOf .initial heirClasses).graph.get? a = some b →
      InheritsFrom .initial heirClasses a b := fun a b h =>
    (edge_iff (isValid_iff_wellFormed.mp hvalid)).mp h
  have hreach : Relation.ReflTransGen (InheritsFrom .initial heirClasses)
      (SymbolTables.known .initial .abort) (SymbolTables.known .initial .object) :=
    .head (hedge _ (SymbolTables.known .initial .main) (by decide +kernel))
      (.single (hedge _ _ (by decide +kernel)))
  obtain ⟨sig, hsig, hag⟩ := (htables hsilent _ _ hreach).1 (SymbolTables.known .initial .copy)
    ⟨[], .selfType, SymbolTables.known .initial .object⟩ (by decide +kernel)
  exact ⟨sig, hsig, hag.ret.symm⟩

end CoolTypes
