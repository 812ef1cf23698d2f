import CoolTypes.Proofs.Classes.Layout

/-!
# Look-up along the ancestors

The tables of the classes of a valid hierarchy are flattened: a method of a class is the one that its
nearest ancestor defines, an attribute the one that its farthest ancestor declares, each with the types
of its first definition there, and the entries of a parent stand in front in the tables of its children
(`collect_flattens`). This is so whatever else is wrong with the classes.
-/

namespace CoolTypes

/-! ## What a declaration says -/

/-- The type that a name stands for in a declaration. The root class takes the place of a class that is
not declared. -/
def resolvedTy (t : SymbolTables) (classes : List Class) (n : Symbol) : Ty :=
  if n = t.known .selfType then .selfType
  else if n ∈ classes.map (·.name.symbol) then .named n
  else .named (t.known .object)

/-- The type that a name stands for as that of a parameter, which cannot be the self type. -/
def resolvedParam (t : SymbolTables) (classes : List Class) (n : Symbol) : Ty :=
  (resolvedTy t classes n).orSelf (.named (t.known .object))

/-- The signature that a method of a class declares. -/
def resolvedMethod (t : SymbolTables) (classes : List Class) (c : Class) (m : Method) : MethodSig where
  params := m.params.map fun f => resolvedParam t classes f.typeName.symbol
  ret := resolvedTy t classes m.returnType.symbol
  definedIn := c.name.symbol

/-- A class of the basic file can declare slots. -/
def IsSlot (t : SymbolTables) (c : Class) (n : Symbol) : Prop :=
  c.file = t.known .basicFile ∧ n = t.known .primSlot

instance (t : SymbolTables) (c : Class) (n : Symbol) : Decidable (IsSlot t c n) :=
  inferInstanceAs (Decidable (_ ∧ _))

/-- The signature that an attribute of a class declares. -/
def resolvedAttr (t : SymbolTables) (classes : List Class) (c : Class) (b : Binding) : AttrSig where
  ty := if IsSlot t c b.typeName.symbol then .named b.typeName.symbol
    else resolvedTy t classes b.typeName.symbol
  definedIn := c.name.symbol

/-- The signature of the first method called `n` in the class called `d`. -/
def definedMethod? (t : SymbolTables) (classes : List Class) (n d : Symbol) : Option MethodSig :=
  (classes.find? (·.name.symbol == d)).bind fun c =>
    (c.methods.find? (·.name.symbol == n)).map (resolvedMethod t classes c)

/-- The signature of the first attribute called `n` in the class called `d`. -/
def definedAttr? (t : SymbolTables) (classes : List Class) (n d : Symbol) : Option AttrSig :=
  (classes.find? (·.name.symbol == d)).bind fun c =>
    (c.attributes.find? (·.name.symbol == n)).map (resolvedAttr t classes c)

/-- The table `tab` of the class `c` has the entries of the table `up` in front and goes on with the
names that `c` adds, in order of declaration. -/
structure ClassTable.Extends (t : SymbolTables) (c : Class) (tab up : ClassTable) : Prop where
  methods : tab.methods.keys =
    up.methods.keys ++ newNames up.methods.keys (c.methods.map (·.name.symbol))
  attrs : ∃ new, tab.attrs.entries = up.attrs.entries ++ new ∧ new.map Prod.fst =
    newNames up.attrs.keys
      ((c.attributes.map (·.name.symbol)).filter fun n => decide (n ≠ t.known .self))

/-- The tables of classes are look-up along the chains of a hierarchy, written out. -/
structure FlatTables (t : SymbolTables) (classes : List Class) (h : ClassHierarchy)
    (s : Signatures) : Prop where
  /-- One table for each class. -/
  entries : s.classes.keys.Perm (classes.map (·.name.symbol))
  declared : ∀ n, s.contains n = true ↔ n ∈ classes.map (·.name.symbol)
  inHierarchy : ∀ n, h.contains n = true ↔ n ∈ classes.map (·.name.symbol)
  parentsFirst : ∀ pre c post, s.classes.keys = pre ++ c :: post → ∀ p, h.graph.get? c = some p →
    p ∈ pre
  sorted : s.classes.keys.Pairwise fun c d => h.depth c ≤ h.depth d
  /-- Classes of one depth keep the order in which they are declared. -/
  stable : ∀ k, (s.classes.keys.filter fun c => h.depth c == k) =
    (classes.map (·.name.symbol)).filter fun c => h.depth c == k
  method : ∀ c ∈ classes, ∀ n, s.method? c.name.symbol n =
    (h.ancestors c.name.symbol).findSome? (definedMethod? t classes n)
  attr : ∀ c ∈ classes, ∀ n, n ≠ t.known .self → s.attr? c.name.symbol n =
    (h.ancestors c.name.symbol).reverse.findSome? (definedAttr? t classes n)
  notSelf : ∀ c ∈ classes, s.attr? c.name.symbol (t.known .self) = none
  layout : ∀ c ∈ classes, ∃ tab, s.get? c.name.symbol = some tab ∧
    tab.parent = h.graph.get? c.name.symbol ∧
    (h.graph.get? c.name.symbol = none → tab.Extends t c {}) ∧
    ∀ p, h.graph.get? c.name.symbol = some p → ∃ up, s.get? p = some up ∧ tab.Extends t c up

namespace Signatures

variable {t : SymbolTables} {classes : List Class}

/-! ## Declared types over a valid hierarchy -/

section Resolved

variable (hw : WellFormedHierarchy t classes)
include hw

theorem declaredType_eq (n : Name) :
    (declaredType ⟨t, hierarchyOf t classes⟩ n).1 = resolvedTy t classes n.symbol := by
  unfold declaredType resolvedTy
  by_cases hself : n.symbol = t.known .selfType
  · simp only [hself, if_true]
  · simp only [hself, if_false]
    by_cases hc : (hierarchyOf t classes).contains n.symbol = true
    · rw [if_pos hc, if_pos (hw.contains_iff.mp hc)]
    · rw [if_neg hc, if_neg fun h => hc (hw.contains_iff.mpr h)]
      rfl

theorem paramType_eq (n : Name) :
    (paramType ⟨t, hierarchyOf t classes⟩ n).1 = resolvedParam t classes n.symbol := by
  unfold paramType resolvedParam
  rw [← declaredType_eq hw]
  cases declaredType ⟨t, hierarchyOf t classes⟩ n with
  | mk ty rs => cases ty <;> rfl

theorem methodSig_eq (c : Class) (m : Method) :
    (methodSig ⟨t, hierarchyOf t classes⟩ c.name.symbol m).1 = resolvedMethod t classes c m := by
  simp only [methodSig, resolvedMethod, List.map_map, declaredType_eq hw]
  congr 1
  exact List.map_congr_left fun f _ => paramType_eq hw f.typeName

theorem attrType_eq (c : Class) (b : Binding) :
    (⟨(attrType ⟨t, hierarchyOf t classes⟩ (c.file == t.known .basicFile) b.typeName).1,
      c.name.symbol⟩ : AttrSig) = resolvedAttr t classes c b := by
  unfold attrType resolvedAttr
  by_cases hslot : IsSlot t c b.typeName.symbol
  · simp [hslot.1, hslot.2, IsSlot]
  · rw [if_neg hslot, if_neg (by simpa [IsSlot] using hslot), declaredType_eq hw]

end Resolved

/-! ## Chains -/

/-- A declared class is found under its name. -/
theorem find?_class (hw : WellFormedHierarchy t classes) {c : Class} (hc : c ∈ classes) :
    classes.find? (·.name.symbol == c.name.symbol) = some c :=
  find?_of_nodup_map hw.names hc

theorem definedMethod?_class (hw : WellFormedHierarchy t classes) {c : Class} (hc : c ∈ classes)
    (n : Symbol) : definedMethod? t classes n c.name.symbol =
      (c.methods.find? (·.name.symbol == n)).map (resolvedMethod t classes c) := by
  rw [definedMethod?, find?_class hw hc, Option.bind_some]

theorem definedAttr?_class (hw : WellFormedHierarchy t classes) {c : Class} (hc : c ∈ classes)
    (n : Symbol) : definedAttr? t classes n c.name.symbol =
      (c.attributes.find? (·.name.symbol == n)).map (resolvedAttr t classes c) := by
  rw [definedAttr?, find?_class hw hc, Option.bind_some]

/-- What is defined in a class has the class as its origin. -/
theorem definedIn_of_definedMethod? {n d : Symbol} {sig : MethodSig}
    (h : definedMethod? t classes n d = some sig) : sig.definedIn = d := by
  obtain ⟨c, hc, h⟩ := Option.bind_eq_some_iff.mp h
  obtain ⟨m, _, rfl⟩ := Option.map_eq_some_iff.mp h
  simpa [resolvedMethod] using List.find?_some hc

/-- The root has no ancestors but itself. -/
theorem ancestors_of_top {h : ClassHierarchy} {c : Symbol} (hc : h.graph.get? c = none) :
    h.ancestors c = [c] :=
  ClassHierarchy.ancestors_eq (.top hc)

/-- The ancestors of a class are the class and those of its parent. -/
theorem ancestors_of_edge {h : ClassHierarchy} (hr : h.Rooted) {c p : Symbol}
    (hp : h.graph.get? c = some p) :
    h.ancestors c = c :: h.ancestors p ∧ c ∉ h.ancestors p := by
  have hc : h.contains c = true := ClassHierarchy.contains_iff.mpr (.inr ⟨p, hp⟩)
  have hpc := hr.contains_of_reaches hc (Relation.ReflTransGen.single hp)
  have hchain := InheritanceGraph.ChainFrom.link hp (hr.chainFrom_ancestors hpc).1
  refine ⟨ClassHierarchy.ancestors_eq hchain, ?_⟩
  exact (List.nodup_cons.mp hchain.nodup).1

/-- The table of a class, by whether the class has a parent. -/
theorem collect_cases (hw : WellFormedHierarchy t classes) {c : Class} (hc : c ∈ classes) :
    let h := hierarchyOf t classes
    let s := (collect t h classes).1
    (h.graph.get? c.name.symbol = none ∧
        s.get? c.name.symbol = some (ownTable ⟨t, h⟩ c {}).1) ∨
      ∃ d ∈ classes, h.graph.get? c.name.symbol = some d.name.symbol ∧
        ∃ up, s.get? d.name.symbol = some up ∧ s.get? c.name.symbol =
          some (ownTable ⟨t, h⟩ c { up with parent := some d.name.symbol }).1 := by
  intro h s
  have htab := collect_get? hw hc
  cases hp : h.graph.get? c.name.symbol with
  | none =>
    simp only [inherited, h, hp] at htab
    exact .inl ⟨rfl, htab⟩
  | some p =>
    obtain ⟨d, hd, rfl⟩ := List.mem_map.mp (soundEdge_of_get? hp).declaredParent
    obtain ⟨e, he, hname, up, hup, htab, _⟩ := tables_of_edge hw hp
    obtain rfl := List.inj_on_of_nodup_map hw.names he hc hname
    exact .inr ⟨d, hd, rfl, up, hup, htab⟩

/-! ## Methods and attributes -/

theorem method?_of_get? {s : Signatures} {c : Symbol} {tab : ClassTable} (h : s.get? c = some tab)
    (n : Symbol) : s.method? c n = tab.methods.get? n := by
  simp [method?, h]

theorem attr?_of_get? {s : Signatures} {c : Symbol} {tab : ClassTable} (h : s.get? c = some tab)
    (n : Symbol) : s.attr? c n = tab.attrs.get? n := by
  simp [attr?, h]

/-- An attribute stands in a table. -/
theorem exists_get?_of_attr? {s : Signatures} {c n : Symbol} {a : AttrSig}
    (h : s.attr? c n = some a) : ∃ tab, s.get? c = some tab ∧ tab.attrs.get? n = some a :=
  Option.bind_eq_some_iff.mp h

/-- A class has the method that its nearest ancestor defines. -/
theorem method?_eq_nearest (hw : WellFormedHierarchy t classes) (n : Symbol) :
    ∀ c ∈ classes, (collect t (hierarchyOf t classes) classes).1.method? c.name.symbol n =
      ((hierarchyOf t classes).ancestors c.name.symbol).findSome?
        (definedMethod? t classes n) := by
  refine hierarchy_induction hw ?_
  intro c hc ih
  rcases collect_cases hw hc with ⟨hnone, htab⟩ | ⟨d, hd, hedge, up, hup, htab⟩
  · rw [method?_of_get? htab, get?_methods_ownTable (by simp), ancestors_of_top hnone]
    simp only [methodSig_eq hw]
    rw [List.findSome?_singleton, definedMethod?_class hw hc]
    simp
  · obtain ⟨hchain, hnotin⟩ := ancestors_of_edge hw.rooted_hierarchy hedge
    have hparent := ih d hd hedge
    rw [method?_of_get? hup] at hparent
    rw [method?_of_get? htab, get?_methods_ownTable, hchain]
    · -- the own method stands before the inherited one
      simp only [methodSig_eq hw]
      rw [List.findSome?_cons, definedMethod?_class hw hc, ← hparent]
      cases c.methods.find? (·.name.symbol == n) <;> rfl
    · -- an inherited method is defined on the chain above the class
      intro sig hsig hown
      obtain ⟨e, he, hdef⟩ := List.exists_of_findSome?_eq_some (hparent.symm.trans hsig)
      rw [definedIn_of_definedMethod? hdef] at hown
      exact hnotin (hown ▸ he)

/-- A class has the attribute that its farthest ancestor declares. -/
theorem attr?_eq_farthest (hw : WellFormedHierarchy t classes) {n : Symbol}
    (hself : n ≠ t.known .self) :
    ∀ c ∈ classes, (collect t (hierarchyOf t classes) classes).1.attr? c.name.symbol n =
      ((hierarchyOf t classes).ancestors c.name.symbol).reverse.findSome?
        (definedAttr? t classes n) := by
  refine hierarchy_induction hw ?_
  intro c hc ih
  rcases collect_cases hw hc with ⟨hnone, htab⟩ | ⟨d, hd, hedge, up, hup, htab⟩
  · rw [attr?_of_get? htab, get?_attrs_ownTable hself, ancestors_of_top hnone]
    simp only [attrType_eq hw]
    rw [List.reverse_singleton, List.findSome?_singleton, definedAttr?_class hw hc]
    simp
  · have hchain := (ancestors_of_edge hw.rooted_hierarchy hedge).1
    have hparent := ih d hd hedge
    rw [attr?_of_get? hup] at hparent
    -- the inherited attribute stands before the own one, so the chain is gone through from its end
    rw [attr?_of_get? htab, get?_attrs_ownTable hself, hchain]
    simp only [attrType_eq hw]
    rw [List.reverse_cons, List.findSome?_append, List.findSome?_singleton,
      definedAttr?_class hw hc, ← hparent]

/-- No class has an attribute called `self`. -/
theorem attr?_self (hw : WellFormedHierarchy t classes) : ∀ c ∈ classes,
    (collect t (hierarchyOf t classes) classes).1.attr? c.name.symbol (t.known .self) = none := by
  refine hierarchy_induction hw ?_
  intro c hc ih
  rcases collect_cases hw hc with ⟨_, htab⟩ | ⟨d, hd, hedge, up, hup, htab⟩
  · rw [attr?_of_get? htab]
    exact get?_self_ownTable rfl
  · have hparent := ih d hd hedge
    rw [attr?_of_get? hup] at hparent
    rw [attr?_of_get? htab]
    exact get?_self_ownTable hparent

/-- An attribute of a class is the one that one of its ancestors declares. -/
theorem exists_class_of_attr? (hw : WellFormedHierarchy t classes) {c n : Symbol} {a : AttrSig}
    (h : (collect t (hierarchyOf t classes) classes).1.attr? c n = some a) :
    c ∈ classes.map (·.name.symbol) ∧
      ∃ d ∈ classes, (hierarchyOf t classes).graph.Reaches c d.name.symbol ∧
        ∃ b, d.attributes.find? (·.name.symbol == n) = some b ∧ resolvedAttr t classes d b = a := by
  obtain ⟨tab, htab, _⟩ := exists_get?_of_attr? h
  obtain ⟨c, hc, rfl⟩ := exists_class_of_get? hw htab
  refine ⟨List.mem_map_of_mem hc, ?_⟩
  have hself : n ≠ t.known .self := by
    rintro rfl
    rw [attr?_self hw c hc] at h
    exact absurd h (by simp)
  rw [attr?_eq_farthest hw hself c hc] at h
  obtain ⟨e, he, hdef⟩ := List.exists_of_findSome?_eq_some h
  obtain ⟨d, hd, hfind⟩ := Option.bind_eq_some_iff.mp hdef
  obtain rfl : d.name.symbol = e := by simpa using List.find?_some hd
  have hchain := (hw.rooted_hierarchy.chainFrom_ancestors
    (hw.contains_iff.mpr (List.mem_map_of_mem hc))).1
  exact ⟨d, List.mem_of_find?_eq_some hd, hchain.mem_iff.mp (List.mem_reverse.mp he),
    Option.map_eq_some_iff.mp hfind⟩

/-! ## The order of the tables -/

/-- Members picked key by key keep their order among those of one key. -/
theorem filter_flatMap_range {α : Type} (key : α → Nat) (l : List α) {bound k : Nat}
    (hk : k < bound ∨ ∀ x ∈ l, key x < bound) :
    (((List.range bound).flatMap fun d => l.filter fun x => key x == d).filter
      fun x => key x == k) = l.filter fun x => key x == k := by
  have hsame : ∀ d, ((l.filter fun x => key x == d).filter fun x => key x == k) =
      if d = k then l.filter fun x => key x == k else [] := by
    intro d
    rw [List.filter_filter]
    by_cases hd : d = k
    · simp [hd]
    · rw [if_neg hd, List.filter_eq_nil_iff]
      intro x _ hx
      simp only [Bool.and_eq_true, beq_iff_eq] at hx
      omega
  -- only the round of that key picks anything
  have hpick : ∀ b, ((List.range b).flatMap fun d =>
      if d = k then l.filter fun x => key x == k else []) =
        if k < b then l.filter fun x => key x == k else [] := by
    intro b
    induction b with
    | zero => simp
    | succ b ih =>
      rw [List.range_succ, List.flatMap_append, ih, List.flatMap_singleton]
      by_cases hkb : k < b
      · have hne : b ≠ k := by omega
        simp [hkb, hne, Nat.lt_succ_of_lt hkb]
      · by_cases heq : b = k
        · simp [heq]
        · have hlt : ¬ k < b + 1 := by omega
          simp [hkb, heq, hlt]
  rw [List.filter_flatMap]
  simp only [hsame, hpick]
  rcases hk with hk | hk
  · rw [if_pos hk]
  · split
    · rfl
    · next hge =>
      symm
      rw [List.filter_eq_nil_iff]
      intro x hx hxk
      have hlt := hk x hx
      simp only [beq_iff_eq] at hxk
      omega

/-- Among classes of one depth, collecting keeps the order of declaration. -/
theorem filter_depth_rootFirst (hw : WellFormedHierarchy t classes) (k : Nat) :
    ((rootFirst (hierarchyOf t classes) classes).filter
      fun c => (hierarchyOf t classes).depth c.name.symbol == k) =
      classes.filter fun c => (hierarchyOf t classes).depth c.name.symbol == k := by
  unfold rootFirst
  rw [filter_contains hw]
  apply filter_flatMap_range
  right
  intro c hc
  exact hw.rooted_hierarchy.depth_lt (hw.contains_iff.mpr (List.mem_map_of_mem hc))

theorem keys_collect (hw : WellFormedHierarchy t classes) :
    (collect t (hierarchyOf t classes) classes).1.classes.keys =
      (rootFirst (hierarchyOf t classes) classes).map (·.name.symbol) :=
  (collects_collect hw).keys

/-- The parent of a class has its table before the class. -/
theorem parent_mem_of_keys (hw : WellFormedHierarchy t classes) {pre post : List Symbol} {c p : Symbol}
    (hkeys : (collect t (hierarchyOf t classes) classes).1.classes.keys = pre ++ c :: post)
    (hp : (hierarchyOf t classes).graph.get? c = some p) : p ∈ pre := by
  rw [keys_collect hw] at hkeys
  obtain ⟨before, rest, hsplit, rfl, hrest⟩ := List.map_eq_append_iff.mp hkeys
  obtain ⟨d, after, rfl, rfl, rfl⟩ := List.map_eq_cons_iff.mp hrest
  obtain ⟨e, he, rfl⟩ := List.mem_map.mp (soundEdge_of_get? hp).declaredParent
  apply List.mem_map_of_mem
  exact parent_before hw.rooted_hierarchy hsplit ((mem_rootFirst_hierarchyOf hw).mpr he) hp

/-! ## Layout -/

@[simp] theorem parent_addAttr {Γ : Ground} {c : Symbol} {basic : Bool} {acc : Collected}
    {b : Binding} : (addAttr Γ c basic acc b).1.parent = acc.1.parent := by
  rcases addAttr_cases Γ c basic acc b with htable | ⟨_, _, htable⟩ <;> rw [htable]

@[simp] theorem parent_addMethod {Γ : Ground} {c : Symbol} {acc : Collected} {m : Method} :
    (addMethod Γ c acc m).1.parent = acc.1.parent := by
  rcases addMethod_cases Γ c acc m with ⟨_, _, _, htable⟩ | ⟨_, htable⟩ <;> rw [htable]

theorem parent_ownTable {Γ : Ground} {c : Class} {start : ClassTable} :
    (ownTable Γ c start).1.parent = start.parent := by
  have hattrs := List.foldlRecOn (motive := fun acc : Collected => acc.1.parent = start.parent)
    c.attributes (addAttr Γ c.name.symbol (c.file == Γ.tables.known .basicFile))
    (rfl : (start, ([] : List Report)).1.parent = start.parent)
    fun acc hacc b _ => by rwa [parent_addAttr]
  exact List.foldlRecOn (motive := fun acc : Collected => acc.1.parent = start.parent)
    c.methods (addMethod Γ c.name.symbol) hattrs fun acc hacc m _ => by rwa [parent_addMethod]

theorem extends_ownTable {h : ClassHierarchy} {c : Class} {start up : ClassTable}
    (hmethods : start.methods = up.methods) (hattrs : start.attrs = up.attrs) :
    (ownTable ⟨t, h⟩ c start).1.Extends t c up := by
  constructor
  · rw [← hmethods]
    exact keys_methods_ownTable
  · rw [← hattrs]
    exact entries_attrs_ownTable

theorem layout_collect (hw : WellFormedHierarchy t classes) {c : Class} (hc : c ∈ classes) :
    let h := hierarchyOf t classes
    let s := (collect t h classes).1
    ∃ tab, s.get? c.name.symbol = some tab ∧ tab.parent = h.graph.get? c.name.symbol ∧
      (h.graph.get? c.name.symbol = none → tab.Extends t c {}) ∧
      ∀ p, h.graph.get? c.name.symbol = some p → ∃ up, s.get? p = some up ∧ tab.Extends t c up := by
  intro h s
  rcases collect_cases hw hc with ⟨hnone, htab⟩ | ⟨d, hd, hedge, up, hup, htab⟩
  · refine ⟨_, htab, ?_, fun _ => extends_ownTable rfl rfl, fun p hp => ?_⟩
    · rw [parent_ownTable, hnone]
    · exact absurd (hnone.symm.trans hp) (by simp)
  · refine ⟨_, htab, ?_, fun hnone => ?_, fun p hp => ?_⟩
    · rw [parent_ownTable, hedge]
    · exact absurd (hedge.symm.trans hnone) (by simp)
    · cases hedge.symm.trans hp
      exact ⟨up, hup, extends_ownTable rfl rfl⟩

end Signatures

open Signatures

/-- Over a valid hierarchy the tables that are collected are flattened, whatever is reported about
the signatures of the classes. -/
theorem collect_flattens (t : SymbolTables) (classes : List Class)
    (hvalid : (checkInheritance t classes).isValid = true) :
    FlatTables t classes (hierarchyOf t classes)
      (collect t (hierarchyOf t classes) classes).1 := by
  have hw : WellFormedHierarchy t classes := isValid_iff_wellFormed.mp hvalid
  have hperm : (rootFirst (hierarchyOf t classes) classes).Perm classes := by
    have h := @rootFirst_perm _ classes hw.rooted_hierarchy
    rwa [filter_contains hw] at h
  constructor
  case entries =>
    rw [keys_collect hw]
    exact hperm.map _
  case declared =>
    intro n
    exact (contains_collect hw).trans hw.contains_iff
  case inHierarchy =>
    intro n
    exact hw.contains_iff
  case parentsFirst =>
    intro pre c post hkeys p hp
    exact parent_mem_of_keys hw hkeys hp
  case sorted =>
    rw [keys_collect hw, List.pairwise_map]
    exact pairwise_rootFirst _ _
  case stable =>
    intro k
    rw [keys_collect hw, List.filter_map, List.filter_map]
    exact congrArg _ (filter_depth_rootFirst hw k)
  case method =>
    intro c hc n
    exact method?_eq_nearest hw n c hc
  case attr =>
    intro c hc n hself
    exact attr?_eq_farthest hw hself c hc
  case notSelf => exact attr?_self hw
  case layout =>
    intro c hc
    exact layout_collect hw hc

/-- The basic classes and two more. The second declares an attribute of the first again, and both
override the method `copy` of the root class with another result. -/
def overridingClasses : List Class :=
  let attr (ty : WellKnown) : Feature :=
    .attr ⟨BasicClass.name .initial .val, BasicClass.name .initial ty, none, .synthetic⟩
  BasicClass.all .initial ++
    [⟨BasicClass.name .initial .abort, BasicClass.name .initial .main,
        SymbolTables.known .initial .main,
        [attr .string, BasicClass.method .initial .copy [] .string], .synthetic⟩,
      ⟨BasicClass.name .initial .main, BasicClass.name .initial .object,
        SymbolTables.known .initial .main,
        [attr .int, BasicClass.method .initial .copy [] .int], .synthetic⟩]

theorem collect_flattens_overridingClasses :
    let h := hierarchyOf .initial overridingClasses
    let s := (collect .initial h overridingClasses).1
    let child := SymbolTables.known .initial .abort
    let main := SymbolTables.known .initial .main
    (checkInheritance .initial overridingClasses).isValid = true ∧
      (collect .initial h overridingClasses).2 ≠ [] ∧
      FlatTables .initial overridingClasses h s ∧
      s.method? child (SymbolTables.known .initial .copy) =
        some ⟨[], .named (SymbolTables.known .initial .string), child⟩ ∧
      s.attr? child (SymbolTables.known .initial .val) =
        some ⟨.named (SymbolTables.known .initial .int), main⟩ := by
  intro h s child main
  have hvalid : (checkInheritance .initial overridingClasses).isValid = true := by decide +kernel
  have hflat : FlatTables .initial overridingClasses h s :=
    collect_flattens .initial overridingClasses hvalid
  refine ⟨hvalid, by decide +kernel, hflat, ?_, ?_⟩
  · -- the invalid override of the nearest ancestor counts
    refine (hflat.method _ (List.mem_append_right _ List.mem_cons_self) _).trans ?_
    decide +kernel
  · -- the attribute of the farthest ancestor counts
    have hself : SymbolTables.known .initial .val ≠ SymbolTables.known .initial .self := by
      decide +kernel
    refine (hflat.attr _ (List.mem_append_right _ List.mem_cons_self) _ hself).trans ?_
    decide +kernel

end CoolTypes
