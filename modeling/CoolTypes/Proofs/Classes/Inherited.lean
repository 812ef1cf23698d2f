import CoolTypes.Proofs.Classes.Tables

/-!
# What a class inherits

Each entry of a class table comes from the table of the parent or from a feature of the class. So the
types in the tables are declared (`attr_declares`, `method_declares`), and if nothing was reported a
class has the attributes and the method types of all its ancestors (`attr_of_reaches`,
`method_of_reaches`).
-/

namespace CoolTypes

/-! ## Signatures of overriding methods -/

/-- Two signatures that a caller cannot tell apart. -/
structure MethodSig.Agrees (a b : MethodSig) : Prop where
  params : a.params = b.params
  ret : a.ret = b.ret

theorem MethodSig.Agrees.refl (a : MethodSig) : a.Agrees a := ⟨rfl, rfl⟩

theorem MethodSig.Agrees.trans {a b c : MethodSig} (hab : a.Agrees b) (hbc : b.Agrees c) :
    a.Agrees c :=
  ⟨hab.params.trans hbc.params, hab.ret.trans hbc.ret⟩

theorem MethodSig.mismatch?_eq_none_iff {a b : MethodSig} :
    a.mismatch? b = none ↔ a.Agrees b := by
  unfold mismatch?
  by_cases hlen : a.params.length = b.params.length
  · have hzip : (a.params.zip b.params).findIdx? (fun p => p.1 != p.2) = none ↔
        a.params = b.params := by
      rw [List.findIdx?_eq_none_iff]
      constructor
      · intro h
        refine List.ext_getElem hlen fun i ha hb => ?_
        have hi := h (a.params[i], b.params[i]) (List.mem_iff_getElem.mpr
          ⟨i, by simpa using ⟨ha, hb⟩, by simp⟩)
        simpa using hi
      · intro h p hp
        rw [h] at hp
        obtain ⟨i, hi, rfl⟩ := List.mem_iff_getElem.mp hp
        simp
    rw [if_neg (by simpa using hlen)]
    cases hfind : (a.params.zip b.params).findIdx? (fun p => p.1 != p.2) with
    | some i =>
      refine iff_of_false (by simp) fun h => ?_
      rw [hzip.mpr h.params] at hfind
      exact absurd hfind (by simp)
    | none =>
      by_cases hret : a.ret = b.ret
      · exact iff_of_true (by simp [hret]) ⟨hzip.mp hfind, hret⟩
      · exact iff_of_false (by simp [hret]) fun h => hret h.ret
  · exact iff_of_false (by simp [hlen]) fun h => hlen (by rw [h.params])

namespace Signatures

variable {Γ : Ground}

/-! ## One feature -/

section Steps

variable {c : Symbol} {basic : Bool} {acc : Collected}

/-- An attribute that is called `self` or that is there already leaves the table as it is. -/
theorem addAttr_of_known {b : Binding}
    (h : b.name.symbol = Γ.tables.known .self ∨ b.name.symbol ∈ acc.1.attrs.keys) :
    (addAttr Γ c basic acc b).1 = acc.1 := by
  unfold addAttr
  dsimp only
  split
  · rfl
  · next hself =>
    rcases h with h | h
    · exact absurd h hself
    · cases hget : acc.1.attrs.get? b.name.symbol with
      | some previous => rfl
      | none => exact absurd h (SymbolMap.get?_eq_none_iff.mp hget)

/-- Another attribute gets an entry at the end. -/
theorem addAttr_of_new {b : Binding} (hself : b.name.symbol ≠ Γ.tables.known .self)
    (hnew : b.name.symbol ∉ acc.1.attrs.keys) :
    (addAttr Γ c basic acc b).1 = { acc.1 with
      attrs := acc.1.attrs.insert b.name.symbol ⟨(attrType Γ basic b.typeName).1, c⟩ } := by
  unfold addAttr
  dsimp only
  rw [if_neg hself, SymbolMap.get?_eq_none_iff.mpr hnew]

/-- The next attribute leaves the table as it is, or its name is new and gets an entry. -/
theorem addAttr_cases (Γ : Ground) (c : Symbol) (basic : Bool) (acc : Collected) (b : Binding) :
    (addAttr Γ c basic acc b).1 = acc.1 ∨
    b.name.symbol ≠ Γ.tables.known .self ∧ b.name.symbol ∉ acc.1.attrs.keys ∧
      (addAttr Γ c basic acc b).1 = { acc.1 with
        attrs := acc.1.attrs.insert b.name.symbol ⟨(attrType Γ basic b.typeName).1, c⟩ } := by
  by_cases hknown : b.name.symbol = Γ.tables.known .self ∨ b.name.symbol ∈ acc.1.attrs.keys
  · exact .inl (addAttr_of_known hknown)
  · rw [not_or] at hknown
    exact .inr ⟨hknown.1, hknown.2, addAttr_of_new hknown.1 hknown.2⟩

/-- A second method of a class leaves the table as it is. -/
theorem addMethod_of_own {m : Method} {sig : MethodSig}
    (h : acc.1.methods.get? m.name.symbol = some sig) (hc : sig.definedIn = c) :
    (addMethod Γ c acc m).1 = acc.1 := by
  unfold addMethod
  dsimp only
  rw [h]
  simp [hc]

/-- Another method sets the entry of its name, whether it overrides rightly or not. -/
theorem addMethod_of_new {m : Method}
    (h : ∀ sig, acc.1.methods.get? m.name.symbol = some sig → sig.definedIn ≠ c) :
    (addMethod Γ c acc m).1 = { acc.1 with
      methods := acc.1.methods.insert m.name.symbol (methodSig Γ c m).1 } := by
  unfold addMethod
  dsimp only
  cases hget : acc.1.methods.get? m.name.symbol with
  | none => rfl
  | some previous =>
    dsimp only
    rw [if_neg (h previous hget)]
    cases previous.mismatch? (methodSig Γ c m).1 <;> rfl

/-- The next method is a second one of its class, or it sets the entry of its name. -/
theorem addMethod_cases (Γ : Ground) (c : Symbol) (acc : Collected) (m : Method) :
    (∃ sig, acc.1.methods.get? m.name.symbol = some sig ∧ sig.definedIn = c ∧
      (addMethod Γ c acc m).1 = acc.1) ∨
    (∀ sig, acc.1.methods.get? m.name.symbol = some sig → sig.definedIn ≠ c) ∧
      (addMethod Γ c acc m).1 = { acc.1 with
        methods := acc.1.methods.insert m.name.symbol (methodSig Γ c m).1 } := by
  by_cases hown : ∃ sig, acc.1.methods.get? m.name.symbol = some sig ∧ sig.definedIn = c
  · obtain ⟨sig, hget, hc⟩ := hown
    exact .inl ⟨sig, hget, hc, addMethod_of_own hget hc⟩
  · have hnew : ∀ sig, acc.1.methods.get? m.name.symbol = some sig → sig.definedIn ≠ c :=
      fun sig hget hc => hown ⟨sig, hget, hc⟩
    exact .inr ⟨hnew, addMethod_of_new hnew⟩

/-- A method can be added in silence: its types are declared, and the method that the table has under
its name comes from another class and agrees with it. -/
def Overrides (Γ : Ground) (c : Symbol) (tab : ClassTable) (m : Method) : Prop :=
  (methodSig Γ c m).2 = [] ∧ ∀ sig, tab.methods.get? m.name.symbol = some sig →
    sig.definedIn ≠ c ∧ sig.Agrees (methodSig Γ c m).1

theorem addMethod_silent_iff {tab : ClassTable} {m : Method} :
    (addMethod Γ c (tab, []) m).2 = [] ↔ Overrides Γ c tab m := by
  unfold addMethod Overrides
  dsimp only
  cases tab.methods.get? m.name.symbol with
  | none => simp
  | some previous =>
    by_cases hc : previous.definedIn = c
    · simp [hc]
    · simp only [hc, if_false, Option.some.injEq, forall_eq']
      rw [← MethodSig.mismatch?_eq_none_iff]
      cases previous.mismatch? (methodSig Γ c m).1 <;> simp [hc]

end Steps

/-! ## Entries of a table -/

@[simp] theorem methods_addAttr (c : Symbol) (basic : Bool) (acc : Collected) (b : Binding) :
    (addAttr Γ c basic acc b).1.methods = acc.1.methods := by
  rcases addAttr_cases Γ c basic acc b with htable | ⟨_, _, htable⟩ <;> rw [htable]

@[simp] theorem attrs_addMethod (c : Symbol) (acc : Collected) (m : Method) :
    (addMethod Γ c acc m).1.attrs = acc.1.attrs := by
  rcases addMethod_cases Γ c acc m with ⟨_, _, _, htable⟩ | ⟨_, htable⟩ <;> rw [htable]

theorem methods_foldl_addAttr (c : Symbol) (basic : Bool) (acc : Collected) (bs : List Binding) :
    (bs.foldl (addAttr Γ c basic) acc).1.methods = acc.1.methods := by
  induction bs generalizing acc with
  | nil => rfl
  | cons b rest ih => rw [List.foldl_cons, ih, methods_addAttr]

theorem attrs_foldl_addMethod (c : Symbol) (acc : Collected) (ms : List Method) :
    (ms.foldl (addMethod Γ c) acc).1.attrs = acc.1.attrs := by
  induction ms generalizing acc with
  | nil => rfl
  | cons m rest ih => rw [List.foldl_cons, ih, attrs_addMethod]

/-- An attribute that is there stays; another one is the attribute that has been added. -/
theorem attrs_addAttr {c : Symbol} {basic : Bool} {acc : Collected} {b : Binding} {n : Symbol} :
    (∀ a, acc.1.attrs.get? n = some a → (addAttr Γ c basic acc b).1.attrs.get? n = some a) ∧
      ∀ a, (addAttr Γ c basic acc b).1.attrs.get? n = some a → acc.1.attrs.get? n = some a ∨
        b.name.symbol = n ∧ a = ⟨(attrType Γ basic b.typeName).1, c⟩ := by
  rcases addAttr_cases Γ c basic acc b with htable | ⟨_, hnew, htable⟩
  · rw [htable]
    exact ⟨fun _ h => h, fun _ h => .inl h⟩
  · rw [htable]
    refine ⟨fun a h => ?_, fun a h => SymbolMap.get?_insert_cases h⟩
    have hne : n ≠ b.name.symbol := by
      rintro rfl
      exact hnew (SymbolMap.mem_keys_of_get? h)
    rwa [SymbolMap.get?_insert, if_neg hne]

theorem attrs_foldl_addAttr {c : Symbol} {basic : Bool} {acc : Collected} {bs : List Binding}
    {n : Symbol} :
    (∀ a, acc.1.attrs.get? n = some a →
        (bs.foldl (addAttr Γ c basic) acc).1.attrs.get? n = some a) ∧
      ∀ a, (bs.foldl (addAttr Γ c basic) acc).1.attrs.get? n = some a →
        acc.1.attrs.get? n = some a ∨
          ∃ b ∈ bs, b.name.symbol = n ∧ a = ⟨(attrType Γ basic b.typeName).1, c⟩ := by
  induction bs generalizing acc with
  | nil => exact ⟨fun _ h => h, fun _ h => .inl h⟩
  | cons b rest ih =>
    obtain ⟨hkeep, hnew⟩ := @attrs_addAttr Γ c basic acc b n
    obtain ⟨hkeep', hnew'⟩ := @ih (addAttr Γ c basic acc b)
    refine ⟨fun a h => hkeep' a (hkeep a h), fun a h => ?_⟩
    rcases hnew' a h with h | ⟨d, hd, hname, hty⟩
    · rcases hnew a h with h | ⟨hname, hty⟩
      · exact .inl h
      · exact .inr ⟨b, List.mem_cons_self, hname, hty⟩
    · exact .inr ⟨d, List.mem_cons_of_mem _ hd, hname, hty⟩

/-- A class keeps the attributes with which it starts; each other one is its own. -/
theorem attrs_ownTable {c : Class} {start : ClassTable} {n : Symbol} :
    (∀ a, start.attrs.get? n = some a → (ownTable Γ c start).1.attrs.get? n = some a) ∧
      ∀ a, (ownTable Γ c start).1.attrs.get? n = some a → start.attrs.get? n = some a ∨
        ∃ b ∈ c.attributes, b.name.symbol = n ∧ a =
          ⟨(attrType Γ (c.file == Γ.tables.known .basicFile) b.typeName).1, c.name.symbol⟩ := by
  simp only [ownTable, attrs_foldl_addMethod]
  exact @attrs_foldl_addAttr Γ c.name.symbol _ (start, []) c.attributes n

/-- A method is one that was there or the one that has been added. If nothing is reported, the added
one agrees with one that was there. -/
theorem methods_addMethod {c : Symbol} {tab : ClassTable} {m : Method} {n : Symbol} :
    (∀ sig, (addMethod Γ c (tab, []) m).1.methods.get? n = some sig →
        tab.methods.get? n = some sig ∨ m.name.symbol = n ∧ sig = (methodSig Γ c m).1) ∧
      ((addMethod Γ c (tab, []) m).2 = [] → ∀ sig, tab.methods.get? n = some sig →
        ∃ sig', (addMethod Γ c (tab, []) m).1.methods.get? n = some sig' ∧ sig.Agrees sig') := by
  constructor
  · intro sig h
    rcases addMethod_cases Γ c (tab, []) m with ⟨_, _, _, htable⟩ | ⟨_, htable⟩
    · rw [htable] at h
      exact .inl h
    · rw [htable] at h
      exact SymbolMap.get?_insert_cases h
  · intro hsilent sig h
    have hover : Overrides Γ c tab m := addMethod_silent_iff.mp hsilent
    rw [addMethod_of_new fun previous hprev => (hover.2 previous hprev).1, SymbolMap.get?_insert]
    by_cases hn : n = m.name.symbol
    · rw [if_pos hn]
      exact ⟨_, rfl, (hover.2 sig (hn ▸ h)).2⟩
    · rw [if_neg hn]
      exact ⟨sig, h, .refl sig⟩

theorem methods_foldl_addMethod {c : Symbol} {tab : ClassTable} {ms : List Method} {n : Symbol} :
    (∀ sig, (ms.foldl (addMethod Γ c) (tab, [])).1.methods.get? n = some sig →
        tab.methods.get? n = some sig ∨
          ∃ m ∈ ms, m.name.symbol = n ∧ sig = (methodSig Γ c m).1) ∧
      ((ms.foldl (addMethod Γ c) (tab, [])).2 = [] → ∀ sig, tab.methods.get? n = some sig →
        ∃ sig', (ms.foldl (addMethod Γ c) (tab, [])).1.methods.get? n = some sig' ∧
          sig.Agrees sig') := by
  induction ms generalizing tab with
  | nil => exact ⟨fun _ h => .inl h, fun _ sig h => ⟨sig, h, .refl sig⟩⟩
  | cons m rest ih =>
    obtain ⟨hnew, hkeep⟩ := @methods_addMethod Γ c tab m n
    obtain ⟨hnew', hkeep'⟩ := @ih (addMethod Γ c (tab, []) m).1
    rw [List.foldl_cons, foldl_log (addMethod_log _) rest _ (addMethod Γ _ (tab, []) m).2]
    refine ⟨fun sig h => ?_, fun hlog sig h => ?_⟩
    · rcases hnew' sig h with h | ⟨d, hd, hname, hsig⟩
      · rcases hnew sig h with h | ⟨hname, hsig⟩
        · exact .inl h
        · exact .inr ⟨m, List.mem_cons_self, hname, hsig⟩
      · exact .inr ⟨d, List.mem_cons_of_mem _ hd, hname, hsig⟩
    · obtain ⟨hfirst, hrest⟩ := List.append_eq_nil_iff.mp hlog
      obtain ⟨sig', h', hag⟩ := hkeep hfirst sig h
      obtain ⟨sig'', h'', hag'⟩ := hkeep' hrest sig' h'
      exact ⟨sig'', h'', hag.trans hag'⟩

/-- A method of a class is inherited or its own. If nothing is reported, the class has a method that
agrees with each inherited one. -/
theorem methods_ownTable {c : Class} {start : ClassTable} {n : Symbol} :
    (∀ sig, (ownTable Γ c start).1.methods.get? n = some sig → start.methods.get? n = some sig ∨
        ∃ m ∈ c.methods, m.name.symbol = n ∧ sig = (methodSig Γ c.name.symbol m).1) ∧
      ((ownTable Γ c start).2 = [] → ∀ sig, start.methods.get? n = some sig →
        ∃ sig', (ownTable Γ c start).1.methods.get? n = some sig' ∧ sig.Agrees sig') := by
  have hstart := methods_foldl_addAttr (Γ := Γ) c.name.symbol
    (c.file == Γ.tables.known .basicFile) (start, []) c.attributes
  obtain ⟨hnew, hkeep⟩ := @methods_foldl_addMethod Γ c.name.symbol (c.attributes.foldl
    (addAttr Γ c.name.symbol (c.file == Γ.tables.known .basicFile)) (start, [])).1 c.methods n
  rw [hstart] at hnew hkeep
  -- what the attributes have reported stands before the reports of the methods
  rw [ownTable, foldl_log (addMethod_log _) c.methods _ (c.attributes.foldl _ (start, [])).2]
  exact ⟨hnew, fun hlog => hkeep (List.append_eq_nil_iff.mp hlog).2⟩

/-! ## Along the hierarchy -/

variable {t : SymbolTables} {classes : List Class}

/-- What holds of a class whenever it holds of its parent holds of all classes. -/
theorem hierarchy_induction (hw : WellFormedHierarchy t classes) {P : Class → Prop}
    (step : ∀ c ∈ classes, (∀ d ∈ classes, (hierarchyOf t classes).graph.get? c.name.symbol =
      some d.name.symbol → P d) → P c) : ∀ c ∈ classes, P c := by
  -- the depth grows by one from a parent to its child
  have hdepth : ∀ n, ∀ c ∈ classes, (hierarchyOf t classes).depth c.name.symbol < n → P c := by
    intro n
    induction n with
    | zero => exact fun c _ h => absurd h (Nat.not_lt_zero _)
    | succ n ih =>
      refine fun c hc hlt => step c hc fun d hd hp => ih d hd ?_
      have hparent := hw.rooted_hierarchy.depth_parent hp
      omega
  exact fun c hc => hdepth _ c hc (Nat.lt_succ_self _)

/-- A class starts from nothing, or from the table of a declared class that is its parent. -/
theorem inherited_eq (hw : WellFormedHierarchy t classes) (c : Symbol) :
    let s := (collect t (hierarchyOf t classes) classes).1
    inherited ⟨t, hierarchyOf t classes⟩ s c = {} ∨
      ∃ d ∈ classes, (hierarchyOf t classes).graph.get? c = some d.name.symbol ∧
        ∃ tab, s.get? d.name.symbol = some tab ∧
          inherited ⟨t, hierarchyOf t classes⟩ s c = { tab with parent := some d.name.symbol } := by
  intro s
  unfold inherited
  cases hp : (hierarchyOf t classes).graph.get? c with
  | none => exact .inl rfl
  | some p =>
    obtain ⟨d, hd, rfl⟩ := List.mem_map.mp (soundEdge_of_get? hp).declaredParent
    have htab := collect_get? hw hd
    exact .inr ⟨d, hd, rfl, _, htab, by simp only [s, htab, Option.getD_some]⟩

/-! ## Declared types -/

theorem declaredType_declares (Γ : Ground) (n : Name) : Γ.hierarchy.Declares (declaredType Γ n).1 := by
  unfold declaredType
  split
  · trivial
  · split
    · next h => exact h
    · exact ClassHierarchy.contains_root

/-- The type of a parameter is a class of the hierarchy. -/
theorem paramType_named (Γ : Ground) (n : Name) :
    ∃ c, (paramType Γ n).1 = .named c ∧ Γ.hierarchy.contains c = true := by
  unfold paramType
  have hn := declaredType_declares Γ n
  cases hty : declaredType Γ n with
  | mk ty rs =>
    rw [hty] at hn
    cases ty with
    | named c => exact ⟨c, rfl, hn⟩
    | selfType => exact ⟨_, rfl, ClassHierarchy.contains_root⟩

/-- Parameters have classes of the hierarchy as types, and the result has a declared type. -/
structure MethodDeclares (h : ClassHierarchy) (sig : MethodSig) : Prop where
  params : ∀ ty ∈ sig.params, ∃ c, ty = .named c ∧ h.contains c = true
  ret : h.Declares sig.ret

theorem methodSig_declares (Γ : Ground) (c : Symbol) (m : Method) :
    MethodDeclares Γ.hierarchy (methodSig Γ c m).1 := by
  refine ⟨fun ty hty => ?_, declaredType_declares Γ _⟩
  simp only [methodSig, List.map_map, List.mem_map] at hty
  obtain ⟨f, _, rfl⟩ := hty
  exact paramType_named Γ f.typeName

/-- A class with a table is declared. -/
theorem exists_class_of_get? (hw : WellFormedHierarchy t classes) {c : Symbol} {tab : ClassTable}
    (h : (collect t (hierarchyOf t classes) classes).1.get? c = some tab) :
    ∃ d ∈ classes, d.name.symbol = c := by
  have hc : (collect t (hierarchyOf t classes) classes).1.contains c = true :=
    contains_iff_mem_keys.mpr (SymbolMap.mem_keys_of_get? h)
  exact List.mem_map.mp (hw.contains_iff.mp ((contains_collect hw).mp hc))

/-- The types of a method are declared, whatever is wrong with its declaration. -/
theorem method_declares (hw : WellFormedHierarchy t classes) {c n : Symbol} {sig : MethodSig}
    (h : (collect t (hierarchyOf t classes) classes).1.method? c n = some sig) :
    MethodDeclares (hierarchyOf t classes) sig := by
  set s := (collect t (hierarchyOf t classes) classes).1
  have hall : ∀ d ∈ classes, ∀ tab, s.get? d.name.symbol = some tab → ∀ sig,
      tab.methods.get? n = some sig → MethodDeclares (hierarchyOf t classes) sig := by
    refine hierarchy_induction hw fun d hd ih tab htab sig hsig => ?_
    cases (collect_get? hw hd).symm.trans htab
    rcases methods_ownTable.1 sig hsig with hsig | ⟨m, _, _, rfl⟩
    · rcases inherited_eq hw d.name.symbol with hnone | ⟨e, he, hedge, tab, htab, heq⟩
      · rw [hnone] at hsig
        exact absurd hsig (by simp)
      · rw [heq] at hsig
        exact ih e he hedge tab htab sig hsig
    · exact methodSig_declares ⟨t, hierarchyOf t classes⟩ _ _
  simp only [method?, Option.bind_eq_bind, Option.bind_eq_some_iff] at h
  obtain ⟨tab, htab, hsig⟩ := h
  obtain ⟨d, hd, rfl⟩ := exists_class_of_get? hw htab
  exact hall d hd tab htab sig hsig

/-- Attributes have declared types, but for the slots of the primitive classes. Nothing inherits from
these, so it is enough that no other class of the basic file has slots. -/
theorem attr_declares (hw : WellFormedHierarchy t classes)
    (hslots : ∀ c ∈ classes, c.file = t.known .basicFile → ¬ t.IsPrimitive c.name.symbol →
      ∀ b ∈ c.attributes, b.typeName.symbol ≠ t.known .primSlot) {c n : Symbol} {a : AttrSig}
    (hprim : ¬ t.IsPrimitive c)
    (h : (collect t (hierarchyOf t classes) classes).1.attr? c n = some a) :
    (hierarchyOf t classes).Declares a.ty := by
  set s := (collect t (hierarchyOf t classes) classes).1
  have hall : ∀ d ∈ classes, ¬ t.IsPrimitive d.name.symbol → ∀ tab,
      s.get? d.name.symbol = some tab → ∀ a, tab.attrs.get? n = some a →
        (hierarchyOf t classes).Declares a.ty := by
    refine hierarchy_induction hw fun d hd ih hprim tab htab a ha => ?_
    cases (collect_get? hw hd).symm.trans htab
    rcases attrs_ownTable.2 a ha with ha | ⟨b, hb, _, rfl⟩
    · rcases inherited_eq hw d.name.symbol with hnone | ⟨e, he, hedge, tab, htab, heq⟩
      · rw [hnone] at ha
        exact absurd ha (by simp)
      · rw [heq] at ha
        exact ih e he hedge (soundEdge_of_get? hedge).openParent tab htab a ha
    · have hslot : ¬ ((d.file == t.known .basicFile) = true ∧ b.typeName.symbol = t.known .primSlot) :=
        fun h => hslots d hd (beq_iff_eq.mp h.1) hprim b hb h.2
      rw [attrType, if_neg hslot]
      exact declaredType_declares ⟨t, hierarchyOf t classes⟩ _
  simp only [attr?, Option.bind_eq_bind, Option.bind_eq_some_iff] at h
  obtain ⟨tab, htab, ha⟩ := h
  obtain ⟨d, hd, rfl⟩ := exists_class_of_get? hw htab
  exact hall d hd hprim tab htab a ha

/-! ## Descendants -/

/-- Along an edge the child starts from the table of the parent. -/
theorem tables_of_edge (hw : WellFormedHierarchy t classes) {d e : Symbol}
    (hedge : (hierarchyOf t classes).graph.get? d = some e) :
    let s := (collect t (hierarchyOf t classes) classes).1
    ∃ c ∈ classes, c.name.symbol = d ∧ ∃ tab, s.get? e = some tab ∧ s.get? d =
      some (ownTable ⟨t, hierarchyOf t classes⟩ c { tab with parent := some e }).1 ∧
        ((collect t (hierarchyOf t classes) classes).2 = [] →
          (ownTable ⟨t, hierarchyOf t classes⟩ c { tab with parent := some e }).2 = []) := by
  intro s
  obtain ⟨c, hc, rfl, _⟩ := (soundEdge_of_get? hedge).parentOf
  have htab := collect_get? hw hc
  dsimp only at htab
  rcases inherited_eq hw c.name.symbol with hnone | ⟨f, _, hedge', tab, htab', heq⟩
  · -- a class with a parent does not start from nothing
    have hparent : (inherited ⟨t, hierarchyOf t classes⟩ s c.name.symbol).parent = some e := by
      simp only [inherited, hedge]
    rw [hnone] at hparent
    exact absurd hparent (by simp)
  · cases hedge.symm.trans hedge'
    rw [heq] at htab
    refine ⟨c, hc, rfl, tab, htab', htab, fun hsilent => ?_⟩
    rw [collect_reports hw, List.flatMap_eq_nil_iff] at hsilent
    have hown := hsilent c ((mem_rootFirst_hierarchyOf hw).mpr hc)
    rwa [heq] at hown

/-- A class has the attributes of its ancestors. -/
theorem attr_of_reaches (hw : WellFormedHierarchy t classes) {c d n : Symbol} {a : AttrSig}
    (hdc : (hierarchyOf t classes).graph.Reaches d c)
    (h : (collect t (hierarchyOf t classes) classes).1.attr? c n = some a) :
    (collect t (hierarchyOf t classes) classes).1.attr? d n = some a := by
  induction hdc using Relation.ReflTransGen.head_induction_on with
  | refl => exact h
  | head hedge _ ih =>
    obtain ⟨c, _, _, tab, hparent, hchild, _⟩ := tables_of_edge hw hedge
    simp only [attr?, Option.bind_eq_bind, hparent, hchild, Option.bind_some] at ih ⊢
    exact attrs_ownTable.1 a ih

/-- If nothing was reported, a class has methods that agree with those of its ancestors. -/
theorem method_of_reaches (hw : WellFormedHierarchy t classes)
    (hsilent : (collect t (hierarchyOf t classes) classes).2 = []) {c d n : Symbol}
    {sig : MethodSig} (hdc : (hierarchyOf t classes).graph.Reaches d c)
    (h : (collect t (hierarchyOf t classes) classes).1.method? c n = some sig) :
    ∃ sig', (collect t (hierarchyOf t classes) classes).1.method? d n = some sig' ∧
      sig.Agrees sig' := by
  induction hdc using Relation.ReflTransGen.head_induction_on with
  | refl => exact ⟨sig, h, .refl sig⟩
  | head hedge _ ih =>
    obtain ⟨sig', hsig', hag⟩ := ih
    obtain ⟨c, _, _, tab, hparent, hchild, hlog⟩ := tables_of_edge hw hedge
    simp only [method?, Option.bind_eq_bind, hparent, hchild, Option.bind_some] at hsig' ⊢
    obtain ⟨sig'', hsig'', hag'⟩ := methods_ownTable.2 (hlog hsilent) sig' hsig'
    exact ⟨sig'', hsig'', hag.trans hag'⟩

end Signatures

end CoolTypes
