import CoolTypes.Proofs.Classes.Inherited

/-!
# Layout of a class table

What the features of a class make of the table with which it starts, entry by entry. Attributes that
are new are appended and the others change nothing; a method takes the place of an inherited one of
its name, or else is appended; of two methods of one class the first counts. So the entries with which
a class starts keep their places (`entries_attrs_ownTable`, `keys_methods_ownTable`), and a name means
what `get?_attrs_ownTable` and `get?_methods_ownTable` say.
-/

namespace CoolTypes

/-- The names that are not taken yet, each at the place where it comes first. -/
def newNames (taken names : List Symbol) : List Symbol :=
  (names.filter fun n => decide (n ∉ taken)).eraseDups

section NewNames

variable {taken names : List Symbol} {n : Symbol}

@[simp] theorem newNames_nil : newNames taken [] = [] := by simp [newNames]

theorem newNames_cons_of_mem (h : n ∈ taken) : newNames taken (n :: names) = newNames taken names := by
  simp [newNames, h]

/-- A new name is taken for the rest of the list. -/
theorem newNames_cons_of_not_mem (h : n ∉ taken) :
    newNames taken (n :: names) = n :: newNames (taken ++ [n]) names := by
  have hfilter : ((names.filter fun m => decide (m ∉ taken)).filter fun m => !m == n) =
      names.filter fun m => decide (m ∉ taken ++ [n]) := by
    rw [List.filter_filter]
    apply List.filter_congr
    intro m _
    by_cases hm : m ∈ taken <;> by_cases hn : m = n <;> simp [hm, hn]
  simp only [newNames]
  rw [List.filter_cons_of_pos (by simpa using h), List.eraseDups_cons, hfilter]

end NewNames

namespace Signatures

variable {Γ : Ground}

/-! ## Attributes -/

section Attributes

variable {c : Symbol} {basic : Bool} {acc : Collected} {b : Binding}

/-- The names of attributes that can get an entry. -/
def attrNames (Γ : Ground) (bs : List Binding) : List Symbol :=
  (bs.map (·.name.symbol)).filter fun n => decide (n ≠ Γ.tables.known .self)

/-- The entries that are there stay in front, and the new names follow in order. -/
theorem entries_foldl_addAttr (bs : List Binding) (acc : Collected) :
    ∃ new, (bs.foldl (addAttr Γ c basic) acc).1.attrs.entries = acc.1.attrs.entries ++ new ∧
      new.map Prod.fst = newNames acc.1.attrs.keys (attrNames Γ bs) := by
  induction bs generalizing acc with
  | nil => exact ⟨[], by simp [attrNames]⟩
  | cons b rest ih =>
    obtain ⟨new, hentries, hnew⟩ := ih (addAttr Γ c basic acc b)
    rw [List.foldl_cons]
    by_cases hself : b.name.symbol = Γ.tables.known .self
    · -- `self` is no new name
      rw [addAttr_of_known (.inl hself)] at hentries hnew
      refine ⟨new, hentries, hnew.trans ?_⟩
      simp [attrNames, hself]
    · have hnames : attrNames Γ (b :: rest) = b.name.symbol :: attrNames Γ rest := by
        simp [attrNames, hself]
      rw [hnames]
      by_cases hmem : b.name.symbol ∈ acc.1.attrs.keys
      · rw [addAttr_of_known (.inr hmem)] at hentries hnew
        exact ⟨new, hentries, hnew.trans (newNames_cons_of_mem hmem).symm⟩
      · rw [addAttr_of_new hself hmem] at hentries hnew
        let sig : AttrSig := ⟨(attrType Γ basic b.typeName).1, c⟩
        have hinsert : setEntry b.name.symbol sig acc.1.attrs.entries =
            acc.1.attrs.entries ++ [(b.name.symbol, sig)] :=
          SymbolMap.setEntry_of_not_mem hmem
        refine ⟨(b.name.symbol, sig) :: new, ?_, ?_⟩
        · rw [hentries]
          show setEntry _ _ acc.1.attrs.entries ++ new = _
          rw [hinsert, List.append_assoc, List.singleton_append]
        · rw [newNames_cons_of_not_mem hmem, List.map_cons, hnew]
          show _ :: newNames (acc.1.attrs.insert _ _).keys _ = _
          rw [SymbolMap.keys_insert, if_neg hmem]

/-- A name keeps the entry that it has; otherwise it gets that of its first attribute. -/
theorem get?_foldl_addAttr (bs : List Binding) (acc : Collected) {n : Symbol}
    (hself : n ≠ Γ.tables.known .self) :
    (bs.foldl (addAttr Γ c basic) acc).1.attrs.get? n =
      (acc.1.attrs.get? n).or ((bs.find? (·.name.symbol == n)).map fun b =>
        ⟨(attrType Γ basic b.typeName).1, c⟩) := by
  induction bs generalizing acc with
  | nil => simp
  | cons b rest ih =>
    rw [List.foldl_cons, ih]
    by_cases hn : b.name.symbol = n
    · subst hn
      rw [List.find?_cons_of_pos (by simp)]
      by_cases hmem : b.name.symbol ∈ acc.1.attrs.keys
      · -- the entry that is there counts on both sides
        rw [addAttr_of_known (.inr hmem)]
        obtain ⟨a, ha⟩ := Option.isSome_iff_exists.mp (SymbolMap.contains_iff_mem_keys.mpr hmem)
        simp [ha]
      · rw [addAttr_of_new hself hmem, SymbolMap.get?_insert, if_pos rfl,
          SymbolMap.get?_eq_none_iff.mpr hmem]
        simp
    · have hsame : (addAttr Γ c basic acc b).1.attrs.get? n = acc.1.attrs.get? n := by
        rcases addAttr_cases Γ c basic acc b with htable | ⟨_, _, htable⟩
        · rw [htable]
        · rw [htable, SymbolMap.get?_insert, if_neg (Ne.symm hn)]
      rw [hsame, List.find?_cons_of_neg (by simpa using hn)]

/-- No attribute is called `self`. -/
theorem get?_self_foldl_addAttr (bs : List Binding) (acc : Collected)
    (h : acc.1.attrs.get? (Γ.tables.known .self) = none) :
    (bs.foldl (addAttr Γ c basic) acc).1.attrs.get? (Γ.tables.known .self) = none := by
  induction bs generalizing acc with
  | nil => exact h
  | cons b rest ih =>
    apply ih
    rcases addAttr_cases Γ c basic acc b with htable | ⟨hself, _, htable⟩
    · rwa [htable]
    · rwa [htable, SymbolMap.get?_insert, if_neg (Ne.symm hself)]

end Attributes

/-! ## Methods -/

section Methods

variable {c : Symbol} {acc : Collected} {m : Method}

/-- The names that are there stay in front, and the new ones follow in order. -/
theorem keys_foldl_addMethod (ms : List Method) (acc : Collected) :
    (ms.foldl (addMethod Γ c) acc).1.methods.keys =
      acc.1.methods.keys ++ newNames acc.1.methods.keys (ms.map (·.name.symbol)) := by
  induction ms generalizing acc with
  | nil => simp
  | cons m rest ih =>
    rw [List.foldl_cons, ih, List.map_cons]
    rcases addMethod_cases Γ c acc m with ⟨sig, hget, _, htable⟩ | ⟨_, htable⟩
    · rw [htable, newNames_cons_of_mem (SymbolMap.mem_keys_of_get? hget)]
    · rw [htable]
      dsimp only
      rw [SymbolMap.keys_insert]
      by_cases hmem : m.name.symbol ∈ acc.1.methods.keys
      · rw [if_pos hmem, newNames_cons_of_mem hmem]
      · rw [if_neg hmem, newNames_cons_of_not_mem hmem, List.append_assoc, List.singleton_append]

theorem get?_addMethod_of_ne {n : Symbol} (hn : n ≠ m.name.symbol) :
    (addMethod Γ c acc m).1.methods.get? n = acc.1.methods.get? n := by
  rcases addMethod_cases Γ c acc m with ⟨_, _, _, htable⟩ | ⟨_, htable⟩
  · rw [htable]
  · rw [htable, SymbolMap.get?_insert, if_neg hn]

/-- The entry of a method of the class itself stays. -/
theorem get?_foldl_addMethod_of_own (ms : List Method) {acc : Collected} {n : Symbol}
    {sig : MethodSig} (h : acc.1.methods.get? n = some sig) (hc : sig.definedIn = c) :
    (ms.foldl (addMethod Γ c) acc).1.methods.get? n = some sig := by
  induction ms generalizing acc with
  | nil => exact h
  | cons m rest ih =>
    apply ih
    by_cases hn : n = m.name.symbol
    · rw [addMethod_of_own (hn ▸ h) hc]
      exact h
    · rw [get?_addMethod_of_ne hn]
      exact h

/-- A name stands for the first method of the class that has it, or else for what it stood for. -/
theorem get?_foldl_addMethod (ms : List Method) {acc : Collected} {n : Symbol}
    (h : ∀ sig, acc.1.methods.get? n = some sig → sig.definedIn ≠ c) :
    (ms.foldl (addMethod Γ c) acc).1.methods.get? n =
      ((ms.find? (·.name.symbol == n)).map fun m => (methodSig Γ c m).1).or
        (acc.1.methods.get? n) := by
  induction ms generalizing acc with
  | nil => simp
  | cons m rest ih =>
    rw [List.foldl_cons]
    by_cases hn : m.name.symbol = n
    · subst hn
      rw [List.find?_cons_of_pos (by simp)]
      -- from here on the entry is one of the class itself
      have hget : (addMethod Γ c acc m).1.methods.get? m.name.symbol =
          some (methodSig Γ c m).1 := by
        rw [addMethod_of_new h, SymbolMap.get?_insert, if_pos rfl]
      have hown : (methodSig Γ c m).1.definedIn = c := rfl
      rw [get?_foldl_addMethod_of_own rest hget hown]
      simp
    · have hsame : (addMethod Γ c acc m).1.methods.get? n = acc.1.methods.get? n :=
        get?_addMethod_of_ne (Ne.symm hn)
      rw [ih (by rwa [hsame]), hsame, List.find?_cons_of_neg (by simpa using hn)]

end Methods

/-! ## All features of a class -/

variable {c : Class} {start : ClassTable}

theorem entries_attrs_ownTable : ∃ new, (ownTable Γ c start).1.attrs.entries =
      start.attrs.entries ++ new ∧
    new.map Prod.fst = newNames start.attrs.keys (attrNames Γ c.attributes) := by
  rw [ownTable, attrs_foldl_addMethod]
  exact entries_foldl_addAttr c.attributes (start, [])

theorem get?_attrs_ownTable {n : Symbol} (hself : n ≠ Γ.tables.known .self) :
    (ownTable Γ c start).1.attrs.get? n =
      (start.attrs.get? n).or ((c.attributes.find? (·.name.symbol == n)).map fun b =>
        ⟨(attrType Γ (c.file == Γ.tables.known .basicFile) b.typeName).1, c.name.symbol⟩) := by
  rw [ownTable, attrs_foldl_addMethod]
  exact get?_foldl_addAttr c.attributes (start, []) hself

theorem get?_self_ownTable (h : start.attrs.get? (Γ.tables.known .self) = none) :
    (ownTable Γ c start).1.attrs.get? (Γ.tables.known .self) = none := by
  rw [ownTable, attrs_foldl_addMethod]
  exact get?_self_foldl_addAttr c.attributes (start, []) h

theorem keys_methods_ownTable : (ownTable Γ c start).1.methods.keys =
    start.methods.keys ++ newNames start.methods.keys (c.methods.map (·.name.symbol)) := by
  rw [ownTable, keys_foldl_addMethod, methods_foldl_addAttr]

theorem get?_methods_ownTable {n : Symbol}
    (h : ∀ sig, start.methods.get? n = some sig → sig.definedIn ≠ c.name.symbol) :
    (ownTable Γ c start).1.methods.get? n =
      ((c.methods.find? (·.name.symbol == n)).map fun m => (methodSig Γ c.name.symbol m).1).or
        (start.methods.get? n) := by
  rw [ownTable, get?_foldl_addMethod]
  · rw [methods_foldl_addAttr]
  · rw [methods_foldl_addAttr]
    exact h

end Signatures

end CoolTypes
