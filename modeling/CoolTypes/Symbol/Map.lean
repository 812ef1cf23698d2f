import CoolTypes.Symbol.Basic

/-!
# Maps from symbols

A finite map from symbols that keeps its keys in the order of their first insertion. A second
insertion for a key changes its value and leaves its place.
-/

namespace CoolTypes

/-- The pairs with the value of one key set, at the place of the key or else at the end. -/
def setEntry {α : Type} (key : Symbol) (value : α) : List (Symbol × α) → List (Symbol × α)
  | [] => [(key, value)]
  | (k, v) :: rest => if k = key then (key, value) :: rest else (k, v) :: setEntry key value rest

theorem keys_setEntry {α : Type} (key : Symbol) (value : α) (entries : List (Symbol × α)) :
    (setEntry key value entries).map Prod.fst =
      if key ∈ entries.map Prod.fst then entries.map Prod.fst
      else entries.map Prod.fst ++ [key] := by
  induction entries with
  | nil => rfl
  | cons e rest ih =>
    obtain ⟨k, v⟩ := e
    by_cases h : k = key
    · simp [setEntry, h]
    · have h' : ¬ key = k := fun e => h e.symm
      by_cases hm : key ∈ rest.map Prod.fst <;> simp_all [setEntry]

theorem lookup_setEntry {α : Type} (key k : Symbol) (value : α) (entries : List (Symbol × α)) :
    (setEntry key value entries).lookup k = if k = key then some value else entries.lookup k := by
  induction entries with
  | nil =>
    by_cases h : k = key
    · simp [setEntry, h]
    · have hb : (k == key) = false := by simpa using h
      simp [setEntry, h, List.lookup_cons, hb]
  | cons e rest ih =>
    obtain ⟨k', v⟩ := e
    by_cases h : k' = key
    · subst h
      by_cases hk : k = k'
      · simp [setEntry, hk]
      · have hb : (k == k') = false := by simpa using hk
        simp [setEntry, hk, List.lookup_cons, hb]
    · by_cases hk : k = k'
      · subst hk; simp [setEntry, h]
      · have hb : (k == k') = false := by simpa using hk
        simp [setEntry, h, List.lookup_cons, hb, ih]

/-- A finite map from symbols. -/
structure SymbolMap (α : Type) where
  entries : List (Symbol × α)
  nodup : (entries.map Prod.fst).Nodup

namespace SymbolMap

variable {α : Type}

/-- The map without keys. -/
def empty : SymbolMap α := ⟨[], List.nodup_nil⟩

instance : Inhabited (SymbolMap α) := ⟨empty⟩

/-- Sets the value of a key. -/
def insert (m : SymbolMap α) (key : Symbol) (value : α) : SymbolMap α where
  entries := setEntry key value m.entries
  nodup := by
    rw [keys_setEntry]
    by_cases h : key ∈ m.entries.map Prod.fst
    · rw [if_pos h]; exact m.nodup
    · rw [if_neg h, List.nodup_append]
      refine ⟨m.nodup, by simp, fun a ha b hb e => h ?_⟩
      rw [← List.mem_singleton.mp hb, ← e]; exact ha

/-- The map with these pairs, set one after the other. -/
def ofList (pairs : List (Symbol × α)) : SymbolMap α :=
  pairs.foldl (fun m p => m.insert p.1 p.2) empty

/-- The value of a key. -/
def get? (m : SymbolMap α) (key : Symbol) : Option α := m.entries.lookup key

/-- Whether a key has a value. -/
def contains (m : SymbolMap α) (key : Symbol) : Bool := (m.get? key).isSome

/-- The keys in order. -/
def keys (m : SymbolMap α) : List Symbol := m.entries.map Prod.fst

/-- Number of keys. -/
def size (m : SymbolMap α) : Nat := m.entries.length

@[simp] theorem get?_empty (key : Symbol) : (empty : SymbolMap α).get? key = none := rfl

theorem get?_insert (m : SymbolMap α) (key k : Symbol) (value : α) :
    (m.insert key value).get? k = if k = key then some value else m.get? k :=
  lookup_setEntry key k value m.entries

/-- A value that is there after an insertion was there before or is the new one. -/
theorem get?_insert_cases {m : SymbolMap α} {key k : Symbol} {value a : α}
    (h : (m.insert key value).get? k = some a) : m.get? k = some a ∨ key = k ∧ a = value := by
  rw [get?_insert] at h
  by_cases hk : k = key
  · rw [if_pos hk] at h
    exact .inr ⟨hk.symm, (Option.some.inj h).symm⟩
  · rw [if_neg hk] at h
    exact .inl h

theorem keys_insert (m : SymbolMap α) (key : Symbol) (value : α) :
    (m.insert key value).keys = if key ∈ m.keys then m.keys else m.keys ++ [key] :=
  keys_setEntry key value m.entries

theorem setEntry_of_not_mem {entries : List (Symbol × α)} {key : Symbol} {value : α}
    (h : key ∉ entries.map Prod.fst) : setEntry key value entries = entries ++ [(key, value)] := by
  induction entries with
  | nil => rfl
  | cons e rest ih =>
    obtain ⟨k, v⟩ := e
    simp only [List.map_cons, List.mem_cons, not_or] at h
    have hk : ¬ k = key := fun e => h.1 e.symm
    simp only [setEntry, if_neg hk, ih h.2, List.cons_append]

/-- Pairs with distinct keys are kept as they are. -/
theorem entries_ofList {pairs : List (Symbol × α)} (h : (pairs.map Prod.fst).Nodup) :
    (ofList pairs).entries = pairs := by
  have hfold : ∀ (rest : List (Symbol × α)) (m : SymbolMap α),
      ((m.entries ++ rest).map Prod.fst).Nodup →
        (rest.foldl (fun m p => m.insert p.1 p.2) m).entries = m.entries ++ rest := by
    intro rest
    induction rest with
    | nil => simp
    | cons p rest ih =>
      intro m hm
      have hnew : p.1 ∉ m.entries.map Prod.fst := by
        rw [List.map_append, List.nodup_append] at hm
        exact fun hp => hm.2.2 p.1 hp p.1 (by simp) rfl
      have hins : (m.insert p.1 p.2).entries = m.entries ++ [p] := setEntry_of_not_mem hnew
      rw [List.foldl_cons, ih _ (by rw [hins]; simpa using hm), hins]
      simp
  exact hfold pairs empty h

theorem get?_eq_some_iff {m : SymbolMap α} {key : Symbol} {value : α} :
    m.get? key = some value ↔ (key, value) ∈ m.entries := by
  obtain ⟨entries, hnodup⟩ := m
  simp only [get?]
  induction entries with
  | nil => simp
  | cons e rest ih =>
    obtain ⟨k, v⟩ := e
    rw [List.map_cons, List.nodup_cons] at hnodup
    by_cases h : key = k
    · subst h
      have hrest : (key, value) ∉ rest := fun hm =>
        hnodup.1 (List.mem_map.mpr ⟨(key, value), hm, rfl⟩)
      simp [hrest, eq_comm]
    · have hb : (key == k) = false := by simpa using h
      simp [List.lookup_cons, hb, ih hnodup.2, h]

/-- A key with a value has this one entry. -/
theorem filter_entries {m : SymbolMap α} {key : Symbol} {value : α}
    (h : m.get? key = some value) : m.entries.filter (·.1 = key) = [(key, value)] := by
  have hmem := get?_eq_some_iff.mp h
  obtain ⟨pre, post, hsplit⟩ := List.append_of_mem hmem
  have hnodup := m.nodup
  rw [hsplit, List.map_append, List.map_cons, List.nodup_append, List.nodup_cons] at hnodup
  obtain ⟨_, ⟨hpost, _⟩, hpre⟩ := hnodup
  rw [hsplit, List.filter_append, List.filter_cons_of_pos (by simp)]
  rw [List.filter_eq_nil_iff.mpr, List.filter_eq_nil_iff.mpr, List.nil_append]
  · intro e he hkey
    exact hpost (List.mem_map.mpr ⟨e, he, by simpa using hkey⟩)
  · intro e he hkey
    exact hpre e.1 (List.mem_map_of_mem he) key List.mem_cons_self (by simpa using hkey)

theorem lookup_isSome_iff {entries : List (Symbol × α)} {key : Symbol} :
    (entries.lookup key).isSome ↔ key ∈ entries.map Prod.fst := by
  induction entries with
  | nil => simp
  | cons e rest ih =>
    obtain ⟨k, v⟩ := e
    by_cases h : key = k
    · simp [h]
    · have hb : (key == k) = false := by simpa using h
      simp [List.lookup_cons, hb, ih, h]

theorem contains_iff_mem_keys {m : SymbolMap α} {key : Symbol} :
    m.contains key = true ↔ key ∈ m.keys :=
  lookup_isSome_iff

theorem mem_keys_of_get? {m : SymbolMap α} {key : Symbol} {value : α}
    (h : m.get? key = some value) : key ∈ m.keys :=
  contains_iff_mem_keys.mp (by simp [contains, h])

theorem get?_eq_none_iff {m : SymbolMap α} {key : Symbol} :
    m.get? key = none ↔ key ∉ m.keys := by
  rw [← contains_iff_mem_keys, contains]
  simp

end SymbolMap

end CoolTypes
