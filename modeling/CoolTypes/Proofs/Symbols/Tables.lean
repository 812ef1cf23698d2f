import CoolTypes.Proofs.Symbols.Membership
import Mathlib.Data.List.Nodup

/-!
# Tables from lists of texts

A list of texts is made into a table by adding one text after the other, and the first one that has an entry
already is refused. So the lists that make tables are those without repetitions, and they are the entries of
their tables (`Interner.ofList_eq_ok_iff`, `Interner.ofList_eq_error_iff`). The well-known names that a table
has not are added behind its entries, so that no symbol changes its text, and a table that has all of them
stays as it is (`tables_load_without_duplicates`).
-/

namespace CoolTypes

/-- The text is the first one of a list that stands in it before. -/
def FirstRepeat (texts : List String) (text : String) : Prop :=
  ∃ before after, texts = before ++ text :: after ∧ before.Nodup ∧ text ∈ before

namespace Interner

theorem insert_of_mem {t : Interner} {text : String} (h : text ∈ t.entries) :
    t.insert text = t := dif_pos h

theorem entries_insert_of_not_mem {t : Interner} {text : String} (h : text ∉ t.entries) :
    (t.insert text).entries = t.entries ++ [text] := by
  rw [entries_insert, if_neg h]

/-! ## Numbers of 32 bits -/

theorem addNarrow_eq {t : Interner} {text : String} (h : (t.insert text).size ≤ UInt32.size) :
    t.addNarrow text = (some (t.add text).1, (t.add text).2) := by
  by_cases hmem : text ∈ t.entries
  · have hlt : t.entries.idxOf text < UInt32.size :=
      Nat.lt_of_lt_of_le (List.idxOf_lt_length_iff.mpr hmem) (insert_of_mem hmem ▸ h)
    rw [addNarrow, if_pos hmem, Nat.mod_eq_of_lt hlt, add, insert_of_mem hmem]
  · have hlt : t.size < UInt32.size := by
      rw [size, entries_insert_of_not_mem hmem, List.length_append, List.length_singleton] at h
      exact h
    rw [addNarrow, if_neg hmem, if_pos hlt, add, List.idxOf_eq_length hmem]
    rfl

theorem addOrFault_eq {t : Interner} {text : String} (h : (t.insert text).size ≤ UInt32.size) :
    t.addOrFault text = .ok (t.add text) := by
  rw [addOrFault, addNarrow_eq h]

/-- A text is added as it would be without a bound, or there is no number for it. -/
theorem addOrFault_cases (t : Interner) (text : String) :
    (∃ s, t.addOrFault text = .ok (s, t.insert text)) ∨
      t.addOrFault text = .error .tableOverflow := by
  by_cases hmem : text ∈ t.entries
  · refine .inl ⟨⟨t.entries.idxOf text % UInt32.size⟩, ?_⟩
    rw [addOrFault, addNarrow, if_pos hmem, insert_of_mem hmem]
  · by_cases hlt : t.size < UInt32.size
    · refine .inl ⟨⟨t.size⟩, ?_⟩
      rw [addOrFault, addNarrow, if_neg hmem, if_pos hlt]
    · refine .inr ?_
      rw [addOrFault, addNarrow, if_neg hmem, if_neg hlt]

/-- Texts that are new to a table and to each other are all taken. -/
theorem extend_eq_ok {t : Interner} {texts : List String} (h : (t.entries ++ texts).Nodup) :
    ∃ u, t.extend texts = .ok u ∧ u.entries = t.entries ++ texts := by
  induction texts generalizing t with
  | nil => exact ⟨t, rfl, by simp⟩
  | cons text rest ih =>
    have hnew : text ∉ t.entries := by
      intro hmem
      rw [List.nodup_append] at h
      exact h.2.2 text hmem text List.mem_cons_self rfl
    have hentries := entries_insert_of_not_mem hnew
    obtain ⟨u, hu, hall⟩ := @ih (t.insert text) (by rw [hentries]; simpa using h)
    refine ⟨u, ?_, ?_⟩
    · rw [extend, if_neg hnew, hu]
    · rw [hall, hentries]
      simp

/-- Texts that are taken are the last entries of the new table. -/
theorem entries_extend {t u : Interner} {texts : List String} (h : t.extend texts = .ok u) :
    u.entries = t.entries ++ texts := by
  induction texts generalizing t with
  | nil =>
    cases h
    simp
  | cons text rest ih =>
    by_cases hmem : text ∈ t.entries
    · rw [extend, if_pos hmem] at h
      cases h
    · rw [extend, if_neg hmem] at h
      rw [ih h, entries_insert_of_not_mem hmem]
      simp

/-- The text that is refused has an entry or stands in the list before, and all before it are taken. -/
theorem extend_eq_error_iff {t : Interner} {texts : List String} {e : DuplicateEntry} :
    t.extend texts = .error e ↔ ∃ before after, texts = before ++ e.text :: after ∧
      (t.entries ++ before).Nodup ∧ e.text ∈ t.entries ++ before := by
  induction texts generalizing t with
  | nil => simp [extend]
  | cons text rest ih =>
    by_cases hmem : text ∈ t.entries
    · rw [extend, if_pos hmem]
      constructor
      · intro h
        cases h
        exact ⟨[], rest, rfl, by simpa using t.nodup, by simpa using hmem⟩
      · rintro ⟨before, after, hsplit, hnodup, -⟩
        cases before with
        | nil => cases hsplit; rfl
        | cons x before =>
          cases hsplit
          rw [List.nodup_append] at hnodup
          exact absurd rfl (hnodup.2.2 text hmem text List.mem_cons_self)
    · have hentries := entries_insert_of_not_mem hmem
      rw [extend, if_neg hmem, ih, hentries]
      constructor
      · rintro ⟨before, after, rfl, hnodup, he⟩
        exact ⟨text :: before, after, rfl, by simpa using hnodup, by simpa using he⟩
      · rintro ⟨before, after, hsplit, hnodup, he⟩
        cases before with
        | nil =>
          -- the refused text would be the first of the list, which is taken
          cases hsplit
          exact absurd (by simpa using he) hmem
        | cons x before =>
          cases hsplit
          exact ⟨before, after, rfl, by simpa using hnodup, by simpa using he⟩

/-- The lists that make tables are those that tables have as their entries. -/
theorem ofList_eq_ok_iff {texts : List String} {t : Interner} :
    ofList texts = .ok t ↔ t.entries = texts := by
  constructor
  · intro h
    simpa using entries_extend h
  · rintro rfl
    have hnodup : (empty.entries ++ t.entries).Nodup := by simpa using t.nodup
    obtain ⟨u, hu, hall⟩ := extend_eq_ok hnodup
    rw [ofList, hu]
    congr 1
    exact ext (by simpa using hall)

/-- A table is made from the list of its texts. -/
theorem ofList_entries (t : Interner) : ofList t.entries = .ok t := ofList_eq_ok_iff.mpr rfl

theorem exists_ofList_iff {texts : List String} : (∃ t, ofList texts = .ok t) ↔ texts.Nodup := by
  constructor
  · rintro ⟨t, h⟩
    exact ofList_eq_ok_iff.mp h ▸ t.nodup
  · exact fun h => ⟨⟨texts, h⟩, ofList_entries ⟨texts, h⟩⟩

theorem ofList_eq_error_iff {texts : List String} {e : DuplicateEntry} :
    ofList texts = .error e ↔ FirstRepeat texts e.text := by
  show empty.extend texts = .error e ↔ _
  rw [extend_eq_error_iff]
  rfl

/-- A text and its position in the list are text and symbol of each other. -/
theorem get?_ofList {texts : List String} {t : Interner} (h : ofList texts = .ok t) (i : Nat) :
    t.get? ⟨i⟩ = texts[i]? := by
  rw [get?, ofList_eq_ok_iff.mp h]

/-! ## Adding texts that may be there -/

/-- The texts without an entry are added behind, in their order. -/
theorem entries_foldl_insert {texts : List String} (h : texts.Nodup) (t : Interner) :
    (texts.foldl insert t).entries = t.entries ++ texts.filter (· ∉ t.entries) := by
  induction texts generalizing t with
  | nil => simp
  | cons text rest ih =>
    obtain ⟨hnot, hrest⟩ := List.nodup_cons.mp h
    rw [List.foldl_cons, ih hrest]
    by_cases hmem : text ∈ t.entries
    · rw [insert_of_mem hmem, List.filter_cons_of_neg (by simpa using hmem)]
    · have hsame : rest.filter (· ∉ (t.insert text).entries) = rest.filter (· ∉ t.entries) := by
        apply List.filter_congr
        intro other hother
        have hne : other ≠ text := fun heq => hnot (heq ▸ hother)
        simp [mem_entries_insert, hne]
      rw [hsame, entries_insert_of_not_mem hmem, List.filter_cons_of_pos (by simpa using hmem)]
      simp

/-! ## Adding the well-known names -/

theorem insertAll_eq_foldl (t : Interner) (names : List WellKnown) :
    t.insertAll names = (names.map WellKnown.text).foldl insert t := by
  rw [insertAll, List.foldl_map]

/-- Names that a table has are not added to it. -/
theorem insertAll_of_mem {t : Interner} {names : List WellKnown}
    (h : ∀ w ∈ names, w.text ∈ t.entries) : t.insertAll names = t := by
  induction names with
  | nil => rfl
  | cons w rest ih =>
    show (t.insert w.text).insertAll rest = t
    rw [insert_of_mem (h w List.mem_cons_self)]
    exact ih fun v hv => h v (List.mem_cons_of_mem _ hv)

/-- Adds the names of a list one after the other, and gives the symbol that each of them gets. -/
def addAll : List WellKnown → StateM Interner (List Symbol)
  | [] => pure []
  | w :: rest => do
    let s ← fun t => t.add w.text
    return s :: (← addAll rest)

/-- Each name keeps the symbol that it gets, whatever is added after it. -/
theorem addAll_run (names : List WellKnown) (t : Interner) :
    (addAll names).run t =
      (names.map fun w => ⟨(t.insertAll names).entries.idxOf w.text⟩, t.insertAll names) := by
  induction names generalizing t with
  | nil => rfl
  | cons w rest ih =>
    -- the symbol is the one in the table at this time, and later names leave the entry where it is
    have hrun : (addAll (w :: rest)).run t =
        ((t.add w.text).1 :: ((addAll rest).run (t.insert w.text)).1,
          ((addAll rest).run (t.insert w.text)).2) := rfl
    have hfinal : t.insertAll (w :: rest) = (t.insert w.text).insertAll rest := rfl
    have hkept : ((t.insert w.text).insertAll rest).get? (t.add w.text).1 = some w.text :=
      get?_of_prefix (entries_prefix_insertAll _ rest) (t.get?_add w.text)
    have hfound : ((t.insert w.text).insertAll rest).find? w.text =
        some ⟨((t.insert w.text).insertAll rest).entries.idxOf w.text⟩ :=
      if_pos (hfinal ▸ t.text_mem_insertAll List.mem_cons_self)
    rw [hrun, ih, hfinal, List.map_cons, get?_injective hkept (find?_eq_some_iff.mp hfound)]

end Interner

theorem WellKnown.nodup_texts : (WellKnown.all.map WellKnown.text).Nodup :=
  List.pairwise_map.mpr <| (by decide : all.Nodup).imp fun hne htext => hne (text_injective htext)

namespace SymbolTables

variable (ids strings ints : Interner)

theorem ids_ofParts : (ofParts ids strings ints).ids = ids.insertAll WellKnown.all := by
  simp only [ofParts]

theorem entries_ids_ofParts : (ofParts ids strings ints).ids.entries =
    ids.entries ++ (WellKnown.all.map WellKnown.text).filter (· ∉ ids.entries) := by
  rw [ids_ofParts, Interner.insertAll_eq_foldl, Interner.entries_foldl_insert WellKnown.nodup_texts]

/-- The symbol of each well-known name is the one that it gets when it is added. -/
theorem addAll_ofParts : (Interner.addAll WellKnown.all).run ids =
    (WellKnown.all.map (ofParts ids strings ints).known, (ofParts ids strings ints).ids) := by
  have hknown : (ofParts ids strings ints).known =
      fun w => ⟨(ids.insertAll WellKnown.all).entries.idxOf w.text⟩ := by
    funext w
    rw [known, ids_ofParts]
  rw [Interner.addAll_run, hknown, ids_ofParts]

/-- The symbols of the identifiers that are given stand for the same texts afterwards. -/
theorem get?_ofParts {s : Symbol} {text : String} (h : ids.get? s = some text) :
    (ofParts ids strings ints).ids.get? s = some text := by
  rw [ids_ofParts]
  exact Interner.get?_of_prefix (ids.entries_prefix_insertAll WellKnown.all) h

theorem name_known (t : SymbolTables) (w : WellKnown) : t.name (t.known w) = .ok w.text :=
  Interner.lookup_eq_ok_iff.mpr (t.get?_known w)

/-- The parts of tables make up the tables again. -/
theorem ofParts_self (t : SymbolTables) : ofParts t.ids t.strings t.ints = t := by
  have hids : t.ids.insertAll WellKnown.all = t.ids :=
    Interner.insertAll_of_mem fun w _ => t.complete w
  obtain ⟨ids, strings, ints, complete⟩ := t
  simp only [ofParts]
  congr 1

end SymbolTables

/-- A list of texts makes a table if and only if no text is in it twice. Then the table has the list as its
entries, and the text at a position has this position as its symbol; otherwise the first text that stands in
the list before is the reason. Tables made from three such tables keep all entries where they are, with the
well-known names that are missing behind the identifiers, each once and in their order. Each well-known name
has the symbol that it gets when it is added, this symbol stands for its text, and no two names share one.
Tables made from the parts of such tables are the same tables. -/
theorem tables_load_without_duplicates :
    (∀ texts : List String,
      ((∃ t, Interner.ofList texts = .ok t) ↔ texts.Nodup) ∧
      (∀ t, Interner.ofList texts = .ok t → t.entries = texts ∧
        ∀ (i : Nat) (text : String), (t.get? ⟨i⟩ = some text ↔ texts[i]? = some text) ∧
          (t.find? text = some ⟨i⟩ ↔ texts[i]? = some text)) ∧
      ∀ e, Interner.ofList texts = .error e ↔ FirstRepeat texts e.text) ∧
    ∀ ids strings ints : Interner,
      let t := SymbolTables.ofParts ids strings ints
      (∀ s text, ids.get? s = some text → t.ids.get? s = some text) ∧
      t.ids.entries = ids.entries ++ (WellKnown.all.map WellKnown.text).filter (· ∉ ids.entries) ∧
      t.strings = strings ∧ t.ints = ints ∧
      (Interner.addAll WellKnown.all).run ids = (WellKnown.all.map t.known, t.ids) ∧
      (∀ w, t.name (t.known w) = .ok w.text ∧ t.ids.entries.count w.text = 1) ∧
      Function.Injective t.known ∧ SymbolTables.ofParts t.ids t.strings t.ints = t := by
  refine ⟨fun texts => ⟨Interner.exists_ofList_iff, fun t ht => ?_, fun e =>
    Interner.ofList_eq_error_iff⟩, fun ids strings ints => ?_⟩
  · refine ⟨Interner.ofList_eq_ok_iff.mp ht, fun i text => ?_⟩
    rw [Interner.find?_eq_some_iff, Interner.get?_ofList ht]
    exact ⟨Iff.rfl, Iff.rfl⟩
  · intro t
    refine ⟨fun _ _ => SymbolTables.get?_ofParts ids strings ints,
      SymbolTables.entries_ids_ofParts ids strings ints, rfl, rfl,
      SymbolTables.addAll_ofParts ids strings ints, fun w => ⟨t.name_known w, ?_⟩,
      fun _ _ => SymbolTables.known_injective, t.ofParts_self⟩
    exact List.count_eq_one_of_mem t.ids.nodup (t.complete w)

theorem tables_load_without_duplicates_mixed :
    Interner.ofList ["x", "y", "x", "y"] = .error ⟨"x"⟩ ∧
    ∃ ids, Interner.ofList ["Foo", "self", "Main"] = .ok ids ∧ ids.find? "Main" = some ⟨2⟩ ∧
      (SymbolTables.ofParts ids .empty .empty).ids.get? ⟨2⟩ = some "Main" ∧
      (SymbolTables.ofParts ids .empty .empty).ids.get? ⟨3⟩ = some "Object" ∧
      (SymbolTables.ofParts ids .empty .empty).name
        ((SymbolTables.ofParts ids .empty .empty).known .main) = .ok "Main" := by
  obtain ⟨hlists, htables⟩ := tables_load_without_duplicates
  obtain ⟨ids, hids⟩ := (hlists ["Foo", "self", "Main"]).1.mpr (by decide)
  obtain ⟨hentries, hsymbols⟩ := (hlists ["Foo", "self", "Main"]).2.1 ids hids
  obtain ⟨hkept, hadded, -, -, -, hknown, -⟩ := htables ids .empty .empty
  refine ⟨((hlists _).2.2 ⟨"x"⟩).mpr ⟨["x", "y"], ["y"], rfl, by decide, by decide⟩, ids, hids,
    (hsymbols 2 "Main").2.mpr rfl, hkept _ _ ((hsymbols 2 "Main").1.mpr rfl), ?_, (hknown .main).1⟩
  rw [Interner.get?, hadded, hentries]
  rfl

end CoolTypes
