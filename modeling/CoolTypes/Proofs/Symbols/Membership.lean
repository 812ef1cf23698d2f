import CoolTypes.Proofs.Faultless
import CoolTypes.Syntax.Occurrences

/-!
# Symbols of tables

A symbol belongs to a table if it is below the number of its entries. Such a symbol has a text, the
well-known names belong to every identifier table under symbols of their own, and tables that grow
keep what belongs to them.
-/

namespace CoolTypes

namespace SymbolTables

/-- The symbol is below the number of entries of the table. -/
def Has (t : SymbolTables) (k : TableKind) (s : Symbol) : Prop := s.index < (t.table k).size

instance (t : SymbolTables) (k : TableKind) (s : Symbol) : Decidable (t.Has k s) :=
  inferInstanceAs (Decidable (_ < _))

end SymbolTables

namespace Interner

/-- A text has one symbol only. -/
theorem get?_injective {t : Interner} {s s' : Symbol} {text : String} (h : t.get? s = some text)
    (h' : t.get? s' = some text) : s = s' :=
  Option.some.inj ((find?_eq_some_iff.mpr h).symm.trans (find?_eq_some_iff.mpr h'))

/-- A table that begins with the entries of another one gives its symbols the same texts. -/
theorem get?_of_prefix {t u : Interner} (h : t.entries <+: u.entries) {s : Symbol} {text : String}
    (hs : t.get? s = some text) : u.get? s = some text := by
  obtain ⟨more, hmore⟩ := h
  rw [get?, ← hmore, List.getElem?_append_left (List.getElem?_eq_some_iff.mp hs).1]
  exact hs

theorem exists_get?_iff {t : Interner} {s : Symbol} :
    (∃ text, t.get? s = some text) ↔ s.index < t.size := by
  rw [← Option.isSome_iff_exists, get?, isSome_getElem?]
  exact Iff.rfl

/-- A look-up gives the text that a symbol stands for. -/
theorem lookup_eq_ok_iff {t : Interner} {s : Symbol} {text : String} :
    t.lookup s = .ok text ↔ t.get? s = some text := by
  unfold lookup
  cases t.get? s <;> simp

theorem lookup_faultless {t : Interner} {s : Symbol} (h : s.index < t.size) :
    Faultless (t.lookup s) := by
  obtain ⟨text, hs⟩ := exists_get?_iff.mpr h
  exact ⟨text, lookup_eq_ok_iff.mpr hs⟩

theorem size_le_insert (t : Interner) (text : String) : t.size ≤ (t.insert text).size :=
  (t.entries_prefix_insert text).length_le

/-- The symbol that adding a text gives belongs to the table afterwards. -/
theorem add_index_lt (t : Interner) (text : String) :
    (t.add text).1.index < (t.insert text).size := by
  have h : (t.insert text).get? (t.add text).1 = some text := t.get?_add text
  exact (List.getElem?_eq_some_iff.mp h).1

end Interner

namespace SymbolTables

variable {t : SymbolTables}

theorem Has.name_faultless {s : Symbol} (h : t.Has .ids s) : Faultless (t.name s) :=
  Interner.lookup_faultless h

theorem has_known (t : SymbolTables) (w : WellKnown) : t.Has .ids (t.known w) :=
  List.idxOf_lt_length_iff.mpr (t.complete w)

/-- The symbol of a well-known name stands for its text. -/
theorem get?_known (t : SymbolTables) (w : WellKnown) : t.ids.get? (t.known w) = some w.text :=
  List.getElem?_eq_some_iff.mpr ⟨t.has_known w, List.getElem_idxOf _⟩

/-- No two well-known names share a symbol. -/
theorem known_injective {v w : WellKnown} (h : t.known v = t.known w) : v = w := by
  have hv := t.get?_known v
  rw [h, t.get?_known w] at hv
  exact WellKnown.text_injective (Option.some.inj hv).symm

@[simp] theorem known_inj {v w : WellKnown} : t.known v = t.known w ↔ v = w :=
  ⟨known_injective, fun h => by rw [h]⟩

/-! ## Tables that grow -/

/-- Every symbol that belongs to a table belongs to the table of the same kind afterwards. -/
def Le (t u : SymbolTables) : Prop := ∀ k, (t.table k).size ≤ (u.table k).size

theorem Le.refl (t : SymbolTables) : t.Le t := fun _ => Nat.le_refl _

theorem Le.trans {t u v : SymbolTables} (htu : t.Le u) (huv : u.Le v) : t.Le v :=
  fun k => Nat.le_trans (htu k) (huv k)

/-- Tables with further entries at the end have the symbols that they had. -/
theorem le_of_prefix {u : SymbolTables}
    (h : ∀ k, (t.table k).entries <+: (u.table k).entries) : t.Le u :=
  fun k => (h k).length_le

theorem Has.mono {u : SymbolTables} {k : TableKind} {s : Symbol} (h : t.Has k s) (htu : t.Le u) :
    u.Has k s :=
  Nat.lt_of_lt_of_le h (htu k)

theorem le_addId (t : SymbolTables) (text : String) : t.Le (t.addId text).2 := by
  intro k
  cases k with
  | ids => exact t.ids.size_le_insert text
  | strings => exact Nat.le_refl _
  | ints => exact Nat.le_refl _

theorem le_addString (t : SymbolTables) (text : String) : t.Le (t.addString text).2 := by
  intro k
  cases k with
  | ids => exact Nat.le_refl _
  | strings => exact t.strings.size_le_insert text
  | ints => exact Nat.le_refl _

theorem le_addInt (t : SymbolTables) (text : String) : t.Le (t.addInt text).2 := by
  intro k
  cases k with
  | ids => exact Nat.le_refl _
  | strings => exact Nat.le_refl _
  | ints => exact t.ints.size_le_insert text

theorem has_addId (t : SymbolTables) (text : String) :
    (t.addId text).2.Has .ids (t.addId text).1 :=
  t.ids.add_index_lt text

theorem has_addString (t : SymbolTables) (text : String) :
    (t.addString text).2.Has .strings (t.addString text).1 :=
  t.strings.add_index_lt text

theorem has_addInt (t : SymbolTables) (text : String) :
    (t.addInt text).2.Has .ints (t.addInt text).1 :=
  t.ints.add_index_lt text

/-- Tables that come out of others by adding texts. -/
inductive Grows (t : SymbolTables) : SymbolTables → Prop where
  | refl : Grows t t
  | id {u} (text) : Grows t u → Grows t (u.addId text).2
  | string {u} (text) : Grows t u → Grows t (u.addString text).2
  | int {u} (text) : Grows t u → Grows t (u.addInt text).2

end SymbolTables

end CoolTypes
