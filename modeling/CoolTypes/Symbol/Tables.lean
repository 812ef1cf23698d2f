import CoolTypes.Symbol.Interner
import CoolTypes.Symbol.WellKnown

/-!
# Symbol tables

A unit names its identifiers, string literals and integer literals by symbols of three tables. The
identifier table has every well-known name, wherever it stands in it.
-/

namespace CoolTypes

/-- Adds the names of a list to a table, those it has already apart. -/
def Interner.insertAll (t : Interner) (names : List WellKnown) : Interner :=
  names.foldl (fun t w => t.insert w.text) t

theorem Interner.entries_prefix_insertAll (t : Interner) (names : List WellKnown) :
    t.entries <+: (t.insertAll names).entries := by
  induction names generalizing t with
  | nil => exact List.prefix_refl _
  | cons w rest ih => exact (t.entries_prefix_insert w.text).trans (ih (t.insert w.text))

theorem Interner.text_mem_insertAll (t : Interner) {names : List WellKnown} {w : WellKnown}
    (h : w ∈ names) : w.text ∈ (t.insertAll names).entries := by
  induction names generalizing t with
  | nil => exact absurd h List.not_mem_nil
  | cons v rest ih =>
    rcases List.mem_cons.mp h with rfl | h
    · exact ((t.insert w.text).entries_prefix_insertAll rest).subset
        (Interner.mem_entries_insert.mpr (.inr rfl))
    · exact ih (t.insert v.text) h

/-- The identifier, string literal and integer literal tables of a unit. -/
structure SymbolTables where
  ids : Interner
  strings : Interner
  ints : Interner
  complete : ∀ w : WellKnown, w.text ∈ ids.entries

namespace SymbolTables

/-- Tables with the given entries, the well-known names that are missing added at the end. -/
def ofParts (ids strings ints : Interner) : SymbolTables where
  ids := ids.insertAll WellKnown.all
  strings := strings
  ints := ints
  complete w := ids.text_mem_insertAll w.mem_all

/-- Tables with the well-known names only. -/
def initial : SymbolTables := ofParts .empty .empty .empty

instance : Inhabited SymbolTables := ⟨initial⟩

/-- The symbol of a well-known name. -/
def known (t : SymbolTables) (w : WellKnown) : Symbol := ⟨t.ids.entries.idxOf w.text⟩

/-- The text of an identifier. -/
def name (t : SymbolTables) (s : Symbol) : Except Fault String := t.ids.lookup s

/-- Adds an identifier. -/
def addId (t : SymbolTables) (text : String) : Symbol × SymbolTables :=
  ((t.ids.add text).1,
    { t with
      ids := t.ids.insert text
      complete := fun w => (t.ids.entries_prefix_insert text).subset (t.complete w) })

/-- Adds a string literal. -/
def addString (t : SymbolTables) (text : String) : Symbol × SymbolTables :=
  ((t.strings.add text).1, { t with strings := t.strings.insert text })

/-- Adds a string literal where a symbol has 32 bits. -/
def addStringNarrow (t : SymbolTables) (text : String) : Except Fault (Symbol × SymbolTables) := do
  let (s, strings) ← t.strings.addOrFault text
  return (s, { t with strings := strings })

/-- Adds an integer literal. -/
def addInt (t : SymbolTables) (text : String) : Symbol × SymbolTables :=
  ((t.ints.add text).1, { t with ints := t.ints.insert text })

end SymbolTables

end CoolTypes
