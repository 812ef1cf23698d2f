import CoolTypes.Notation.Standard
import CoolTypes.Proofs.Notation.Reading

/-!
# What a codec is relied on for

The notation is described by the tokens of a value (`Value.Writes`, `Value.tokens`) and by the texts that lay
tokens out (`Layout`), with their escape sequences, comments and raw texts. A codec is as described if it prints
a value as a layout of its tokens, reads every layout of the tokens of a value as the value, and takes values
for records and variants by the fields and names that they have (`Codec.Described`). Nothing is assumed about
brackets that are nested too deep: a codec may refuse to print them or to read them. The standard codec is as
described (`Codec.standard_described`).
-/

namespace CoolTypes.Notation

open Value

/-- What is relied on where values are taken for parts of a unit and nothing is announced. -/
structure Dialect.Described (D : Dialect) : Prop where
  /-- A known field can come, but not twice. -/
  own {keys seen : List String} {f : String × Value} : f.1 ∈ keys →
    D.goesOn keys seen f = !seen.contains f.1
  /-- A field that is not known is passed over if its value is well formed. -/
  unknown {keys seen : List String} {f : String × Value} : f.1 ∉ keys → f.2.isSound = true →
    D.goesOn keys seen f = true
  /-- A record without name has its fields. -/
  record (title : String) (gs : Fields) : ∃ h, D.record? title (ofFields none gs) = some ⟨gs, h⟩
  /-- An absent part is a word. -/
  absent : D.optional? (.word "None") = some none
  /-- A present part is in brackets. -/
  present (v : Value) : ∃ h, D.optional? (.group (some "Some") [v]) = some (some (false, ⟨v, h⟩))
  /-- A word can be a variant. -/
  word {w : String} : isName w = true → D.variant? false (.word w) = some w ∧ D.isUnit (.word w) = true
  /-- So can a group with one part. -/
  content {w : String} (v : Value) : isName w = true →
    D.variant? false (.group (some w) [v]) = some w ∧
      ∃ h, D.content? (.group (some w) [v]) = some ⟨v, h⟩
  /-- So can a record. -/
  fields {w : String} (gs : Fields) : isName w = true →
    D.variant? false (ofFields (some w) gs) = some w ∧
      ∃ h, D.fields? (ofFields (some w) gs) = some ⟨gs, h⟩
  /-- A record that is the only part of a variant is taken like any other one. -/
  contentRecord {w : String} (title : String) (v : Value) : isName w = true →
    (D.contentRecord? title (.group (some w) [v])).map Subtype.val =
      (D.record? title v).map Subtype.val
  /-- A wrapper is a group without name. -/
  wrapped (title : String) (v : Value) : ∃ h, D.wrapped? title (.group none [v]) = some ⟨v, h⟩

/-- What is relied on where values are printed and texts are read. -/
structure Codec.Described (c : Codec) : Prop where
  /-- A value whose brackets are not nested too deep is printed. -/
  prints {v : Value} : v.Printable → v.depth < c.limit → ∃ text, c.print v = .ok text
  /-- A printed value is a layout of its tokens. -/
  layout {v : Value} {text : String} : v.Printable → c.print v = .ok text →
    Layout v.tokens text.toList
  /-- A layout of the tokens of a value that is read to its end is read as the value. -/
  value {v : Value} {ts : List Token} {text : String} : v.Writes ts → Layout ts text.toList →
    (c.read text).clean = true → (c.read text).value = v
  /-- A layout of tokens whose brackets are not nested too deep is read to its end. -/
  clean {v : Value} {ts : List Token} {text : String} : v.Writes ts → Layout ts text.toList →
    v.depth < c.limit → (c.read text).clean = true
  /-- A layout of the tokens of a value announces nothing. -/
  dialect {v : Value} {ts : List Token} {text : String} : v.Writes ts → Layout ts text.toList →
    (c.read text).dialect.Described

/-! ## The standard codec -/

theorem variantName_false {w : String} (h : isName w = true) : variantName false w = w :=
  unmarked_of_isWord (Bool.and_eq_true_iff.mp h).1

/-- Without extensions, values are taken as described. -/
theorem Extensions.dialect_described : (dialect {}).Described where
  own hkey := if_pos (List.contains_iff_mem.mpr hkey)
  unknown hkey hsound := (if_neg (by simpa using hkey)).trans hsound
  record title gs := by
    cases gs with
    | nil => exact ⟨_, rfl⟩
    | cons g gs => exact ⟨_, rfl⟩
  absent := rfl
  present v := ⟨_, rfl⟩
  word h := ⟨congrArg some (variantName_false h), rfl⟩
  content v h := ⟨congrArg some (variantName_false h), _, rfl⟩
  fields gs h := by
    cases gs with
    | nil => exact ⟨congrArg some (variantName_false h), _, rfl⟩
    | cons g gs => exact ⟨congrArg some (variantName_false h), _, rfl⟩
  contentRecord title v _ := by
    show ((record? title v).map _).map Subtype.val = (record? title v).map Subtype.val
    cases record? title v <;> rfl
  wrapped title v := ⟨_, rfl⟩

namespace Codec

theorem standard_described : standard.Described where
  prints {v} _ hdepth := ⟨v.page 0, if_neg (Nat.not_lt.mpr (Nat.le_of_lt hdepth))⟩
  layout {v text} hprint htext := by
    have hpage : v.page 0 = text := by
      simp only [standard] at htext
      split at htext
      · cases htext
      · exact Except.ok.inj htext
    exact hpage ▸ hprint.layout
  value hwrites hlayout hclean := value_readText hwrites hlayout hclean
  clean {v ts text} hwrites hlayout hdepth := by
    have hlimit : v.depth ≤ maxDepth := Nat.le_of_lt hdepth
    show (readText maxDepth text).2.2 = true
    rw [readText_eq hwrites hlayout hlimit]
  dialect {v ts text} hwrites hlayout := by
    show (Extensions.dialect (readText maxDepth text).1).Described
    rw [readText_layout hwrites hlayout]
    exact Extensions.dialect_described

end Codec

end CoolTypes.Notation
