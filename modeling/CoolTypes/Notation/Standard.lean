import CoolTypes.Notation.Codec
import CoolTypes.Notation.Reader

/-!
# The standard codec

A record can name itself and have its fields in any order. None of its known fields comes twice, and any
well-formed value stands in a field that is not its own. The brackets of a text are nested at most `maxDepth`
deep. A text can announce extensions, with which some words and brackets are left out.
-/

namespace CoolTypes.Notation

/-- The variant that a word names. The word `Some` can be joined in front of it. -/
def variantName (joined : Bool) (w : String) : String :=
  unmarked (if joined then withoutSome w else w)

namespace Extensions

/-- The fields of a value that is a record of a kind. Without fields it is an empty group. -/
def record? (title : String) : (v : Value) → Option {fs : Fields // sizeOf fs < sizeOf v}
  | .record name fs =>
    if name.all (unmarked · == title) then some ⟨fs, by simp +arith⟩ else none
  | .group name [] =>
    if name.all (unmarked · == title) then some ⟨[], by simp +arith⟩ else none
  | _ => none

/-- What stands for an optional value: a word for none, a group with its name, or, with that
extension, the value itself, with or without the bare word in front. -/
def optional? (x : Extensions) : (v : Value) → Option (Option (Present v))
  | .word "None" => some none
  | .group (some "Some") [w] => some (some (false, ⟨w, by simp +arith⟩))
  | .present w => some (some (false, ⟨w, by simp +arith⟩))
  | v => if x.implicitSome then some (some (true, ⟨v, Nat.le_refl _⟩)) else none

/-- The record of a variant: in brackets of its own, or with that extension directly. -/
def contentRecord? (x : Extensions) (title : String) :
    (v : Value) → Option {fs : Fields // sizeOf fs < sizeOf v}
  | .group (some _) [inner] =>
    if x.unwrapVariants then none
    else (record? title inner).map fun ⟨fs, h⟩ => ⟨fs, by simp; omega⟩
  | .group (some _) [] => if x.unwrapVariants then some ⟨[], by simp +arith⟩ else none
  | .record (some _) fs => if x.unwrapVariants then some ⟨fs, by simp +arith⟩ else none
  | _ => none

/-- What a wrapper has in it. Its brackets are left out with either extension that drops brackets. -/
def wrapped? (x : Extensions) (title : String) :
    (v : Value) → Option {w : Value // sizeOf w ≤ sizeOf v}
  | .group name [v] =>
    if x.unwrapNewtypes || x.unwrapVariants then some ⟨.group name [v], Nat.le_refl _⟩
    else if name.all (unmarked · == title) then some ⟨v, by simp +arith⟩ else none
  | v => if x.unwrapNewtypes || x.unwrapVariants then some ⟨v, Nat.le_refl _⟩ else none

/-- How values are taken under the extensions of a text. -/
def dialect (x : Extensions) : Dialect where
  goesOn own seen f := if own.contains f.1 then !seen.contains f.1 else f.2.isSound
  record? := record?
  optional? := x.optional?
  variant?
    | joined, .word w | joined, .group (some w) _ | joined, .record (some w) _ =>
      some (variantName joined w)
    | _, _ => none
  isUnit
    | .word _ => true
    | _ => false
  content?
    | .group (some _) [v] => some ⟨v, by simp +arith⟩
    | _ => none
  fields?
    | .record (some _) fs => some ⟨fs, by simp +arith⟩
    | .group (some _) [] => some ⟨[], by simp +arith⟩
    | _ => none
  contentRecord? := x.contentRecord?
  wrapped? := x.wrapped?

end Extensions

namespace Codec

/-- How deep brackets can be nested. -/
def maxDepth : Nat := 128

/-- The text of the refusal to print a value. -/
def tooDeep : String := "Exceeded recursion limit, try increasing the limit and using `serde_stacker` " ++
  "to protect against a stack overflow"

/-- The codec of the notation. -/
def standard : Codec where
  limit := maxDepth
  print v := if maxDepth < v.depth then .error tooDeep else .ok (v.page 0)
  read text :=
    let (x, v, clean) := readText maxDepth text
    ⟨x.dialect, v, clean⟩
  complaint _ reason := reason.getD "not well formed"

end Codec

end CoolTypes.Notation
