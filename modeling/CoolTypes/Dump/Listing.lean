import CoolTypes.Text.Quoted

/-!
# Listings

A listing shows the structure of a value: records with named fields, groups of unnamed parts, and
sequences. It has a form on one line and a form with one part per line, four columns deeper for each
level.
-/

namespace CoolTypes

/-- The structure of a value. -/
inductive Listing where
  | atom (text : String)
  | group (name : String) (parts : List Listing)
  | record (name : String) (fields : List (String × Listing)) (more : Bool)
  | sequence (parts : List Listing)

namespace Listing

/-- A text as a part of a listing. -/
def text (s : String) : Listing := atom (Text.quote Text.listingMarks s)

/-- A number as a part of a listing. -/
def nat (n : Nat) : Listing := atom (toString n)

/-- A value that may be absent. -/
def option : Option Listing → Listing
  | none => atom "None"
  | some l => group "Some" [l]

/-! ## One line -/

mutual

/-- The form on one line. -/
def line : Listing → String
  | atom s => s
  | group name parts => name ++ "(" ++ ", ".intercalate (lines parts) ++ ")"
  | record name fields more =>
    name ++ " \x7b " ++ ", ".intercalate (fieldLines fields ++ if more then [".."] else []) ++
      " \x7d"
  | sequence parts => "[" ++ ", ".intercalate (lines parts) ++ "]"

/-- The forms of several parts. -/
def lines : List Listing → List String
  | [] => []
  | l :: rest => l.line :: lines rest

/-- The forms of several fields. -/
def fieldLines : List (String × Listing) → List String
  | [] => []
  | (key, l) :: rest => (key ++ ": " ++ l.line) :: fieldLines rest

end

/-! ## One part per line -/

/-- The start of a line at a depth. -/
def indent (depth : Nat) : String := "".pushn ' ' (4 * depth)

mutual

/-- The form with one part per line; the first line is not indented. -/
def page (depth : Nat) : Listing → String
  | atom s => s
  | group name parts => name ++ "(\n" ++ pages (depth + 1) parts ++ indent depth ++ ")"
  | record name fields _ =>
    name ++ " \x7b\n" ++ fieldPages (depth + 1) fields ++ indent depth ++ "\x7d"
  | sequence [] => "[]"
  | sequence (l :: rest) =>
    "[\n" ++ indent (depth + 1) ++ l.page (depth + 1) ++ ",\n" ++ pages (depth + 1) rest ++
      indent depth ++ "]"

/-- Several parts, a line of its own for each. -/
def pages (depth : Nat) : List Listing → String
  | [] => ""
  | l :: rest => indent depth ++ l.page depth ++ ",\n" ++ pages depth rest

/-- Several fields, a line of its own for each. -/
def fieldPages (depth : Nat) : List (String × Listing) → String
  | [] => ""
  | (key, l) :: rest =>
    indent depth ++ key ++ ": " ++ l.page depth ++ ",\n" ++ fieldPages depth rest

end

end Listing

end CoolTypes
