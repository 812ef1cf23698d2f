import CoolTypes.Text.Quoted

/-!
# Values of the object notation

A value is a number, a text, a word, a group of parts, a record of named fields, a list, or a value
with the bare word `Some` in front. It is printed on one line, or with a line for each field and
each part of a list. How deep its brackets are nested is its `depth`.
-/

namespace CoolTypes.Notation

/-! ## Words -/

/-- A word without the mark of a raw one. -/
def unmarked (w : String) : String :=
  match w.toList with
  | 'r' :: '#' :: cs => String.ofList cs
  | _ => w

/-- A word without the word `Some` that it starts with. -/
def withoutSome (w : String) : String :=
  match w.toList with
  | 'S' :: 'o' :: 'm' :: 'e' :: cs => String.ofList cs
  | _ => w

/-- Whether a word is the word `Some` joined with a raw one, which names nothing. -/
def isJoined (w : String) : Bool := ['S', 'o', 'm', 'e', 'r', '#'].isPrefixOf w.toList

/-- Words that are values of their own and name no group. -/
def reservedWords : List String := ["None", "true", "false", "inf", "NaN"]

/-- Whether a group can have a word as its name. -/
def namesGroup (w : String) : Bool := !reservedWords.contains w && !isJoined w

/-! ## Values -/

/-- A value. `present` has the word `Some` in front of it without brackets. `other` and `broken`
come from reading only: a value that no unit holds, with the values inside it, and the place where a
text stops being well formed. -/
inductive Value where
  | nat (n : Nat)
  | str (s : String)
  | word (w : String)
  | group (name : Option String) (parts : List Value)
  | record (name : Option String) (fields : List (String × Value))
  | list (parts : List Value)
  | present (v : Value)
  | other (parts : List Value)
  | broken

/-- The fields of a record. -/
abbrev Fields := List (String × Value)

namespace Value

/-- A record, or the empty group that stands for one without fields. -/
def ofFields (name : Option String) : Fields → Value
  | [] => .group name []
  | f :: fs => .record name (f :: fs)

/-! ## Nesting -/

mutual

/-- How many brackets are nested in a value. -/
def depth : Value → Nat
  | nat _ | str _ | word _ | broken => 0
  | group _ parts | list parts | other parts => partsDepth parts + 1
  | record _ fields => fieldsDepth fields + 1
  | present v => v.depth

/-- How many brackets are nested in the deepest of several values. -/
def partsDepth : List Value → Nat
  | [] => 0
  | v :: rest => max v.depth (partsDepth rest)

/-- How many brackets are nested in the deepest of several fields. -/
def fieldsDepth : List (String × Value) → Nat
  | [] => 0
  | (_, v) :: rest => max v.depth (fieldsDepth rest)

end

/-! ## Well-formed values -/

mutual

/-- Whether a value is well formed all through, whatever it means. -/
def isSound : Value → Bool
  | .nat _ | .str _ => true
  | .word w => w != "Some" && !isJoined w
  | .group (some "Some") parts => parts.length == 1 && areSound parts
  | .group name parts => name.all namesGroup && areSound parts
  | .record name fields => name.all (fun w => w != "Some" && namesGroup w) && areSoundFields fields
  | .list parts | .other parts => areSound parts
  | .present v => isSound v
  | .broken => false

/-- Whether all values are well formed. -/
def areSound : List Value → Bool
  | [] => true
  | v :: rest => isSound v && areSound rest

/-- Whether the values of all fields are well formed. -/
def areSoundFields : List (String × Value) → Bool
  | [] => true
  | (_, v) :: rest => isSound v && areSoundFields rest

end

/-! ## One line -/

mutual

/-- The value on one line, without blanks. -/
def line : Value → String
  | nat n => toString n
  | str s => Text.quote Text.notationMarks s
  | word w => w
  | group name parts => name.getD "" ++ "(" ++ ",".intercalate (lines parts) ++ ")"
  | record name fields => name.getD "" ++ "(" ++ ",".intercalate (fieldLines fields) ++ ")"
  | list parts => "[" ++ ",".intercalate (lines parts) ++ "]"
  | present v => "Some " ++ v.line
  | other _ | broken => ""

/-- Several values on one line each. -/
def lines : List Value → List String
  | [] => []
  | v :: rest => v.line :: lines rest

/-- Several fields on one line each. -/
def fieldLines : List (String × Value) → List String
  | [] => []
  | (key, v) :: rest => (key ++ ":" ++ v.line) :: fieldLines rest

end

/-! ## One part per line -/

/-- The start of a line at a depth: four blanks for each level. -/
def indent (depth : Nat) : String := "".pushn ' ' (4 * depth)

mutual

/-- The value with a line for each field and each part of a list; the first line is not indented. -/
def page (depth : Nat) : Value → String
  | nat n => toString n
  | str s => Text.quote Text.notationMarks s
  | word w => w
  | group name parts => name.getD "" ++ "(" ++ ", ".intercalate (groupPages depth parts) ++ ")"
  | record name fields =>
    name.getD "" ++ "(\n" ++ fieldPages (depth + 1) fields ++ indent depth ++ ")"
  | list [] => "[]"
  | list (v :: rest) =>
    "[\n" ++ indent (depth + 1) ++ v.page (depth + 1) ++ ",\n" ++ listPages (depth + 1) rest ++
      indent depth ++ "]"
  | present v => "Some " ++ v.page depth
  | other _ | broken => ""

/-- The parts of a group, which starts no lines. -/
def groupPages (depth : Nat) : List Value → List String
  | [] => []
  | v :: rest => v.page depth :: groupPages depth rest

/-- The parts of a list, a line of its own for each. -/
def listPages (depth : Nat) : List Value → String
  | [] => ""
  | v :: rest => indent depth ++ v.page depth ++ ",\n" ++ listPages depth rest

/-- The fields of a record, a line of its own for each. -/
def fieldPages (depth : Nat) : List (String × Value) → String
  | [] => ""
  | (key, v) :: rest =>
    indent depth ++ key ++ ": " ++ v.page depth ++ ",\n" ++ fieldPages depth rest

end

end Value

end CoolTypes.Notation
