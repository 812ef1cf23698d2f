/-!
# Well-known names

The names that the analysis itself refers to. Every identifier table has them.
-/

namespace CoolTypes

/-- A name with a fixed meaning. -/
inductive WellKnown where
  | object | io | int | bool | string | selfType | main
  | noClass | primSlot | basicFile
  | self | val | strField | arg | arg2
  | abort | typeName | copy | outString | outInt | inString | inInt | length | concat | substr
deriving DecidableEq

namespace WellKnown

/-- The spelling of a name. -/
def text : WellKnown → String
  | object => "Object"
  | io => "IO"
  | int => "Int"
  | bool => "Bool"
  | string => "String"
  | selfType => "SELF_TYPE"
  | main => "Main"
  | noClass => "_no_class"
  | primSlot => "_prim_slot"
  | basicFile => "<basic class>"
  | self => "self"
  | val => "val"
  | strField => "str_field"
  | arg => "arg"
  | arg2 => "arg2"
  | abort => "abort"
  | typeName => "type_name"
  | copy => "copy"
  | outString => "out_string"
  | outInt => "out_int"
  | inString => "in_string"
  | inInt => "in_int"
  | length => "length"
  | concat => "concat"
  | substr => "substr"

/-- All well-known names, in the order in which missing ones are added to a table. -/
def all : List WellKnown :=
  [object, io, int, bool, string, selfType, main, noClass, primSlot, basicFile, self, val, strField,
    arg, arg2, abort, typeName, copy, outString, outInt, inString, inInt, length, concat, substr]

theorem mem_all (w : WellKnown) : w ∈ all := by cases w <;> decide

theorem text_injective {v w : WellKnown} (h : v.text = w.text) : v = w := by
  cases v <;> cases w <;> first | rfl | simp [text] at h

end WellKnown

end CoolTypes
