import CoolTypes.Text.Printable

/-!
# Quoted texts

A quoted text stands between two double quote marks. A backslash and the chosen quote marks get a
backslash in front, four controls have a letter, every other character that is not plain is written
by its code point in hexadecimal digits, and a plain character stands for itself.
-/

namespace CoolTypes.Text

/-- What a quoted text writes for one character; `marks` are the quote marks that are escaped. -/
def escapeChar (marks : List Char) (c : Char) : List Char :=
  if c = '\\' ∨ c ∈ marks then ['\\', c]
  else if c = '\n' then ['\\', 'n']
  else if c = '\r' then ['\\', 'r']
  else if c = '\t' then ['\\', 't']
  else if c = '\x00' then ['\\', '0']
  else if isPlain c then [c]
  else ['\\', 'u', '\x7b'] ++ Nat.toDigits 16 c.toNat ++ ['\x7d']

/-- The characters of a text with every special one escaped. -/
def escape (marks : List Char) (s : List Char) : List Char :=
  s.flatMap (escapeChar marks)

/-- A text between double quote marks. -/
def quote (marks : List Char) (s : String) : String :=
  String.ofList ('"' :: escape marks s.toList ++ ['"'])

/-- The quote marks that are escaped in a listing: the one around the text. -/
def listingMarks : List Char := ['"']

/-- The quote marks that are escaped in a written unit: both kinds. -/
def notationMarks : List Char := ['"', '\'']

end CoolTypes.Text
