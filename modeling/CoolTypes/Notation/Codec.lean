import CoolTypes.Notation.Value

/-!
# Codecs

What a unit needs of the object notation: a printer, a reader, and the ways in which a value stands for a
record, a variant or an optional part. A codec has all of these, with no assumption about them. The one that
comes with the notation is `Codec.standard`.
-/

namespace CoolTypes.Notation

/-- An optional part that is present, and whether the word `Some` can be joined with its name. -/
abbrev Present (v : Value) := Bool × {w : Value // sizeOf w ≤ sizeOf v}

/-- How values stand for parts of a unit. Whatever is taken from a value is no larger than it. -/
structure Dialect where
  /-- Whether reading goes on at a field of a record with known fields `own`, after fields of the names
  `seen`. -/
  goesOn (own seen : List String) (f : String × Value) : Bool
  /-- The fields of a record of a kind. -/
  record? (title : String) (v : Value) : Option {fs : Fields // sizeOf fs < sizeOf v}
  /-- What stands for an optional part. -/
  optional? (v : Value) : Option (Option (Present v))
  /-- The name of a variant. The word `Some` can be joined in front of it. -/
  variant? (joined : Bool) (v : Value) : Option String
  /-- Whether a variant is nothing but its name. -/
  isUnit (v : Value) : Bool
  /-- The only part of a variant. -/
  content? (v : Value) : Option {w : Value // sizeOf w < sizeOf v}
  /-- The fields of a variant. -/
  fields? (v : Value) : Option {fs : Fields // sizeOf fs < sizeOf v}
  /-- The fields of the record that is the only part of a variant. -/
  contentRecord? (title : String) (v : Value) : Option {fs : Fields // sizeOf fs < sizeOf v}
  /-- What a wrapper has in it. -/
  wrapped? (title : String) (v : Value) : Option {w : Value // sizeOf w ≤ sizeOf v}

/-- Whether reading goes on to the end of a record, after fields of the names `seen`. -/
def Dialect.fit (D : Dialect) (own : List String) : (seen : List String) → Fields → Bool
  | _, [] => true
  | seen, f :: fs => D.goesOn own seen f && D.fit own (f.1 :: seen) fs

/-- A text that has been read. -/
structure Document where
  dialect : Dialect
  value : Value
  /-- Whether the text is well formed and nothing follows the value. -/
  clean : Bool

/-- A way to print values and to read them. -/
structure Codec where
  /-- The depth from which on brackets may be nested too deep. -/
  limit : Nat
  /-- The text of a value, or why there is none. -/
  print (v : Value) : Except String String
  read (text : String) : Document
  /-- What is said about a text from which nothing could be loaded: where that was found and why. There may
  be a reason that does not come from the notation. -/
  complaint (text : String) (reason : Option String) : String

end CoolTypes.Notation
