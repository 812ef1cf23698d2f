import CoolTypes.Notation.Token
import CoolTypes.Notation.Value

/-!
# Reading the object notation

The reader goes through the tokens of a text once and keeps the brackets that are open. Where the
text stops being well formed it closes them all around a broken value, so that what stands before
that place can still be read. A bracket that is nested too deep counts as such a place.
-/

namespace CoolTypes.Notation

/-! ## What is open -/

/-- What is open: a bracket with what has been read after it, last part first, or a bare word. -/
inductive Frame where
  /-- A round bracket before any field. -/
  | group (name : Option String) (parts : List Value)
  /-- A round bracket with fields, and the name of the next field if it has been read. -/
  | record (name : Option String) (fields : List (String × Value)) (key : Option String)
  | list (parts : List Value)
  /-- A curly bracket with keys and values, and the next key if it has been read. -/
  | map (parts : List Value) (key : Option Value)
  /-- The bare word `Some`, which is closed by the end of the next value. -/
  | present

/-- Where the reader stands. -/
inductive ReadState where
  /-- A value may come, after an opening bracket, a comma or a colon. -/
  | want (frames : List Frame)
  /-- A word has been read. It is a value, or the name of what follows it. -/
  | word (w : String) (frames : List Frame)
  /-- A value has been read. -/
  | got (v : Value) (frames : List Frame)
  /-- Nothing more is read: the text is not well formed after the value. -/
  | stopped (v : Value)

namespace Frame

/-- Whether a value can come next. -/
def wantsValue : Frame → Bool
  | record _ _ none => false
  | _ => true

/-- Takes the next value. The bare word keeps none: it is closed around it at once. -/
def add (v : Value) : Frame → Frame
  | group name parts => group name (v :: parts)
  | record name fields key => record name ((key.getD "", v) :: fields) none
  | list parts => list (v :: parts)
  | map parts none => map (v :: parts) none
  | map parts (some key) => map (v :: key :: parts) none
  | present => present

/-- Whether a value that has been read completes an entry. -/
def entryEnds : Frame → Bool
  | map _ none => false
  | _ => true

/-- The value of a bracket that is closed. -/
def close : Frame → Value
  | group name parts => .group name parts.reverse
  | record name fields _ => .record name fields.reverse
  | list parts => .list parts.reverse
  | map parts _ => .other parts.reverse
  | present => .present .broken

/-- The value that is closed after a last part. -/
def enclose (v : Value) : Frame → Value
  | present => .present v
  | f => (f.add v).close

/-- The closing bracket, if one is needed. -/
def closing? : Frame → Option Char
  | group .. | record .. => some ')'
  | list _ => some ']'
  | map .. => some '\x7d'
  | present => none

/-- Whether the bracket can be closed when no value has been read since the last mark. -/
def canClose : Frame → Bool
  | record _ _ (some _) => false
  | map _ (some _) => false
  | _ => true

end Frame

namespace ReadState

/-- Closes all brackets around a value. -/
def closeAll : Value → List Frame → Value
  | v, [] => v
  | v, f :: rest => closeAll (f.enclose v) rest

/-- Closes the bare words in front of a value. -/
def settle : Value → List Frame → Value × List Frame
  | v, .present :: rest => settle (.present v) rest
  | v, frames => (v, frames)

/-- A value has been read, and with it what ends there. -/
def complete (v : Value) (frames : List Frame) : ReadState :=
  got (settle v frames).1 (settle v frames).2

/-- Stops where a value must come and none does. -/
def abandon (frames : List Frame) : ReadState := stopped (closeAll .broken frames)

/-- Stops at a token that does not fit after a value. -/
def abandonAfter (v : Value) : List Frame → ReadState
  | [] => stopped v
  | f :: rest => abandon (f.add v :: rest)

/-- Reads a value that is a single token. -/
def leaf (v : Value) : List Frame → ReadState
  | [] => got v []
  | f :: rest => if f.wantsValue then complete v (f :: rest) else abandon (f :: rest)

/-- Opens a bracket where a value can come. -/
def openFrame (new : Frame) : List Frame → ReadState
  | [] => want [new]
  | f :: rest => if f.wantsValue then want (new :: f :: rest) else abandon (f :: rest)

/-- A comma or a closing bracket after a value. -/
def endEntry (v : Value) (c : Char) : List Frame → ReadState
  | [] => abandonAfter v []
  | f :: rest =>
    if !f.entryEnds then abandonAfter v (f :: rest)
    else if c = ',' then want (f.add v :: rest)
    else if f.closing? = some c then complete (f.add v).close rest
    else abandonAfter v (f :: rest)

/-- A colon after a value. -/
def colonAfter (v : Value) : List Frame → ReadState
  | .map parts none :: rest => want (.map parts (some v) :: rest)
  | frames => abandonAfter v frames

/-- A bracket is closed before another value. -/
def closeEmpty (c : Char) : List Frame → ReadState
  | [] => abandon []
  | f :: rest =>
    if f.closing? = some c ∧ f.canClose then complete f.close rest else abandon (f :: rest)

/-- Reads the first token of a value, or the bracket that is closed instead. -/
def start (frames : List Frame) : Token → ReadState
  | .word w => word w frames
  | .str s => leaf (.str s) frames
  | .nat n => leaf (.nat n) frames
  | .other => leaf (.other []) frames
  | .invalid => abandon frames
  | .mark c =>
    if c = '(' then openFrame (.group none []) frames
    else if c = '[' then openFrame (.list []) frames
    else if c = '\x7b' then openFrame (.map [] none) frames
    else closeEmpty c frames

/-- Reads what comes after a value. -/
def afterValue (v : Value) (frames : List Frame) : Token → ReadState
  | .mark c => if c = ':' then colonAfter v frames else endEntry v c frames
  | _ => abandonAfter v frames

/-- Whether a token starts a value and does not belong to the word before it. -/
def startsValue : Token → Bool
  | .mark c => c = '[' || c = '\x7b'
  | .invalid => false
  | _ => true

/-- Reads what comes after a word that is a value. With `bare`, the word `Some` can stand in front
of a value. -/
def afterWord (bare : Bool) (w : String) (frames : List Frame) (t : Token) : ReadState :=
  if t = .mark '(' then want (.group (some w) [] :: frames)
  else if bare ∧ w = "Some" ∧ startsValue t then start (.present :: frames) t
  else afterValue (settle (.word w) frames).1 (settle (.word w) frames).2 t

/-- The brackets after the name of a field, where one can come. -/
def nameField? (w : String) : List Frame → Option (List Frame)
  | .group name [] :: rest => some (.record name [] (some (unmarked w)) :: rest)
  | .record name fields none :: rest => some (.record name fields (some (unmarked w)) :: rest)
  | _ => none

/-- Whether a bare word is a value where it stands: not where the name of a field must come. -/
def wordIsValue : List Frame → Bool
  | [] => true
  | f :: _ => f.wantsValue

/-- Reads a token. -/
def step (bare : Bool) : ReadState → Token → ReadState
  | stopped v, _ => stopped v
  | want frames, t => start frames t
  | got v frames, t => afterValue v frames t
  | word w frames, t =>
    match if t = .mark ':' ∧ !isJoined w then nameField? w frames else none with
    | some frames => want frames
    | none => if wordIsValue frames then afterWord bare w frames t else abandon frames

/-- The end of the text after a value. -/
def finishAfter (v : Value) : List Frame → Value × Bool
  | [] => (v, true)
  | f :: rest => (closeAll .broken (f.add v :: rest), false)

/-- What has been read at the end of the text. -/
def finish : ReadState → Value × Bool
  | stopped v => (v, false)
  | want frames => (closeAll .broken frames, false)
  | got v frames => finishAfter v frames
  | word w frames =>
    if wordIsValue frames then finishAfter (settle (.word w) frames).1 (settle (.word w) frames).2
    else (closeAll .broken frames, false)

end ReadState

/-! ## Headers -/

/-- Liberties that a text can take after announcing them. -/
structure Extensions where
  /-- An optional value that is present needs no `Some`, or no brackets after it. -/
  implicitSome : Bool := false
  /-- A wrapper has no brackets of its own. -/
  unwrapNewtypes : Bool := false
  /-- The record of a variant has no brackets of its own. -/
  unwrapVariants : Bool := false
deriving DecidableEq

/-- Announces an extension by its name, which can be a raw word. -/
def Extensions.enable? (x : Extensions) (w : String) : Option Extensions :=
  let name := unmarked w
  if name = "implicit_some" then some { x with implicitSome := true }
  else if name = "unwrap_newtypes" then some { x with unwrapNewtypes := true }
  else if name = "unwrap_variant_newtypes" then some { x with unwrapVariants := true }
  else none

mutual

/-- Reads the headers at the start of a text. -/
def readHeaders (x : Extensions) : List Token → Option (Extensions × List Token)
  | .mark '#' :: .mark '!' :: .mark '[' :: .word "enable" :: .mark '(' :: rest =>
    readHeaderNames x rest
  | .mark '#' :: _ => none
  | rest => some (x, rest)

/-- Reads the names in a header and goes on after it. -/
def readHeaderNames (x : Extensions) : List Token → Option (Extensions × List Token)
  | .word w :: .mark ')' :: .mark ']' :: rest => (x.enable? w).bind fun x => readHeaders x rest
  | .word w :: .mark ',' :: .mark ')' :: .mark ']' :: rest =>
    (x.enable? w).bind fun x => readHeaders x rest
  | .word w :: .mark ',' :: rest => (x.enable? w).bind fun x => readHeaderNames x rest
  | _ => none

end

/-! ## Nesting -/

/-- The tokens up to the first bracket inside more than `limit` others. `depth` of them are open. -/
def within (limit : Nat) : Nat → List Token → List Token
  | _, [] => []
  | depth, .mark c :: rest =>
    if c = '(' ∨ c = '[' ∨ c = '\x7b' then
      if depth < limit then .mark c :: within limit (depth + 1) rest else [.invalid]
    else if c = ')' ∨ c = ']' ∨ c = '\x7d' then .mark c :: within limit (depth - 1) rest
    else .mark c :: within limit depth rest
  | depth, t :: rest => t :: within limit depth rest

/-- Reads the value of a text and tells whether the text is well formed, and gives the extensions that it
announces. -/
def readText (limit : Nat) (s : String) : Extensions × Value × Bool :=
  match readHeaders {} (tokens s) with
  | none => ({}, .broken, false)
  | some (x, ts) =>
    (x, ((within limit 0 ts).foldl (ReadState.step x.implicitSome) (.want [])).finish)

end CoolTypes.Notation
