/-!
# Tokens of the object notation

Units are written in a notation of records, groups, lists, words, numbers and texts. Its text is cut
into tokens by a scan that reads one character at a time. Blanks and comments separate tokens and
stand for nothing. The first character that fits nowhere makes an invalid token, after which
nothing is read.
-/

namespace CoolTypes.Notation

/-- A token. Words keep the mark `r#` of a raw one, also where `Some` is joined with it. -/
inductive Token where
  | mark (c : Char)
  | word (w : String)
  | str (s : String)
  | nat (n : Nat)
  /-- A number that is not a natural one of 64 bits, or a character: no unit holds one. -/
  | other
  | invalid
deriving DecidableEq

/-! ## Characters -/

/-- Whether a character separates tokens. -/
def isBlank (c : Char) : Bool := c == ' ' || c == '\t' || c == '\n' || c == '\r'

/-- Whether a character is a token of its own. -/
def isMark (c : Char) : Bool :=
  ['(', ')', '[', ']', '\x7b', '\x7d', ',', ':', '#', '!'].contains c

/-- Whether a word can start with a character. -/
def startsWord (c : Char) : Bool := c.isAlpha || c == '_'

/-- Whether a word can go on with a character. -/
def continuesWord (c : Char) : Bool := c.isAlphanum || c == '_'

/-- Whether a raw word can have a character. -/
def continuesRawWord (c : Char) : Bool := continuesWord c || c == '.' || c == '+' || c == '-'

/-- Whether a number can start with a character. -/
def startsNumber (c : Char) : Bool := c.isDigit || c == '.' || c == '+' || c == '-'

/-- The value of a hexadecimal digit. -/
def hexDigit? (c : Char) : Option Nat :=
  if c.isDigit then some (c.toNat - '0'.toNat)
  else if 'a' ≤ c ∧ c ≤ 'f' then some (c.toNat - 'a'.toNat + 10)
  else if 'A' ≤ c ∧ c ≤ 'F' then some (c.toNat - 'A'.toNat + 10)
  else none

/-! ## Numbers -/

/-- The value of digits to a base, with low lines between them. -/
def digits? (base : Nat) (value : Nat) : List Char → Option Nat
  | [] => some value
  | c :: cs =>
    if c = '_' then digits? base value cs
    else match hexDigit? c with
      | some d => if d < base then digits? base (value * base + d) cs else none
      | none => none

/-- The value of digits that do not start with a low line. -/
def wholeDigits? (base : Nat) : List Char → Option Nat
  | [] => none
  | c :: cs => if c = '_' then none else digits? base 0 (c :: cs)

/-- The value of a natural number; a base other than ten is marked in front. -/
def natural? : List Char → Option Nat
  | '0' :: 'x' :: cs => wholeDigits? 16 cs
  | '0' :: 'o' :: cs => wholeDigits? 8 cs
  | '0' :: 'b' :: cs => wholeDigits? 2 cs
  | cs => wholeDigits? 10 cs

/-- A number without its sign. -/
def unsigned : List Char → List Char
  | '+' :: cs => cs
  | '-' :: cs => cs
  | cs => cs

/-- Whether the end of a decimal fraction is well formed: nothing, or an exponent. -/
def isExponent : List Char → Bool
  | [] => true
  | e :: cs =>
    (e == 'e' || e == 'E') && !(unsigned cs).isEmpty && (unsigned cs).all (·.isDigit)

/-- Whether a text is a decimal fraction without sign. -/
def isFraction (cs : List Char) : Bool :=
  let whole := cs.takeWhile (·.isDigit)
  match cs.dropWhile (·.isDigit) with
  | '.' :: rest =>
    let part := rest.takeWhile (·.isDigit)
    !(whole.isEmpty && part.isEmpty) && isExponent (rest.dropWhile (·.isDigit))
  | rest => !whole.isEmpty && isExponent rest

/-- Whether a text names an infinite number or none. -/
def isUnbounded (cs : List Char) : Bool := cs == ['i', 'n', 'f'] || cs == ['N', 'a', 'N']

/-- Whether a text is a whole number with a sign that fits in 64 bits. -/
def isSigned : List Char → Bool
  | '+' :: cs => (natural? cs).any (· < UInt64.size / 2)
  | '-' :: cs => (natural? cs).any (· ≤ UInt64.size / 2)
  | _ => false

/-- The token of a run of characters that starts like a number. -/
def numberToken (cs : List Char) : Token :=
  match natural? cs with
  | some n => if n < UInt64.size then .nat n else if isFraction cs then .other else .invalid
  | none =>
    if isFraction (unsigned cs) || isUnbounded (unsigned cs) || isSigned cs then .other
    else .invalid

/-! ## Escape sequences -/

/-- Where a scan stands inside an escape sequence. -/
inductive Escape where
  | start
  | byte (high : Option Nat)
  | brace
  | code (count value : Nat)
deriving DecidableEq

/-- What a character does to an escape sequence. -/
inductive EscapeStep where
  | more (e : Escape)
  | done (c : Char)
  | bad
deriving DecidableEq

/-- The character of a code point, if there is one. -/
def charOfCode (n : Nat) : EscapeStep :=
  if h : n.isValidChar then .done (Char.ofNatAux n h) else .bad

/-- Reads one more character of an escape sequence. -/
def Escape.step : Escape → Char → EscapeStep
  | .start, c =>
    if c = '\'' ∨ c = '"' ∨ c = '\\' then .done c
    else if c = 'n' then .done '\n'
    else if c = 'r' then .done '\r'
    else if c = 't' then .done '\t'
    else if c = '0' then .done '\x00'
    else if c = 'x' then .more (.byte none)
    else if c = 'u' then .more .brace
    else .bad
  | .byte none, c =>
    match hexDigit? c with
    | some d => .more (.byte (some d))
    | none => .bad
  | .byte (some h), c =>
    match hexDigit? c with
    | some d => charOfCode (16 * h + d)
    | none => .bad
  | .brace, c => if c = '\x7b' then .more (.code 0 0) else .bad
  | .code count value, c =>
    if c = '\x7d' then if count = 0 then .bad else charOfCode value
    else if count = 6 then .bad
    else match hexDigit? c with
      | some d => .more (.code (count + 1) (16 * value + d))
      | none => .bad

/-! ## The scan -/

/-- Where a scan stands. The characters of an unfinished token are kept last one first. -/
inductive Scan where
  | between
  | slash
  | line
  /-- In block comments, `depth` of them inside each other, after a star or slash that may belong to
  the next mark. -/
  | block (depth : Nat) (last : Option Char)
  | word (done : List Char)
  /-- After the letter `r` and some number signs. -/
  | rawMark (hashes : Nat)
  /-- After the word `Some`, joined with the mark of a raw word. -/
  | joinedMark
  | rawWord (done : List Char)
  | number (done : List Char)
  | text (done : List Char)
  | escape (done : List Char) (e : Escape)
  /-- In a raw text, after a quote mark and as many number signs as `run` says. -/
  | raw (hashes : Nat) (done : List Char) (run : Option Nat)
  | char
  | charEscape (e : Escape)
  | charEnd
  | stuck
deriving DecidableEq

namespace Scan

/-- The token of finished characters. -/
def wordToken (done : List Char) : Token := .word (String.ofList done.reverse)

/-- The text of finished characters. -/
def textToken (done : List Char) : Token := .str (String.ofList done.reverse)

/-- The scan cannot go on. -/
def fail : List Token × Scan := ([.invalid], .stuck)

/-- What a character means outside of a token. -/
def begin (c : Char) : List Token × Scan :=
  if isBlank c then ([], between)
  else if isMark c then ([.mark c], between)
  else if c = '/' then ([], slash)
  else if c = '"' then ([], text [])
  else if c = '\'' then ([], char)
  else if startsWord c then ([], word [c])
  else if startsNumber c then ([], number [c])
  else fail

/-- What a character means after a finished token. -/
def beginAfter (t : Token) (c : Char) : List Token × Scan :=
  (t :: (begin c).1, (begin c).2)

/-- Reads one character. -/
def step : Scan → Char → List Token × Scan
  | between, c => begin c
  | slash, c =>
    if c = '/' then ([], line) else if c = '*' then ([], block 1 none) else fail
  | line, c => ([], if c = '\n' then between else line)
  | block depth last, c =>
    if last = some '*' ∧ c = '/' then
      ([], if depth ≤ 1 then between else block (depth - 1) none)
    else if last = some '/' ∧ c = '*' then ([], block (depth + 1) none)
    else ([], block depth (if c = '*' ∨ c = '/' then some c else none))
  | word done, c =>
    if done = ['r'] ∧ c = '"' then ([], raw 0 [] none)
    else if done = ['r'] ∧ c = '#' then ([], rawMark 1)
    else if done = ['r', 'e', 'm', 'o', 'S'] ∧ c = '#' then ([], joinedMark)
    else if continuesWord c then ([], word (c :: done))
    else if continuesRawWord c ∧ done ≠ ['e', 'm', 'o', 'S'] then fail
    else beginAfter (wordToken done) c
  | rawMark hashes, c =>
    if c = '#' then ([], rawMark (hashes + 1))
    else if c = '"' then ([], raw hashes [] none)
    else if hashes = 1 ∧ continuesRawWord c then ([], rawWord [c, '#', 'r'])
    else fail
  | joinedMark, c =>
    if continuesRawWord c then ([], rawWord [c, '#', 'r', 'e', 'm', 'o', 'S']) else fail
  | rawWord done, c =>
    if continuesRawWord c then ([], rawWord (c :: done)) else beginAfter (wordToken done) c
  | number done, c =>
    if continuesRawWord c then ([], number (c :: done))
    else beginAfter (numberToken done.reverse) c
  | text done, c =>
    if c = '"' then ([textToken done], between)
    else if c = '\\' then ([], escape done .start)
    else ([], text (c :: done))
  | escape done e, c =>
    match e.step c with
    | .more e => ([], escape done e)
    | .done c => ([], text (c :: done))
    | .bad => fail
  | raw hashes done none, c =>
    if c = '"' then
      if hashes = 0 then ([textToken done], between) else ([], raw hashes done (some 0))
    else ([], raw hashes (c :: done) none)
  | raw hashes done (some run), c =>
    let kept := List.replicate run '#' ++ '"' :: done
    if c = '#' then
      if run + 1 = hashes then ([textToken done], between)
      else ([], raw hashes done (some (run + 1)))
    else if c = '"' then ([], raw hashes kept (some 0))
    else ([], raw hashes (c :: kept) none)
  | char, c =>
    if c = '\\' then ([], charEscape .start) else if c = '\'' then fail else ([], charEnd)
  | charEscape e, c =>
    match e.step c with
    | .more e => ([], charEscape e)
    | .done _ => ([], charEnd)
    | .bad => fail
  | charEnd, c => if c = '\'' then ([.other], between) else fail
  | stuck, _ => ([], stuck)

/-- What the end of the text means. -/
def finish : Scan → List Token
  | between | line | stuck => []
  | word done | rawWord done => [wordToken done]
  | number done => [numberToken done.reverse]
  | slash | block .. | rawMark _ | joinedMark | text _ | escape .. | raw .. | char | charEscape _
  | charEnd => [.invalid]

/-- The tokens of the rest of a text. -/
def run (s : Scan) : List Char → List Token
  | [] => s.finish
  | c :: cs => (s.step c).1 ++ run (s.step c).2 cs

end Scan

/-- The tokens of a text. -/
def tokens (s : String) : List Token := Scan.run .between s.toList

end CoolTypes.Notation
