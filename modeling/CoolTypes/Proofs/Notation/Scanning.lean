import CoolTypes.Notation.Token
import CoolTypes.Notation.Value
import Mathlib.Data.List.Basic

/-!
# Scanning token by token

What a token can look like, and that the scan reads it as that token and goes on with what follows. Words
and numbers end where the text does not go on with them (`run_word`, `run_number`). A text is read back
from its characters and escape sequences, whichever of these stand for it (`run_quoted`), a raw text from
between its number signs (`run_rawText`), and a block comment ends where it ends with the comments inside
it counted (`run_comment`).
-/

namespace CoolTypes.Notation

/-! ## Where words and numbers end -/

/-- Whether the scan reads a text as one word. -/
def isWord (w : String) : Bool :=
  match w.toList with
  | [] => false
  | c :: cs => startsWord c && cs.all continuesWord

/-- No word or number goes on with the text, and no mark in it makes a word that of a raw text. -/
def Closes (rest : List Char) : Prop :=
  ∀ c ∈ rest.head?, continuesRawWord c = false ∧ c ≠ '"' ∧ c ≠ '#'

theorem Closes.cons {c : Char} {rest : List Char}
    (h : continuesRawWord c = false ∧ c ≠ '"' ∧ c ≠ '#') : Closes (c :: rest) := by
  rintro _ ⟨⟩
  exact h

theorem continuesWord_of_raw {c : Char} (h : continuesRawWord c = false) :
    continuesWord c = false := by
  simp only [continuesRawWord, Bool.or_eq_false_iff] at h
  exact h.1.1.1

namespace Scan

/-! ## Marks and blanks -/

theorem run_cons (s : Scan) (c : Char) (cs : List Char) :
    run s (c :: cs) = (s.step c).1 ++ run (s.step c).2 cs := rfl

theorem run_blank {c : Char} (h : isBlank c = true) (rest : List Char) :
    run between (c :: rest) = run between rest := by
  rw [run_cons, step, begin, if_pos h]
  rfl

theorem run_mark {c : Char} (h : isMark c = true) (hblank : isBlank c = false) (rest : List Char) :
    run between (c :: rest) = .mark c :: run between rest := by
  rw [run_cons, step, begin, if_neg (by simp [hblank]), if_pos h]
  rfl

theorem toList_blanks (n : Nat) : ("".pushn ' ' n).toList = List.replicate n ' ' := by
  rw [String.pushn_eq_repeat_push]
  induction n with
  | zero => rfl
  | succ n ih => rw [Nat.repeat, String.toList_push, ih, List.replicate_succ']

/-- After a finished token the scan is between tokens. -/
theorem run_beginAfter (t : Token) (c : Char) (rest : List Char) :
    (beginAfter t c).1 ++ run (beginAfter t c).2 rest = t :: run between (c :: rest) := rfl

/-! ## Words -/

theorem run_word_append {cs : List Char} (hcs : ∀ c ∈ cs, continuesWord c = true)
    (done : List Char) {rest : List Char} (hrest : Closes rest) :
    run (word done) (cs ++ rest) = wordToken (cs.reverse ++ done) :: run between rest := by
  induction cs generalizing done with
  | nil =>
    cases rest with
    | nil => rfl
    | cons c rest =>
      -- the character that ends the word is scanned anew
      obtain ⟨hraw, hquote, hhash⟩ := hrest c rfl
      rw [List.nil_append, run_cons]
      simp only [step, hquote, hhash, and_false, if_false, continuesWord_of_raw hraw, hraw,
        Bool.false_eq_true, false_and]
      exact run_beginAfter _ _ _
  | cons c cs ih =>
    have hc := hcs c List.mem_cons_self
    have hquote : c ≠ '"' := by rintro rfl; exact absurd hc (by decide)
    have hhash : c ≠ '#' := by rintro rfl; exact absurd hc (by decide)
    rw [List.cons_append, run_cons]
    simp only [step, hquote, hhash, and_false, if_false, hc, if_true, List.nil_append]
    rw [ih (fun d hd => hcs d (List.mem_cons_of_mem _ hd))]
    simp

/-- The characters that are no part of words or numbers and mean something between tokens. -/
def specialChars : List Char :=
  [' ', '\t', '\n', '\r', '(', ')', '[', ']', '\x7b', '\x7d', ',', ':', '#', '!', '/', '"', '\'']

theorem begin_of_not_special {c : Char} (h : c ∉ specialChars) : begin c =
    if startsWord c then ([], word [c]) else if startsNumber c then ([], number [c]) else fail := by
  simp only [specialChars, List.mem_cons, List.not_mem_nil, or_false, not_or] at h
  simp [begin, isBlank, isMark, h]

theorem begin_word {c : Char} (h : startsWord c = true) : begin c = ([], word [c]) := by
  have hall : specialChars.all fun d => !startsWord d := by decide
  rw [begin_of_not_special, if_pos h]
  intro hmem
  have hnot := List.all_eq_true.mp hall c hmem
  rw [h] at hnot
  exact absurd hnot (by decide)

theorem run_word {w : String} (hw : isWord w = true) {rest : List Char} (hrest : Closes rest) :
    run between (w.toList ++ rest) = .word w :: run between rest := by
  unfold isWord at hw
  cases hchars : w.toList with
  | nil => simp [hchars] at hw
  | cons c cs =>
    simp only [hchars, Bool.and_eq_true, List.all_eq_true] at hw
    rw [List.cons_append, run_cons, step, begin_word hw.1, List.nil_append,
      run_word_append hw.2 _ hrest]
    simp [wordToken, ← hchars]

theorem run_rawWord_append {cs : List Char} (hcs : ∀ c ∈ cs, continuesRawWord c = true)
    (done : List Char) {rest : List Char} (hrest : Closes rest) :
    run (rawWord done) (cs ++ rest) = wordToken (cs.reverse ++ done) :: run between rest := by
  induction cs generalizing done with
  | nil =>
    cases rest with
    | nil => rfl
    | cons c rest =>
      rw [List.nil_append, run_cons]
      simp only [step, (hrest c rfl).1, Bool.false_eq_true, if_false]
      exact run_beginAfter _ _ _
  | cons c cs ih =>
    rw [List.cons_append, run_cons]
    simp only [step, hcs c List.mem_cons_self, if_true, List.nil_append]
    rw [ih fun d hd => hcs d (List.mem_cons_of_mem _ hd)]
    simp

/-- A raw word can start like a number. -/
theorem run_rawWord {cs : List Char} (hne : cs ≠ []) (hcs : ∀ c ∈ cs, continuesRawWord c = true)
    {rest : List Char} (hrest : Closes rest) :
    run between ('r' :: '#' :: (cs ++ rest)) =
      .word (String.ofList ('r' :: '#' :: cs)) :: run between rest := by
  cases cs with
  | nil => exact absurd rfl hne
  | cons c cs =>
    have hc := hcs c List.mem_cons_self
    have hhash : c ≠ '#' := by rintro rfl; exact absurd hc (by decide)
    have hquote : c ≠ '"' := by rintro rfl; exact absurd hc (by decide)
    show run (rawMark 1) (c :: (cs ++ rest)) = _
    rw [run_cons]
    simp only [step, hhash, hquote, if_false, hc, and_self, if_true, List.nil_append]
    rw [run_rawWord_append (fun d hd => hcs d (List.mem_cons_of_mem _ hd)) _ hrest]
    simp [wordToken]

end Scan

/-! ## Numbers -/

theorem hexDigit?_of_isDigit {c : Char} (h : c.isDigit = true) :
    hexDigit? c = some (c.toNat - '0'.toNat) ∧ c.toNat - '0'.toNat < 10 ∧ c ≠ '_' := by
  refine ⟨by simp [hexDigit?, h], ?_, ?_⟩
  · simp only [Char.isDigit, Bool.and_eq_true, decide_eq_true_eq, UInt32.le_iff_toNat_le] at h
    have h9 : c.toNat ≤ 57 := h.2
    show c.toNat - 48 < 10
    omega
  · rintro rfl
    exact absurd h (by decide)

/-- Decimal digits have the value that they are printed for. -/
theorem digits?_eq_ofDigitChars {cs : List Char} (h : ∀ c ∈ cs, c.isDigit = true) (value : Nat) :
    digits? 10 value cs = some (Nat.ofDigitChars 10 cs value) := by
  induction cs generalizing value with
  | nil => rfl
  | cons c cs ih =>
    obtain ⟨hdigit, hlt, hne⟩ := hexDigit?_of_isDigit (h c List.mem_cons_self)
    rw [digits?, if_neg hne, hdigit]
    dsimp only
    rw [if_pos hlt, ih fun d hd => h d (List.mem_cons_of_mem _ hd), Nat.ofDigitChars_cons,
      Nat.mul_comm]

theorem natural?_toDigits (n : Nat) : natural? (Nat.toDigits 10 n) = some n := by
  have hdigits : ∀ c ∈ Nat.toDigits 10 n, c.isDigit = true := fun c hc =>
    Nat.isDigit_of_mem_toDigits (by decide) (by decide) hc
  have hvalue := digits?_eq_ofDigitChars hdigits 0
  rw [Nat.ofDigitChars_toDigits (by decide) (by decide)] at hvalue
  have hne : Nat.toDigits 10 n ≠ [] := Nat.toDigits_ne_nil
  generalize Nat.toDigits 10 n = ds at *
  -- the second of the digits is no letter, so the base is ten
  unfold natural?
  split
  · exact absurd (hdigits 'x' (by simp)) (by decide)
  · exact absurd (hdigits 'o' (by simp)) (by decide)
  · exact absurd (hdigits 'b' (by simp)) (by decide)
  · cases ds with
    | nil => exact absurd rfl hne
    | cons c cs =>
      rw [wholeDigits?, if_neg (hexDigit?_of_isDigit (hdigits c List.mem_cons_self)).2.2]
      exact hvalue

theorem numberToken_toDigits {n : Nat} (hn : n < UInt64.size) :
    numberToken (Nat.toDigits 10 n) = .nat n := by
  unfold numberToken
  rw [natural?_toDigits]
  exact if_pos hn

namespace Scan

theorem run_number_append {cs : List Char} (hcs : ∀ c ∈ cs, continuesRawWord c = true)
    (done : List Char) {rest : List Char} (hrest : Closes rest) :
    run (number done) (cs ++ rest) =
      numberToken (done.reverse ++ cs) :: run between rest := by
  induction cs generalizing done with
  | nil =>
    cases rest with
    | nil => simp [run, finish]
    | cons c rest =>
      have hraw := (hrest c rfl).1
      rw [List.nil_append, run_cons, List.append_nil]
      simp only [step, hraw, Bool.false_eq_true, if_false]
      exact run_beginAfter _ _ _
  | cons c cs ih =>
    rw [List.cons_append, run_cons]
    simp only [step, hcs c List.mem_cons_self, if_true, List.nil_append]
    rw [ih fun d hd => hcs d (List.mem_cons_of_mem _ hd)]
    simp

theorem begin_number {c : Char} (h : startsNumber c = true) : begin c = ([], number [c]) := by
  have hall : specialChars.all fun d => !startsNumber d := by decide
  have hsigns : ['.', '+', '-'].all fun d => !startsWord d := by decide
  have hdigits : ∀ n < 10, startsWord (Char.ofNat (48 + n)) = false := by decide
  have hword : startsWord c = false := by
    simp only [startsNumber, Bool.or_eq_true, beq_iff_eq, or_assoc] at h
    rcases h with h | h
    · have hlow : 48 ≤ c.toNat := (Char.isDigit_iff_toNat.mp h).1
      have hhigh : c.toNat ≤ 57 := (Char.isDigit_iff_toNat.mp h).2
      have hc := hdigits (c.toNat - 48) (by omega)
      rwa [Nat.add_sub_cancel' hlow, Char.ofNat_toNat] at hc
    · have hc := List.all_eq_true.mp hsigns c (by simpa using h)
      simpa using hc
  rw [begin_of_not_special]
  · simp [hword, h]
  · intro hmem
    have hnot := List.all_eq_true.mp hall c hmem
    rw [h] at hnot
    exact absurd hnot (by decide)

/-- A run of characters that starts like a number is one token, whatever number it is. -/
theorem run_number {c : Char} {cs : List Char} (hc : startsNumber c = true)
    (hcs : ∀ d ∈ cs, continuesRawWord d = true) {rest : List Char} (hrest : Closes rest) :
    run between (c :: (cs ++ rest)) = numberToken (c :: cs) :: run between rest := by
  rw [run_cons, step, begin_number hc, List.nil_append, run_number_append hcs _ hrest]
  rfl

end Scan

/-! ## Texts -/

theorem hexDigit?_digitChar : ∀ d < 16, hexDigit? (Nat.digitChar d) = some d := by decide

/-- Hexadecimal digits are read as such, and have the value that they are printed for. -/
theorem hexDigits_toDigits (n : Nat) :
    (∀ c ∈ Nat.toDigits 16 n, (hexDigit? c).isSome = true) ∧
      (Nat.toDigits 16 n).foldl (fun v c => 16 * v + (hexDigit? c).getD 0) 0 = n := by
  induction n using Nat.strongRecOn with
  | _ n ih =>
    by_cases hn : n < 16
    · rw [Nat.toDigits_of_lt_base hn]
      simp [hexDigit?_digitChar n hn]
    · -- the digits of the quotient, then that of the remainder
      have hmod := hexDigit?_digitChar (n % 16) (Nat.mod_lt _ (by decide))
      obtain ⟨hall, hvalue⟩ := ih (n / 16) (by omega)
      rw [Nat.toDigits_of_base_le (by decide) (by omega)]
      constructor
      · intro c hc
        rcases List.mem_append.mp hc with hc | hc
        · exact hall c hc
        · rw [List.mem_singleton.mp hc, hmod]
          rfl
      · rw [List.foldl_append, hvalue]
        simp only [List.foldl_cons, List.foldl_nil, hmod, Option.getD_some]
        omega

/-- The code point of a character is that of no other one. -/
theorem charOfCode_toNat (c : Char) : charOfCode c.toNat = .done c := by
  have hvalid : c.toNat.isValidChar := c.valid
  rw [charOfCode, dif_pos hvalid]
  congr 1

/-- What stands for a character after a backslash, and the character. -/
def letterEscapes : List (Char × Char) :=
  [('\'', '\''), ('"', '"'), ('\\', '\\'), ('n', '\n'), ('r', '\r'), ('t', '\t'), ('0', '\x00')]

/-- The value of hexadecimal digits after others. -/
def hexValue (value : Nat) (ds : List Char) : Nat :=
  ds.foldl (fun v d => 16 * v + (hexDigit? d).getD 0) value

/-- What can stand for a character after a backslash: a letter, or the code point in two digits or in
up to six between brackets. -/
inductive Escapes (c : Char) : List Char → Prop
  | letter {l : Char} : (l, c) ∈ letterEscapes → Escapes c [l]
  | byte {ds : List Char} : ds.length = 2 → (∀ d ∈ ds, (hexDigit? d).isSome = true) →
      hexValue 0 ds = c.toNat → Escapes c ('x' :: ds)
  | code {ds : List Char} : ds ≠ [] → ds.length ≤ 6 → (∀ d ∈ ds, (hexDigit? d).isSome = true) →
      hexValue 0 ds = c.toNat → Escapes c ('u' :: '\x7b' :: (ds ++ ['\x7d']))

/-- The characters finish the escape sequence, which stands for `c`. -/
def Escape.Finishes (c : Char) : Escape → List Char → Prop
  | _, [] => False
  | e, d :: ds =>
    match e.step d with
    | .more e => Finishes c e ds
    | .done c' => c' = c ∧ ds = []
    | .bad => False

theorem Escape.finishes_code {c : Char} {ds : List Char}
    (hds : ∀ d ∈ ds, (hexDigit? d).isSome = true) {count : Nat} (hpos : count + ds.length ≠ 0)
    (hmax : count + ds.length ≤ 6) {value : Nat} (hvalue : hexValue value ds = c.toNat) :
    Finishes c (.code count value) (ds ++ ['\x7d']) := by
  induction ds generalizing count value with
  | nil =>
    have hcount : count ≠ 0 := hpos
    obtain rfl : value = c.toNat := hvalue
    simp [Finishes, Escape.step, hcount, charOfCode_toNat]
  | cons d ds ih =>
    obtain ⟨n, hn⟩ := Option.isSome_iff_exists.mp (hds d List.mem_cons_self)
    have hbrace : d ≠ '\x7d' := by
      rintro rfl
      exact absurd (hds '\x7d' List.mem_cons_self) (by decide)
    rw [List.length_cons] at hmax
    have hlt : count ≠ 6 := by omega
    have hrest := @ih (fun e he => hds e (List.mem_cons_of_mem _ he)) (count + 1) (by omega)
      (by omega) (16 * value + n) (by rw [← hvalue, hexValue, hexValue, List.foldl_cons, hn]; rfl)
    simpa only [List.cons_append, Finishes, Escape.step, hbrace, hlt, if_false, hn] using hrest

theorem Escapes.finishes {c : Char} {e : List Char} (h : Escapes c e) :
    Escape.Finishes c .start e := by
  cases h with
  | @letter l hl =>
    have hall : ∀ p ∈ letterEscapes, Escape.start.step p.1 = .done p.2 := by decide
    simp [Escape.Finishes, hall _ hl]
  | byte hlength hds hvalue =>
    obtain ⟨a, b, rfl⟩ := List.length_eq_two.mp hlength
    obtain ⟨m, hm⟩ := Option.isSome_iff_exists.mp (hds a (by simp))
    obtain ⟨n, hn⟩ := Option.isSome_iff_exists.mp (hds b (by simp))
    have hcode : 16 * m + n = c.toNat := by simpa [hexValue, hm, hn] using hvalue
    simp [Escape.Finishes, Escape.step, hm, hn, hcode, charOfCode_toNat]
  | code hne hmax hds hvalue =>
    exact Escape.finishes_code hds (by simpa using hne) (by simpa using hmax) hvalue

/-- What can stand between the quote marks of a text: its characters themselves, but for quote marks
and backslashes, or escape sequences. -/
inductive Quotes : List Char → List Char → Prop
  | nil : Quotes [] []
  | plain {c : Char} {chars body : List Char} : c ≠ '"' → c ≠ '\\' → Quotes chars body →
      Quotes (c :: chars) (c :: body)
  | escape {c : Char} {e chars body : List Char} : Escapes c e → Quotes chars body →
      Quotes (c :: chars) ('\\' :: (e ++ body))

/-- A code point in its hexadecimal digits. -/
theorem Escapes.toDigits (c : Char) :
    Escapes c ('u' :: '\x7b' :: (Nat.toDigits 16 c.toNat ++ ['\x7d'])) := by
  obtain ⟨hdigits, hvalue⟩ := hexDigits_toDigits c.toNat
  -- no code point needs more than six digits
  have hlength : (Nat.toDigits 16 c.toNat).length ≤ 6 := by
    have hlt : c.toNat < 16 ^ 6 := by
      have hvalid : c.toNat.isValidChar := c.valid
      simp only [Nat.isValidChar] at hvalid
      omega
    exact (Nat.length_toDigits_le_iff (by decide) (by decide)).mpr hlt
  exact .code Nat.toDigits_ne_nil hlength hdigits hvalue

section Printed

-- the mark around a text is escaped, and no mark is that cannot be
variable {marks : List Char} (hquote : '"' ∈ marks) (hmarks : marks ⊆ Text.notationMarks)

include hquote hmarks

/-- What is written for a character in a text stands for it. -/
theorem Quotes.escapeChar (c : Char) {chars body : List Char} (h : Quotes chars body) :
    Quotes (c :: chars) (Text.escapeChar marks c ++ body) := by
  unfold Text.escapeChar
  -- the cases of the printer: a mark, a control character with a letter, a plain character, a code point
  by_cases hmark : c = '\\' ∨ c ∈ marks
  · rw [if_pos hmark]
    have hall : ('\\' :: Text.notationMarks).all fun d => letterEscapes.contains (d, d) := by decide
    have hc : c ∈ '\\' :: Text.notationMarks := List.mem_cons.mpr (hmark.imp_right fun hc => hmarks hc)
    exact .escape (.letter (List.contains_iff_mem.mp (List.all_eq_true.mp hall c hc))) h
  · rw [if_neg hmark]
    have hself : c ≠ '"' := fun hc => hmark (.inr (hc ▸ hquote))
    have hbackslash : c ≠ '\\' := fun hc => hmark (.inl hc)
    split_ifs with hn hr ht h0 hplain
    · exact .escape (.letter (by rw [hn]; decide)) h
    · exact .escape (.letter (by rw [hr]; decide)) h
    · exact .escape (.letter (by rw [ht]; decide)) h
    · exact .escape (.letter (by rw [h0]; decide)) h
    · exact .plain hself hbackslash h
    · simpa using Quotes.escape (Escapes.toDigits c) h

theorem Quotes.escape_self (chars : List Char) : Quotes chars (Text.escape marks chars) := by
  induction chars with
  | nil => exact .nil
  | cons c chars ih => exact ih.escapeChar hquote hmarks c

end Printed

namespace Scan

/-- An escape sequence is read in the same way in a text and as a character of its own: `state` is
where the scan stands inside it, and `after` where it stands when it is done. -/
theorem run_finishes {state : Escape → Scan} {after : Scan} {c : Char}
    (hmore : ∀ e d e', e.step d = .more e' → (state e).step d = ([], state e'))
    (hdone : ∀ e d, e.step d = .done c → (state e).step d = ([], after))
    {cs : List Char} {e : Escape} (h : e.Finishes c cs) (rest : List Char) :
    run (state e) (cs ++ rest) = run after rest := by
  induction cs generalizing e with
  | nil => exact h.elim
  | cons d cs ih =>
    rw [Escape.Finishes] at h
    rw [List.cons_append, run_cons]
    cases hstep : e.step d with
    | more e' =>
      simp only [hstep] at h
      rw [hmore e d e' hstep]
      exact ih h
    | done c' =>
      simp only [hstep] at h
      obtain ⟨rfl, rfl⟩ := h
      rw [hdone e d hstep]
      rfl
    | bad => simp [hstep] at h

theorem run_escape {c : Char} {cs : List Char} (h : Escapes c cs) (done rest : List Char) :
    run (escape done .start) (cs ++ rest) = run (text (c :: done)) rest :=
  run_finishes (fun _ _ _ hstep => by simp [step, hstep]) (fun _ _ hstep => by simp [step, hstep])
    h.finishes rest

theorem run_charEscape {c : Char} {cs : List Char} (h : Escapes c cs) (rest : List Char) :
    run (charEscape .start) (cs ++ rest) = run charEnd rest :=
  run_finishes (fun _ _ _ hstep => by simp [step, hstep]) (fun _ _ hstep => by simp [step, hstep])
    h.finishes rest

/-- A quoted text is read as the text, whatever follows it. -/
theorem run_quoted {chars body : List Char} (h : Quotes chars body) (rest : List Char) :
    run between ('"' :: (body ++ '"' :: rest)) = .str (String.ofList chars) :: run between rest := by
  have hinside : ∀ done, run (text done) (body ++ '"' :: rest) =
      textToken (chars.reverse ++ done) :: run between rest := by
    induction h with
    | nil => exact fun _ => rfl
    | @plain c chars body hquote hbackslash _ ih =>
      intro done
      rw [List.cons_append, run_cons]
      simp only [step, hquote, hbackslash, if_false, List.nil_append, ih, List.reverse_cons,
        List.append_assoc, List.cons_append]
    | @escape c e chars body he _ ih =>
      intro done
      show run (escape done .start) ((e ++ body) ++ '"' :: rest) = _
      rw [List.append_assoc, run_escape he, ih]
      simp
  refine (hinside []).trans ?_
  simp [textToken]

/-- A printed text is read as the text. -/
theorem run_quote {marks : List Char} (hquote : '"' ∈ marks) (hmarks : marks ⊆ Text.notationMarks)
    (s : String) (rest : List Char) :
    run between ((Text.quote marks s).toList ++ rest) = .str s :: run between rest := by
  have hscan := run_quoted (Quotes.escape_self hquote hmarks s.toList) rest
  rw [String.ofList_toList] at hscan
  simpa [Text.quote] using hscan

/-! ## Raw texts -/

/-- The quote mark and number signs at the end of a raw text. -/
def rawEnd (hashes : Nat) : List Char := '"' :: List.replicate hashes '#'

/-- What may be the start of such an end. -/
def rawPending : Option Nat → List Char
  | none => []
  | some n => rawEnd n

theorem run_rawHashes {hashes n more : Nat} (hn : n + (more + 1) = hashes) (done rest : List Char) :
    run (raw hashes done (some n)) (List.replicate (more + 1) '#' ++ rest) =
      textToken done :: run between rest := by
  induction more generalizing n with
  | zero =>
    have hlast : n + 1 = hashes := hn
    simp [run_cons, step, hlast]
  | succ more ih =>
    have hmore : n + 1 ≠ hashes := by omega
    rw [List.replicate_succ, List.cons_append, run_cons]
    simp only [step, if_true, hmore, if_false, List.nil_append]
    exact ih (by omega)

theorem run_rawEnd {hashes : Nat} {pending : Option Nat} (hpending : ∀ n ∈ pending, n < hashes)
    (done rest : List Char) :
    run (raw hashes done pending) (rawEnd hashes ++ rest) =
      textToken ((rawPending pending).reverse ++ done) :: run between rest := by
  rw [rawEnd, List.cons_append, run_cons]
  cases pending with
  | none =>
    cases hashes with
    | zero => simp [step, rawPending]
    | succ k => simpa [step, rawPending] using run_rawHashes (Nat.zero_add _) done rest
  | some n =>
    cases hashes with
    | zero => exact absurd (hpending n rfl) (Nat.not_lt_zero n)
    | succ k =>
      simpa [step, rawPending, rawEnd] using
        run_rawHashes (Nat.zero_add _) (List.replicate n '#' ++ '"' :: done) rest

/-- A raw text ends with the first quote mark that has all number signs after it. The induction is on
what is left of the text, after what may be the start of such an end. -/
theorem run_raw {hashes : Nat} {pending : Option Nat} {cs : List Char}
    (hpending : ∀ n ∈ pending, n < hashes) (hcs : ¬ rawEnd hashes <:+: rawPending pending ++ cs)
    (done rest : List Char) :
    run (raw hashes done pending) (cs ++ (rawEnd hashes ++ rest)) =
      textToken (cs.reverse ++ ((rawPending pending).reverse ++ done)) :: run between rest := by
  induction cs generalizing pending done with
  | nil => exact run_rawEnd hpending done rest
  | cons c cs ih =>
    -- neither here nor in what is left does an end begin
    have hleft : ¬ rawEnd hashes <:+: c :: cs := fun h =>
      hcs (h.trans (List.suffix_append _ _).isInfix)
    have hlater : ¬ rawEnd hashes <:+: cs := fun h => hleft (h.trans (List.suffix_cons c cs).isInfix)
    rw [List.cons_append, run_cons]
    cases pending with
    | none =>
      by_cases hquote : c = '"'
      · subst hquote
        have hpos : hashes ≠ 0 := by
          rintro rfl
          exact hleft (List.prefix_append ['"'] cs).isInfix
        have hnext := @ih (some 0) (by simpa using Nat.pos_of_ne_zero hpos) hleft done
        simpa [step, hpos, rawPending, rawEnd] using hnext
      · have hnext := @ih none (by simp) hlater (c :: done)
        simpa [step, hquote, rawPending] using hnext
    | some n =>
      have hlt : n < hashes := hpending n rfl
      have hpos : 0 < hashes := by omega
      by_cases hhash : c = '#'
      · subst hhash
        have heq : rawPending (some n) ++ '#' :: cs = rawPending (some (n + 1)) ++ cs := by
          simp [rawPending, rawEnd, List.replicate_succ']
        have hmore : n + 1 ≠ hashes := by
          rintro rfl
          exact hcs (heq ▸ (List.prefix_append _ cs).isInfix)
        have hnext := @ih (some (n + 1)) (by simp; omega) (heq ▸ hcs) done
        simpa [step, hmore, rawPending, rawEnd, List.replicate_succ'] using hnext
      · by_cases hquote : c = '"'
        · subst hquote
          have hnext := @ih (some 0) (by simpa using hpos) hleft (List.replicate n '#' ++ '"' :: done)
          simpa [step, rawPending, rawEnd] using hnext
        · have hnext := @ih none (by simp) hlater (c :: (List.replicate n '#' ++ '"' :: done))
          simpa [step, hhash, hquote, rawPending, rawEnd] using hnext

theorem run_rawMark (hashes more : Nat) (rest : List Char) :
    run (rawMark hashes) (List.replicate more '#' ++ '"' :: rest) =
      run (raw (hashes + more) [] none) rest := by
  induction more generalizing hashes with
  | zero => simp [run_cons, step]
  | succ more ih =>
    rw [List.replicate_succ, List.cons_append, run_cons]
    simp only [step, if_true, List.nil_append]
    rw [ih, Nat.add_assoc, Nat.add_comm 1]

/-- A text between a quote mark with the letter `r` and number signs in front and such an end. -/
theorem run_rawText {hashes : Nat} {cs : List Char} (hcs : ¬ rawEnd hashes <:+: cs)
    (rest : List Char) :
    run between ('r' :: (List.replicate hashes '#' ++ '"' :: (cs ++ (rawEnd hashes ++ rest)))) =
      .str (String.ofList cs) :: run between rest := by
  have hopen : run between ('r' :: (List.replicate hashes '#' ++
      '"' :: (cs ++ (rawEnd hashes ++ rest)))) =
        run (raw hashes [] none) (cs ++ (rawEnd hashes ++ rest)) := by
    cases hashes with
    | zero => rfl
    | succ k =>
      show run (rawMark 1) (List.replicate k '#' ++ _) = _
      rw [run_rawMark, Nat.add_comm]
  have hraw := @run_raw hashes none cs (by simp) hcs [] rest
  rw [hopen, hraw]
  simp [textToken, rawPending]

/-! ## Comments -/

/-- What stands in a block comment after its first mark, with as many comments open around it. -/
inductive Comment : Nat → List Char → Prop
  | close : Comment 0 ['*', '/']
  | leave {depth : Nat} {cs : List Char} : Comment depth cs → Comment (depth + 1) ('*' :: '/' :: cs)
  | enter {depth : Nat} {cs : List Char} : Comment (depth + 1) cs → Comment depth ('/' :: '*' :: cs)
  | char {depth : Nat} {c : Char} {cs : List Char} : (c = '*' → cs.head? ≠ some '/') →
      (c = '/' → cs.head? ≠ some '*') → Comment depth cs → Comment depth (c :: cs)

/-- A character that does not make a mark with the next one is as good as forgotten. -/
theorem run_block_pending {depth : Nat} {c d : Char} (hclose : c = '*' → d ≠ '/')
    (hopen : c = '/' → d ≠ '*') (rest : List Char) :
    run (block depth (some c)) (d :: rest) = run (block depth none) (d :: rest) := by
  have hclose' : ¬ (c = '*' ∧ d = '/') := fun h => hclose h.1 h.2
  have hopen' : ¬ (c = '/' ∧ d = '*') := fun h => hopen h.1 h.2
  rw [run_cons, run_cons]
  simp only [step, Option.some.injEq, hclose', hopen', if_false, reduceCtorEq, false_and]

theorem run_comment {depth : Nat} {cs : List Char} (h : Comment depth cs) (rest : List Char) :
    run (block (depth + 1) none) (cs ++ rest) = run between rest := by
  induction h with
  | close => rfl
  | leave _ ih => simpa [run_cons, step] using ih
  | enter _ ih => simpa [run_cons, step] using ih
  | @char depth c cs hclose hopen hcs ih =>
    -- the comment goes on, at least with its last mark
    obtain ⟨d, ds, rfl⟩ : ∃ d ds, cs = d :: ds := by
      cases hcs <;> exact ⟨_, _, rfl⟩
    rw [← ih, List.cons_append, run_cons]
    simp only [step, reduceCtorEq, false_and, if_false, List.nil_append]
    split
    · exact run_block_pending (fun h hd => hclose h (hd ▸ rfl)) (fun h hd => hopen h (hd ▸ rfl)) _
    · rfl

theorem run_lineComment {cs : List Char} (hcs : '\n' ∉ cs) (rest : List Char) :
    run line (cs ++ rest) = run line rest := by
  induction cs with
  | nil => rfl
  | cons c cs ih =>
    rw [List.mem_cons, not_or] at hcs
    rw [List.cons_append, run_cons, step, if_neg (Ne.symm hcs.1)]
    exact ih hcs.2

end Scan

end CoolTypes.Notation
