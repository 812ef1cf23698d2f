import CoolTypes.Notation.Value
import CoolTypes.Proofs.Notation.Scanning

/-!
# Layouts

A layout of tokens is a text that has a spelling of each of them one after the other, with blanks and
comments between them as one likes. It is cut into these tokens (`Layout.tokens_eq`). A value that is
printed on lines of its own is one layout of the tokens that `Value.tokens` lists (`Printable.layout`).
-/

namespace CoolTypes.Notation

/-! ## Spellings -/

/-- The spellings of marks, texts and characters, which show where they end. -/
inductive Token.Enclosed : Token → List Char → Prop
  | mark {c : Char} : isMark c = true → Enclosed (.mark c) [c]
  | text {chars body : List Char} : Quotes chars body →
      Enclosed (.str (String.ofList chars)) ('"' :: (body ++ ['"']))
  | rawText {hashes : Nat} {chars : List Char} : ¬ Scan.rawEnd hashes <:+: chars →
      Enclosed (.str (String.ofList chars))
        ('r' :: (List.replicate hashes '#' ++ '"' :: (chars ++ Scan.rawEnd hashes)))
  | char {c : Char} : c ≠ '\'' → c ≠ '\\' → Enclosed .other ['\'', c, '\'']
  | escapedChar {c : Char} {e : List Char} : Escapes c e →
      Enclosed .other ('\'' :: '\\' :: (e ++ ['\'']))

/-- The spellings of words and numbers, which end where the text does not go on with them. -/
inductive Token.Loose : Token → List Char → Prop
  | word {w : String} : isWord w = true → Loose (.word w) w.toList
  | rawWord {cs : List Char} : cs ≠ [] → (∀ c ∈ cs, continuesRawWord c = true) →
      Loose (.word (String.ofList ('r' :: '#' :: cs))) ('r' :: '#' :: cs)
  | number {c : Char} {cs : List Char} : startsNumber c = true →
      (∀ d ∈ cs, continuesRawWord d = true) → Loose (numberToken (c :: cs)) (c :: cs)

/-- A text that spells tokens one after the other, with blanks and comments around them. The last
comment of a line can also be the last of the text. -/
inductive Layout : List Token → List Char → Prop
  | nil : Layout [] []
  | blank {ts : List Token} {c : Char} {cs : List Char} : isBlank c = true → Layout ts cs →
      Layout ts (c :: cs)
  | line {ts : List Token} {note cs : List Char} : '\n' ∉ note → Layout ts cs →
      Layout ts ('/' :: '/' :: (note ++ '\n' :: cs))
  | lastLine {note : List Char} : '\n' ∉ note → Layout [] ('/' :: '/' :: note)
  | block {ts : List Token} {note cs : List Char} : Scan.Comment 0 note → Layout ts cs →
      Layout ts ('/' :: '*' :: (note ++ cs))
  | enclosed {t : Token} {ts : List Token} {spelling cs : List Char} : t.Enclosed spelling →
      Layout ts cs → Layout (t :: ts) (spelling ++ cs)
  | loose {t : Token} {ts : List Token} {spelling cs : List Char} : t.Loose spelling → Closes cs →
      Layout ts cs → Layout (t :: ts) (spelling ++ cs)

namespace Scan

theorem run_enclosed {t : Token} {cs : List Char} (h : t.Enclosed cs) (rest : List Char) :
    run between (cs ++ rest) = t :: run between rest := by
  cases h with
  | @mark c hc =>
    have hblank : isBlank c = false := by
      rw [isMark, List.contains_iff_mem] at hc
      simp only [List.mem_cons, List.not_mem_nil, or_false] at hc
      rcases hc with rfl | rfl | rfl | rfl | rfl | rfl | rfl | rfl | rfl | rfl <;> rfl
    exact run_mark hc hblank rest
  | text h => simpa using run_quoted h rest
  | rawText h => simpa using run_rawText h rest
  | @char c hquote hbackslash => simp [run_cons, step, begin, isBlank, isMark, hquote, hbackslash]
  | escapedChar h =>
    show run (charEscape .start) ((_ ++ ['\'']) ++ rest) = _
    rw [List.append_assoc, run_charEscape h]
    rfl

theorem run_loose {t : Token} {cs : List Char} (h : t.Loose cs) {rest : List Char}
    (hrest : Closes rest) : run between (cs ++ rest) = t :: run between rest := by
  cases h with
  | word hw => exact run_word hw hrest
  | rawWord hne hcs => exact run_rawWord hne hcs hrest
  | number hc hcs => exact run_number hc hcs hrest

end Scan

open Scan in
/-- A layout is cut into its tokens. -/
theorem Layout.run_eq {ts : List Token} {cs : List Char} (h : Layout ts cs) :
    run between cs = ts := by
  induction h with
  | nil => rfl
  | blank hc _ ih => rw [run_blank hc, ih]
  | @line _ note cs hnote _ ih =>
    show run Scan.line (note ++ '\n' :: cs) = _
    rw [run_lineComment hnote]
    exact ih
  | @lastLine note hnote =>
    show run Scan.line note = _
    rw [← List.append_nil note, run_lineComment hnote]
    rfl
  | @block _ note cs hnote _ ih =>
    show run (Scan.block (0 + 1) none) (note ++ cs) = _
    rw [run_comment hnote, ih]
  | enclosed ht _ ih => rw [run_enclosed ht, ih]
  | loose ht hcs _ ih => rw [run_loose ht hcs, ih]

theorem Layout.tokens_eq {ts : List Token} {text : String} (h : Layout ts text.toList) :
    tokens text = ts :=
  h.run_eq

theorem Layout.mark {ts : List Token} {c : Char} {cs : List Char} (hc : isMark c = true)
    (h : Layout ts cs) : Layout (.mark c :: ts) (c :: cs) :=
  .enclosed (.mark hc) h

/-- A text can end with a new line. -/
theorem Layout.newLine {ts : List Token} {cs : List Char} (h : Layout ts cs) :
    Layout ts (cs ++ ['\n']) := by
  induction h with
  | nil => exact .blank rfl .nil
  | blank hc _ ih => exact .blank hc ih
  | @line _ note cs hnote _ ih => simpa using Layout.line hnote ih
  | lastLine hnote => exact .line hnote .nil
  | block hnote _ ih => simpa using Layout.block hnote ih
  | enclosed ht _ ih => simpa using Layout.enclosed ht ih
  | @loose _ _ _ cs ht hcs _ ih =>
    have hclose : Closes (cs ++ ['\n']) := by
      cases cs with
      | nil => exact .cons (by decide)
      | cons c cs => exact hcs
    simpa using Layout.loose ht hclose ih

theorem Layout.blanks {ts : List Token} {cs : List Char} (n : Nat) (h : Layout ts cs) :
    Layout ts (List.replicate n ' ' ++ cs) := by
  induction n with
  | zero => exact h
  | succ n ih => exact .blank rfl ih

/-- A number within bounds is spelled by its decimal digits. -/
theorem Token.Loose.nat {n : Nat} (hn : n < UInt64.size) : Loose (.nat n) (toString n).toList := by
  rw [Nat.toString_eq_ofList_toDigits, String.toList_ofList]
  have hdigits : ∀ c ∈ Nat.toDigits 10 n, c.isDigit = true := fun c hc =>
    Nat.isDigit_of_mem_toDigits (by decide) (by decide) hc
  rw [← numberToken_toDigits hn]
  cases hchars : Nat.toDigits 10 n with
  | nil => exact absurd hchars Nat.toDigits_ne_nil
  | cons c cs =>
    rw [hchars] at hdigits
    apply Loose.number
    · simp [startsNumber, hdigits c List.mem_cons_self]
    · intro d hd
      simp [continuesRawWord, continuesWord, Char.isAlphanum, hdigits d (List.mem_cons_of_mem _ hd)]

/-! ## Printed values -/

namespace Value

/-- The tokens of the name in front of a bracket. -/
def nameTokens (name : Option String) : List Token := (name.map Token.word).toList

/-- Parts one after the other with commas between them, and after the last one too if so wanted. -/
def withCommas (last : Bool) : List (List Token) → List Token
  | [] => []
  | [ts] => ts ++ if last then [.mark ','] else []
  | ts :: us :: rest => ts ++ .mark ',' :: withCommas last (us :: rest)

mutual

/-- The tokens of a printed value. -/
def tokens : Value → List Token
  | nat n => [.nat n]
  | str s => [.str s]
  | word w => [.word w]
  | group name parts =>
    nameTokens name ++ .mark '(' :: withCommas false (partTokens parts) ++ [.mark ')']
  | record name fields =>
    nameTokens name ++ .mark '(' :: withCommas true (fieldTokens fields) ++ [.mark ')']
  | list parts => .mark '[' :: withCommas true (partTokens parts) ++ [.mark ']']
  | present v => .word "Some" :: v.tokens
  | other _ | broken => []

/-- The tokens of parts, part by part. -/
def partTokens : List Value → List (List Token)
  | [] => []
  | v :: rest => v.tokens :: partTokens rest

/-- The tokens of fields, field by field. -/
def fieldTokens : List (String × Value) → List (List Token)
  | [] => []
  | (key, v) :: rest => (.word key :: .mark ':' :: v.tokens) :: fieldTokens rest

end

theorem partTokens_eq (parts : List Value) : partTokens parts = parts.map tokens := by
  induction parts with
  | nil => rfl
  | cons v parts ih => rw [partTokens, ih, List.map_cons]

theorem fieldTokens_eq (fields : List (String × Value)) :
    fieldTokens fields = fields.map fun f => .word f.1 :: .mark ':' :: f.2.tokens := by
  induction fields with
  | nil => rfl
  | cons f fields ih => rw [fieldTokens, ih, List.map_cons]

/-- Whether a word that is no raw one can be the name of a group. -/
def isName (w : String) : Bool := isWord w && namesGroup w

/-- A value that is read as it is printed: a word is not taken for the start of another value, names
are words, numbers have 64 bits, a group has one part, and a record has fields, without which it would
be a group, and none twice. -/
inductive Printable : Value → Prop
  | nat {n} : n < UInt64.size → Printable (nat n)
  | str {s} : Printable (str s)
  | word {w} : isWord w = true → w ≠ "Some" → Printable (word w)
  | group {name v} : (∀ w ∈ name, isName w = true) → Printable v → Printable (group name [v])
  | record {name fields} : (∀ w ∈ name, isName w = true ∧ w ≠ "Some") → fields ≠ [] →
      (∀ f ∈ fields, isWord f.1 = true) → (fields.map Prod.fst).Nodup →
      (∀ f ∈ fields, Printable f.2) → Printable (record name fields)
  | list {parts} : (∀ v ∈ parts, Printable v) → Printable (list parts)

/-- With a comma after the last one, each part has its comma. -/
theorem withCommas_true (tss : List (List Token)) :
    withCommas true tss = tss.flatMap (· ++ [.mark ',']) := by
  induction tss with
  | nil => rfl
  | cons ts tss ih => cases tss with
    | nil => simp [withCommas]
    | cons us tss => simpa [withCommas] using ih

/-- A printed value is a layout of its tokens, whatever layout follows it. -/
def LaidOut (v : Value) : Prop :=
  ∀ depth ts rest, Closes rest → Layout ts rest → Layout (v.tokens ++ ts) ((v.page depth).toList ++ rest)

section Pages

variable {ts : List Token} {rest : List Char}

theorem layout_indent (h : Layout ts rest) (depth : Nat) :
    Layout ts ((indent depth).toList ++ rest) := by
  rw [indent, Scan.toList_blanks]
  exact h.blanks _

theorem layout_name {name : Option String} (hname : ∀ w ∈ name, isName w = true)
    (h : Layout ts rest) :
    Layout (nameTokens name ++ .mark '(' :: ts) ((name.getD "").toList ++ '(' :: rest) := by
  have hopen := h.mark (c := '(') rfl
  cases name with
  | none => exact hopen
  | some w =>
    have hw : isWord w = true := (Bool.and_eq_true_iff.mp (hname w rfl)).1
    exact .loose (.word hw) (.cons (by decide)) hopen

theorem layout_listPages {parts : List Value} (hparts : ∀ v ∈ parts, v.LaidOut) (depth : Nat)
    (h : Layout ts rest) : Layout (withCommas true (partTokens parts) ++ ts)
      ((listPages depth parts).toList ++ rest) := by
  rw [withCommas_true]
  induction parts with
  | nil => exact h
  | cons v parts ih =>
    have hrest := ih fun w hw => hparts w (List.mem_cons_of_mem _ hw)
    have hcomma := (Layout.blank (c := '\n') rfl hrest).mark (c := ',') rfl
    have hv := hparts v List.mem_cons_self depth _ _ (.cons (by decide)) hcomma
    simpa [listPages, partTokens] using layout_indent hv depth

theorem layout_fieldPages {fields : List (String × Value)}
    (hkeys : ∀ f ∈ fields, isWord f.1 = true) (hfields : ∀ f ∈ fields, f.2.LaidOut) (depth : Nat)
    (h : Layout ts rest) : Layout (withCommas true (fieldTokens fields) ++ ts)
      ((fieldPages depth fields).toList ++ rest) := by
  rw [withCommas_true]
  induction fields with
  | nil => exact h
  | cons f fields ih =>
    have hrest := ih (fun g hg => hkeys g (List.mem_cons_of_mem _ hg))
      fun g hg => hfields g (List.mem_cons_of_mem _ hg)
    have hcomma := (Layout.blank (c := '\n') rfl hrest).mark (c := ',') rfl
    have hv := hfields f List.mem_cons_self depth _ _ (.cons (by decide)) hcomma
    have hcolon := (Layout.blank (c := ' ') rfl hv).mark (c := ':') rfl
    have hkey := Layout.loose (.word (hkeys f List.mem_cons_self)) (.cons (by decide)) hcolon
    simpa [fieldPages, fieldTokens] using layout_indent hkey depth

end Pages

theorem Printable.laidOut {v : Value} (h : v.Printable) : v.LaidOut := by
  induction h with
  | @nat n hn =>
    intro depth ts rest hrest hl
    exact .loose (.nat hn) hrest hl
  | @str s =>
    intro depth ts rest _ hl
    have hmark : '"' ∈ Text.notationMarks := by decide
    have hquotes := Quotes.escape_self hmark (.refl _) s.toList
    simpa [tokens, page, Text.quote] using Layout.enclosed (.text hquotes) hl
  | word hw _ =>
    intro depth ts rest hrest hl
    exact .loose (.word hw) hrest hl
  | group hname _ ih =>
    intro depth ts rest _ hl
    have hv := ih depth _ _ (.cons (by decide)) (hl.mark (c := ')') rfl)
    simpa [tokens, page, partTokens, withCommas, groupPages] using layout_name hname hv
  | record hname _ hkeys _ _ ih =>
    intro depth ts rest _ hl
    have hfields := layout_fieldPages hkeys ih (depth + 1)
      (layout_indent (hl.mark (c := ')') rfl) depth)
    have hopen := layout_name (fun w hw => (hname w hw).1) (Layout.blank (c := '\n') rfl hfields)
    simpa [tokens, page] using hopen
  | @list parts _ ih =>
    intro depth ts rest _ hl
    have hclose := hl.mark (c := ']') rfl
    -- an empty list is printed on one line, any other one with a line for each part
    cases parts with
    | nil => simpa [tokens, page, partTokens, withCommas] using hclose.mark (c := '[') rfl
    | cons v parts =>
      have hparts := layout_listPages ih (depth + 1) (layout_indent hclose depth)
      have hopen := (Layout.blank (c := '\n') rfl hparts).mark (c := '[') rfl
      simpa [tokens, page, listPages] using hopen

/-- A value that is printed on lines of its own is a layout of its tokens. -/
theorem Printable.layout {v : Value} (h : v.Printable) : Layout v.tokens (v.page 0).toList := by
  have hl := h.laidOut 0 [] [] (by simp [Closes]) .nil
  simpa using hl

end Value

end CoolTypes.Notation
