import CoolTypes.Dump.Outline
import CoolTypes.Proofs.Notation.Scanning
import Mathlib.Data.List.Nodup

/-!
# Lines of outlines

A line shows a depth, a kind of node with the texts that belong to it, and a static type. If names and types
have no separator in them, the text of a line tells where the line ends, and all that it shows
(`Row.chars_append_cancel`). So rows with the same text are the same rows (`Row.eq_of_join_eq`).
-/

namespace CoolTypes

/-! ## Words and quoted texts -/

namespace Text

/-- The characters that stand between the words of a line. -/
def separators : List Char := ['\n', ' ', '"', '(', ')', ':']

/-- A text without separators. -/
def Unbroken (s : String) : Prop := ∀ c ∈ s.toList, c ∉ separators

instance : DecidablePred Unbroken := fun s => List.decidableBAll _ s.toList

/-- Letters, digits, underscores and hyphens. -/
def isNameChar (c : Char) : Bool := c.isAlphanum || c == '_' || c == '-'

/-- No name has a separator. -/
theorem unbroken_of_nameChars {s : String} (h : s.toList.all isNameChar = true) : Unbroken s := by
  have hall : separators.all fun d => !isNameChar d := by decide
  intro c hc hsep
  have hname := List.all_eq_true.mp h c hc
  have hnot := List.all_eq_true.mp hall c hsep
  simp [hname] at hnot

/-- A word ends where the next separator is. -/
theorem Unbroken.append_cancel {v w : String} (hv : Unbroken v) (hw : Unbroken w) {x y : List Char}
    (hx : ∀ c ∈ x.head?, c ∈ separators) (hy : ∀ c ∈ y.head?, c ∈ separators)
    (h : v.toList ++ x = w.toList ++ y) : v = w ∧ x = y := by
  have hword : ∀ {u : String} {z : List Char}, Unbroken u → (∀ c ∈ z.head?, c ∈ separators) →
      (u.toList ++ z).takeWhile (· ∉ separators) = u.toList := by
    intro u z hu hz
    rw [List.takeWhile_append_of_pos fun c hc => by simpa using hu c hc]
    cases z with
    | nil => simp
    | cons c z => simp [hz c rfl]
  have hvw : v.toList = w.toList := by rw [← hword hv hx, h, hword hw hy]
  rw [hvw] at h
  exact ⟨String.toList_inj.mp hvw, List.append_cancel_left h⟩

/-- A quoted text ends where its closing mark is, and no other text is quoted in the same way. -/
theorem quote_append_cancel {v w : String} {x y : List Char}
    (h : (quote listingMarks v).toList ++ x = (quote listingMarks w).toList ++ y) :
    v = w ∧ x = y := by
  have hquote : '"' ∈ listingMarks := by decide
  have hmarks : listingMarks ⊆ notationMarks := by decide
  have hscan := Notation.Scan.run_quote hquote hmarks
  have htokens := (hscan v x).symm.trans ((congrArg _ h).trans (hscan w y))
  obtain rfl : v = w := by simpa using (List.cons.inj htokens).1
  exact ⟨rfl, List.append_cancel_left h⟩

end Text

/-! ## Labels -/

namespace Outline

/-- The kinds of nodes that have a line. -/
inductive Kind where
  | assign | dynamicDispatch | staticDispatch | cond | loop | block | letIn | caseOf | new
  | binary (op : BinaryOp) | unary (op : UnaryOp)
  | object | int | string | bool | absent
  | self | type | arm | formal | method | «attribute» | «class»
deriving DecidableEq

namespace Kind

/-- The word for a kind. -/
def word : Kind → String
  | assign => "assign"
  | dynamicDispatch => "dynamic_dispatch"
  | staticDispatch => "static_dispatch"
  | cond => "if"
  | loop => "while"
  | block => "block"
  | letIn => "let"
  | caseOf => "case"
  | new => "new"
  | binary op => op.label
  | unary op => op.label
  | object => "object"
  | int => "int_const"
  | string => "str_const"
  | bool => "bool_const"
  | absent => "no_expr"
  | self => "self"
  | type => "type"
  | arm => "casebranch"
  | formal => "formal"
  | method => "method"
  | «attribute» => "attribute"
  | «class» => "class"

/-- All kinds. -/
def all : List Kind :=
  [assign, dynamicDispatch, staticDispatch, cond, loop, block, letIn, caseOf, new, object, int, string,
    bool, absent, self, type, arm, formal, method, «attribute»,
    «class»] ++
  BinaryOp.all.map binary ++ UnaryOp.all.map unary

theorem mem_all (k : Kind) : k ∈ all := by
  cases k with
  | binary op => cases op <;> decide
  | unary op => cases op <;> decide
  | _ => decide

theorem word_unbroken (k : Kind) : Text.Unbroken k.word := by
  have hall : ∀ k ∈ all, Text.Unbroken k.word := by decide
  exact hall k k.mem_all

theorem word_injective : Function.Injective word := by
  have hnodup : (all.map word).Nodup := by decide
  intro k k' h
  exact List.inj_on_of_nodup_map hnodup k.mem_all k'.mem_all h

end Kind

/-- What a label shows after the kind. -/
inductive Detail where
  | nothing
  | name (n : String)
  | typed (n ty : String)
  | child (n parent : String)
  | quoted (s : String)

/-- The label of a node. -/
structure Label where
  kind : Kind
  detail : Detail := .nothing

/-- The text of a label. -/
def Label.text : Label → String
  | ⟨k, .nothing⟩ => k.word
  | ⟨k, .name n⟩ => k.word ++ " (" ++ n ++ ")"
  | ⟨k, .typed n ty⟩ => k.word ++ " (" ++ n ++ ": " ++ ty ++ ")"
  | ⟨k, .child n parent⟩ => k.word ++ " (" ++ n ++ " inherits " ++ parent ++ ")"
  | ⟨k, .quoted s⟩ => k.word ++ " (" ++ Text.quote Text.listingMarks s ++ ")"

namespace Detail

/-- The words of a detail can be told apart from what is between them. -/
def Unbroken : Detail → Prop
  | nothing | quoted _ => True
  | name n => Text.Unbroken n
  | typed n ty => Text.Unbroken n ∧ Text.Unbroken ty
  | child n parent => Text.Unbroken n ∧ Text.Unbroken parent

/-- The first word of a detail. A quoted text begins with a mark instead. -/
def firstWord : Detail → String
  | nothing | quoted _ => ""
  | name n | typed n _ | child n _ => n

/-- What follows the first word of a detail. -/
def ending : Detail → String
  | nothing => ""
  | name _ => ")"
  | typed _ ty => ": " ++ ty ++ ")"
  | child _ parent => " inherits " ++ parent ++ ")"
  | quoted s => Text.quote Text.listingMarks s ++ ")"

/-- The text of a detail. -/
def text (d : Detail) : String :=
  match d with
  | nothing => ""
  | d => " (" ++ d.firstWord ++ d.ending

/-- The first word ends where the rest begins. -/
theorem head?_ending {d : Detail} (hd : d ≠ nothing) (x : List Char) :
    ∀ c ∈ (d.ending.toList ++ x).head?, c ∈ Text.separators := by
  cases d with
  | nothing => exact absurd rfl hd
  | _ => simp [ending, Text.quote, Text.separators]

theorem ending_append_cancel {a b : Detail} (ha : a.Unbroken) (hb : b.Unbroken) (hne : a ≠ nothing)
    (hne' : b ≠ nothing) (hword : a.firstWord = b.firstWord) {x y : List Char}
    (h : a.ending.toList ++ x = b.ending.toList ++ y) : a = b ∧ x = y := by
  have hclose : ∀ z : List Char, ∀ c ∈ (')' :: z).head?, c ∈ Text.separators := by
    simp [Text.separators]
  cases a with
  | nothing => exact absurd rfl hne
  | name n =>
    cases b with
    | nothing => exact absurd rfl hne'
    | name n' => exact ⟨congrArg name hword, by simpa [ending] using h⟩
    | _ => simp [ending, Text.quote] at h
  | typed n ty =>
    cases b with
    | nothing => exact absurd rfl hne'
    | typed n' ty' =>
      obtain ⟨hty, hxy⟩ := ha.2.append_cancel hb.2 (hclose x) (hclose y) (by simpa [ending] using h)
      exact ⟨congrArg₂ typed hword hty, (List.cons.inj hxy).2⟩
    | _ => simp [ending, Text.quote] at h
  | child n p =>
    cases b with
    | nothing => exact absurd rfl hne'
    | child n' p' =>
      obtain ⟨hp, hxy⟩ := ha.2.append_cancel hb.2 (hclose x) (hclose y) (by simpa [ending] using h)
      exact ⟨congrArg₂ child hword hp, (List.cons.inj hxy).2⟩
    | _ => simp [ending, Text.quote] at h
  | quoted s =>
    cases b with
    | nothing => exact absurd rfl hne'
    | quoted s' =>
      have h : (Text.quote Text.listingMarks s).toList ++ ')' :: x =
          (Text.quote Text.listingMarks s').toList ++ ')' :: y := by simpa [ending] using h
      obtain ⟨hs, hxy⟩ := Text.quote_append_cancel h
      exact ⟨congrArg quoted hs, (List.cons.inj hxy).2⟩
    | _ => simp [ending, Text.quote] at h

theorem text_of_ne_nothing {d : Detail} (hd : d ≠ nothing) :
    d.text = " (" ++ d.firstWord ++ d.ending := by
  cases d with
  | nothing => exact absurd rfl hd
  | _ => rfl

/-- A detail ends where the text goes on, unless it goes on like a detail. -/
theorem text_append_cancel {a b : Detail} (ha : a.Unbroken) (hb : b.Unbroken) {x y : List Char}
    (hx : ¬ [' ', '('] <+: x) (hy : ¬ [' ', '('] <+: y)
    (h : a.text.toList ++ x = b.text.toList ++ y) : a = b ∧ x = y := by
  have hopen : ∀ {d : Detail}, d ≠ nothing → ∀ z,
      d.text.toList ++ z = ' ' :: '(' :: (d.firstWord.toList ++ (d.ending.toList ++ z)) := by
    intro d hd z
    simp [text_of_ne_nothing hd]
  have hword : ∀ {d : Detail}, d.Unbroken → Text.Unbroken d.firstWord := by
    intro d hd
    cases d with
    | nothing | quoted => exact fun c hc => absurd hc (by simp [firstWord])
    | name n => exact hd
    | typed n ty | child n p => exact hd.1
  by_cases hne : a = nothing
  · by_cases hne' : b = nothing
    · subst hne hne'
      exact ⟨rfl, h⟩
    · subst hne
      exact absurd ⟨_, ((hopen hne' y).symm.trans h.symm)⟩ hx
  · by_cases hne' : b = nothing
    · subst hne'
      exact absurd ⟨_, ((hopen hne x).symm.trans h)⟩ hy
    · rw [hopen hne, hopen hne'] at h
      obtain ⟨hfirst, hending⟩ := (hword ha).append_cancel (hword hb) (head?_ending hne x)
        (head?_ending hne' y) (List.cons.inj (List.cons.inj h).2).2
      exact ending_append_cancel ha hb hne hne' hfirst hending

end Detail

theorem Label.text_eq (l : Label) : l.text = l.kind.word ++ l.detail.text := by
  obtain ⟨k, d⟩ := l
  cases d with
  | nothing => exact String.append_empty.symm
  | _ =>
    simp only [text, Detail.text, Detail.firstWord, Detail.ending, String.append_assoc,
      String.empty_append]

/-! ## Rows -/

/-- What a line shows. -/
structure Row where
  depth : Nat
  label : Label
  ty : Option String := none

namespace Row

/-- The line of a row. -/
def line (r : Row) : OutlineLine := ⟨r.depth, r.label.text, r.ty⟩

/-- The names and the type of a row can be told apart from what is between them. -/
structure Unbroken (r : Row) : Prop where
  detail : r.label.detail.Unbroken
  ty : ∀ ty ∈ r.ty, Text.Unbroken ty

/-- What a line shows after its label. -/
def typeText : Option String → String
  | none => "\n"
  | some ty => " : " ++ ty ++ "\n"

theorem text_line (r : Row) : r.line.text =
    "".pushn ' ' r.depth ++ "-" ++ r.label.kind.word ++ r.label.detail.text ++ typeText r.ty := by
  obtain ⟨d, l, ty⟩ := r
  cases ty <;> simp [line, OutlineLine.text, Label.text_eq, typeText, String.append_assoc]

theorem typeText_append_cancel {ty ty' : Option String} (h : ∀ T ∈ ty, Text.Unbroken T)
    (h' : ∀ T ∈ ty', Text.Unbroken T) {x y : List Char}
    (heq : (typeText ty).toList ++ x = (typeText ty').toList ++ y) : ty = ty' ∧ x = y := by
  cases ty with
  | none =>
    cases ty' with
    | none => exact ⟨rfl, by simpa [typeText] using heq⟩
    | some T' => simp [typeText] at heq
  | some T =>
    cases ty' with
    | none => simp [typeText] at heq
    | some T' =>
      have hend : ∀ z : List Char, ∀ c ∈ ('\n' :: z).head?, c ∈ Text.separators := by
        simp [Text.separators]
      obtain ⟨rfl, hxy⟩ := (h T rfl).append_cancel (h' T' rfl) (hend x) (hend y)
        (by simpa [typeText] using heq)
      exact ⟨rfl, (List.cons.inj hxy).2⟩

/-- A depth is shown by as many blanks. -/
theorem blanks_append_cancel {m n : Nat} {x y : List Char}
    (h : List.replicate m ' ' ++ '-' :: x = List.replicate n ' ' ++ '-' :: y) : m = n ∧ x = y := by
  induction m generalizing n with
  | zero =>
    cases n with
    | zero => simpa using h
    | succ n => simp [List.replicate_succ] at h
  | succ m ih =>
    cases n with
    | zero => simp [List.replicate_succ] at h
    | succ n =>
      simp only [List.replicate_succ, List.cons_append, List.cons.injEq, true_and] at h
      exact (ih h).imp_left (congrArg _)

/-- A kind ends where a detail, a type or the end of the line begins. -/
theorem head?_rest (d : Detail) (ty : Option String) (x : List Char) :
    ∀ c ∈ (d.text.toList ++ ((typeText ty).toList ++ x)).head?, c ∈ Text.separators := by
  by_cases hd : d = .nothing
  · subst hd
    cases ty <;> simp [Detail.text, typeText, Text.separators]
  · simp [Detail.text_of_ne_nothing hd, Text.separators]

/-- A line tells its own row, whatever follows it. -/
theorem text_append_cancel {r r' : Row} (h : r.Unbroken) (h' : r'.Unbroken) {x y : List Char}
    (heq : r.line.text.toList ++ x = r'.line.text.toList ++ y) : r = r' ∧ x = y := by
  obtain ⟨d, ⟨k, detail⟩, ty⟩ := r
  obtain ⟨d', ⟨k', detail'⟩, ty'⟩ := r'
  have hclosed : ∀ (ty : Option String) (z : List Char), ¬ [' ', '('] <+: (typeText ty).toList ++ z := by
    intro ty z
    cases ty <;> simp [typeText, List.cons_prefix_cons]
  simp only [text_line, String.toList_append, List.append_assoc,
    Notation.Scan.toList_blanks] at heq
  obtain ⟨hd, hlabel⟩ := blanks_append_cancel heq
  obtain ⟨hk, hdetail⟩ := k.word_unbroken.append_cancel k'.word_unbroken (head?_rest detail ty x)
    (head?_rest detail' ty' y) hlabel
  obtain ⟨rfl, htype⟩ :=
    Detail.text_append_cancel h.detail h'.detail (hclosed ty x) (hclosed ty' y) hdetail
  obtain ⟨rfl, hrest⟩ := typeText_append_cancel h.ty h'.ty htype
  rw [hd, Kind.word_injective hk]
  exact ⟨rfl, hrest⟩

/-- Rows with the same text are the same. -/
theorem eq_of_join_eq {rs rs' : List Row} (h : ∀ r ∈ rs, r.Unbroken) (h' : ∀ r ∈ rs', r.Unbroken)
    (heq : String.join (rs.map (·.line.text)) = String.join (rs'.map (·.line.text))) : rs = rs' := by
  have hne : ∀ (r : Row) (text : String), r.line.text ++ text ≠ "" := by
    intro r text
    simp [text_line]
  induction rs generalizing rs' with
  | nil =>
    cases rs' with
    | nil => rfl
    | cons r' rest' => exact absurd (String.join_cons.symm.trans heq.symm) (hne r' _)
  | cons r rest ih =>
    cases rs' with
    | nil => exact absurd (String.join_cons.symm.trans heq) (hne r _)
    | cons r' rest' =>
      rw [List.forall_mem_cons] at h h'
      rw [List.map_cons, List.map_cons, String.join_cons, String.join_cons] at heq
      obtain ⟨rfl, hrest⟩ := text_append_cancel h.1 h'.1
        (String.toList_append.symm.trans ((congrArg _ heq).trans String.toList_append))
      rw [ih h.2 h'.2 (String.toList_inj.mp hrest)]

end Row

end Outline

end CoolTypes
