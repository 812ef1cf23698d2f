import CoolTypes.Notation.Reader
import CoolTypes.Proofs.Notation.Layout

/-!
# Reading values

The tokens of a value (`Value.Writes`) can have a comma after the last part of a bracket or not, raw words
as names and any kind of value inside any other one. The reader is a machine over tokens with a stack of
open brackets. The tokens of a value take it from where a value can come to the end of that value, and leave
the stack as it was (`Value.Writes.reads`). So every layout of them is read as the value (`readText_eq`), as
long as its brackets are not nested too deep; otherwise it is not read to its end (`value_readText`).
-/

namespace CoolTypes.Notation

/-! ## The tokens of a value -/

namespace Value

/-- The tokens of a value. In front of brackets stands a name or none; the word `Some` has one value in its
brackets. A bracket has a comma after its last part if `last` holds. -/
inductive Writes : Value → List Token → Prop
  | nat {n : Nat} : Writes (.nat n) [.nat n]
  | str {s : String} : Writes (.str s) [.str s]
  | other : Writes (.other []) [.other]
  | word {w : String} : w ≠ "Some" → isJoined w = false → Writes (.word w) [.word w]
  | group {name : Option String} (last : Bool) (parts : List (Value × List Token)) :
      (∀ w ∈ name, namesGroup w = true ∧ (w = "Some" → parts.length = 1)) →
      (∀ p ∈ parts, Writes p.1 p.2) →
      Writes (.group name (parts.map Prod.fst))
        (nameTokens name ++ .mark '(' :: withCommas last (parts.map Prod.snd) ++ [.mark ')'])
  | record {name : Option String} (last : Bool) (fields : List (String × Value × List Token)) :
      (∀ w ∈ name, namesGroup w = true ∧ w ≠ "Some") → fields ≠ [] →
      (∀ f ∈ fields, isJoined f.1 = false) → (∀ f ∈ fields, Writes f.2.1 f.2.2) →
      Writes (.record name (fields.map fun f => (unmarked f.1, f.2.1)))
        (nameTokens name ++
          .mark '(' :: withCommas last (fields.map fun f => .word f.1 :: .mark ':' :: f.2.2) ++
            [.mark ')'])
  | list (last : Bool) (parts : List (Value × List Token)) : (∀ p ∈ parts, Writes p.1 p.2) →
      Writes (.list (parts.map Prod.fst))
        (.mark '[' :: withCommas last (parts.map Prod.snd) ++ [.mark ']'])
  | map (last : Bool) (entries : List ((Value × List Token) × (Value × List Token))) :
      (∀ e ∈ entries, Writes e.1.1 e.1.2) → (∀ e ∈ entries, Writes e.2.1 e.2.2) →
      Writes (.other (entries.flatMap fun e => [e.1.1, e.2.1]))
        (.mark '\x7b' :: withCommas last (entries.map fun e => e.1.2 ++ .mark ':' :: e.2.2) ++
          [.mark '\x7d'])

end Value

/-! ## Where a value can come -/

/-- Whether a value becomes part of what is open. -/
def Frame.holds : Frame → Bool
  | .record _ _ none => false
  | .present => false
  | _ => true

/-- A value can come, as the whole text or as a part of the innermost bracket. -/
def Ready : List Frame → Prop
  | [] => True
  | f :: _ => f.holds = true

theorem Frame.wantsValue_of_holds {f : Frame} (h : f.holds = true) : f.wantsValue = true := by
  cases f with
  | record _ _ key => cases key with
    | none => exact absurd h (by simp [holds])
    | some _ => rfl
  | _ => rfl

namespace ReadState

theorem settle_of_ready {frames : List Frame} (h : Ready frames) (v : Value) :
    settle v frames = (v, frames) := by
  cases frames with
  | nil => rfl
  | cons f rest => cases f with
    | present => exact absurd h (by simp [Ready, Frame.holds])
    | _ => rfl

theorem complete_of_ready {frames : List Frame} (h : Ready frames) (v : Value) :
    complete v frames = got v frames := by
  simp only [complete, settle_of_ready h]

theorem leaf_of_ready {frames : List Frame} (h : Ready frames) (v : Value) :
    leaf v frames = got v frames := by
  cases frames with
  | nil => rfl
  | cons f rest =>
    rw [leaf, if_pos (Frame.wantsValue_of_holds h), complete_of_ready h]

theorem openFrame_of_ready {frames : List Frame} (h : Ready frames) (new : Frame) :
    openFrame new frames = want (new :: frames) := by
  cases frames with
  | nil => rfl
  | cons f rest => exact if_pos (Frame.wantsValue_of_holds h)

theorem wordIsValue_of_ready {frames : List Frame} (h : Ready frames) :
    wordIsValue frames = true := by
  cases frames with
  | nil => rfl
  | cons f rest => exact Frame.wantsValue_of_holds h

/-- The marks that end a value. -/
def IsEnd (c : Char) : Prop := c = ',' ∨ c = ')' ∨ c = ']' ∨ c = '\x7d'

/-- The reader is at the end of a value, which may be a word that could still name a bracket or a field. -/
structure Ends (v : Value) (frames : List Frame) (s : ReadState) : Prop where
  finish : s.finish = finishAfter v frames
  mark : ∀ c, IsEnd c → step false s (.mark c) = endEntry v c frames
  colon : ∀ parts rest, frames = .map parts none :: rest →
    step false s (.mark ':') = want (.map parts (some v) :: rest)

theorem ends_got (v : Value) (frames : List Frame) : Ends v frames (got v frames) := by
  constructor
  · rfl
  · rintro c (rfl | rfl | rfl | rfl) <;> rfl
  · rintro parts rest rfl
    rfl

theorem ends_word {frames : List Frame} (h : Ready frames) (w : String) :
    Ends (.word w) frames (word w frames) := by
  constructor
  · simp only [ReadState.finish, wordIsValue_of_ready h, if_true, settle_of_ready h]
  · -- neither does the mark make the word a key, nor does it open a bracket with the word as name
    intro c hc
    have hcolon : Token.mark c ≠ .mark ':' := by
      rcases hc with rfl | rfl | rfl | rfl <;> decide
    have hopen : Token.mark c ≠ .mark '(' := by
      rcases hc with rfl | rfl | rfl | rfl <;> decide
    have hne : c ≠ ':' := fun heq => hcolon (heq ▸ rfl)
    simp only [step, hcolon, false_and, if_false, wordIsValue_of_ready h, if_true, afterWord, hopen,
      Bool.false_eq_true, settle_of_ready h, afterValue, hne]
  · -- in a curly bracket no name of a field can come
    rintro parts rest rfl
    have hname : nameField? w (.map parts none :: rest) = none := rfl
    have hopen : Token.mark ':' ≠ .mark '(' := by decide
    simp only [step, hname, ite_self, wordIsValue_of_ready h, if_true, afterWord, hopen, if_false,
      Bool.false_eq_true, false_and, settle_of_ready h, afterValue, colonAfter]

/-- A comma puts the value among the parts. -/
theorem endEntry_comma {f : Frame} (h : f.entryEnds = true) (v : Value) (rest : List Frame) :
    endEntry v ',' (f :: rest) = want (f.add v :: rest) := by
  simp [endEntry, h]

/-- The closing bracket puts the value among the parts and completes the bracket. -/
theorem endEntry_close {f : Frame} {c : Char} (h : f.entryEnds = true) (hcomma : c ≠ ',')
    (hc : f.closing? = some c) (v : Value) {rest : List Frame} (hrest : Ready rest) :
    endEntry v c (f :: rest) = got (f.add v).close rest := by
  simp only [endEntry, h, Bool.not_true, Bool.false_eq_true, if_false, hcomma, hc, if_true,
    complete_of_ready hrest]

end ReadState

open ReadState

/-- The state after some tokens. -/
abbrev readFrom (s : ReadState) (ts : List Token) : ReadState := ts.foldl (step false) s

theorem readFrom_append (s : ReadState) (ts us : List Token) :
    readFrom s (ts ++ us) = readFrom (readFrom s ts) us := List.foldl_append

theorem readFrom_cons (s : ReadState) (t : Token) (ts : List Token) :
    readFrom s (t :: ts) = readFrom (step false s t) ts := rfl

/-! ## Entries of a bracket -/

/-- The tokens of a value take the reader to the end of the value. -/
def Value.Reads (v : Value) (ts : List Token) : Prop :=
  ∀ frames, Ready frames → Ends v frames (readFrom (want frames) ts)

/-- The tokens of an entry make one innermost bracket of another, by a comma or by closing it. -/
structure Enters (f : Frame) (ts : List Token) (g : Frame) : Prop where
  comma : ∀ rest us, readFrom (want (f :: rest)) (ts ++ .mark ',' :: us) =
    readFrom (want (g :: rest)) us
  close : ∀ rest us c, Ready rest → g.closing? = some c →
    readFrom (want (f :: rest)) (ts ++ .mark c :: us) = readFrom (got g.close rest) us

/-- The closing mark of a bracket ends values. -/
theorem isEnd_of_closing {f : Frame} {c : Char} (h : f.closing? = some c) : IsEnd c ∧ c ≠ ',' := by
  cases f <;> simp only [Frame.closing?, Option.some.injEq, reduceCtorEq] at h <;> subst h <;>
    exact ⟨by simp [IsEnd], by decide⟩

/-- A value is an entry where it becomes part of what is open. -/
theorem Value.Reads.enters {v : Value} {ts : List Token} (hv : v.Reads ts) {f : Frame}
    (hf : f.holds = true) (hend : f.entryEnds = true) (hclosing : (f.add v).closing? = f.closing?) :
    Enters f ts (f.add v) := by
  constructor
  · intro rest us
    rw [readFrom_append, readFrom_cons, (hv (f :: rest) hf).mark ',' (.inl rfl), endEntry_comma hend]
  · intro rest us c hrest hc
    rw [hclosing] at hc
    obtain ⟨hmark, hcomma⟩ := isEnd_of_closing hc
    rw [readFrom_append, readFrom_cons, (hv (f :: rest) hf).mark c hmark,
      endEntry_close hend hcomma hc v hrest]

/-- The key of an entry and its colon. -/
theorem Enters.prepend {f f' g : Frame} {key ts : List Token}
    (hkey : ∀ rest us, readFrom (want (f :: rest)) (key ++ us) = readFrom (want (f' :: rest)) us)
    (h : Enters f' ts g) : Enters f (key ++ ts) g := by
  constructor
  · intro rest us
    rw [List.append_assoc, hkey, h.comma]
  · intro rest us c hrest hc
    rw [List.append_assoc, hkey, h.close rest us c hrest hc]

/-- The name of a field in a bracket that has no parts that are not fields. -/
theorem readFrom_key {key : String} (hkey : isJoined key = false) {frames frames' : List Frame}
    (h : nameField? key frames = some frames') (ts : List Token) :
    readFrom (want frames) (.word key :: .mark ':' :: ts) = readFrom (want frames') ts := by
  show readFrom (step false (word key frames) (.mark ':')) ts = _
  have hcond : Token.mark ':' = .mark ':' ∧ (!isJoined key) = true := by
    rw [hkey]
    exact ⟨rfl, rfl⟩
  simp only [step, hcond, and_self, if_true, h]

theorem enters_field {key : String} (hkey : isJoined key = false) {v : Value} {ts : List Token}
    (hv : v.Reads ts) (name : Option String) (done : List (String × Value)) :
    Enters (.record name done none) (.word key :: .mark ':' :: ts)
      (.record name ((unmarked key, v) :: done) none) := by
  have hvalue := hv.enters (f := .record name done (some (unmarked key))) rfl rfl rfl
  exact @Enters.prepend _ _ _ [.word key, .mark ':'] ts (fun _ us => readFrom_key hkey rfl us) hvalue

theorem enters_entry {k v : Value} {kts vts : List Token} (hk : k.Reads kts) (hv : v.Reads vts)
    (done : List Value) :
    Enters (.map done none) (kts ++ .mark ':' :: vts) (.map (v :: k :: done) none) := by
  have hvalue := hv.enters (f := .map done (some k)) rfl rfl rfl
  have hkey : ∀ rest us, readFrom (want (.map done none :: rest)) ((kts ++ [.mark ':']) ++ us) =
      readFrom (want (.map done (some k) :: rest)) us := by
    intro rest us
    rw [List.append_assoc, readFrom_append, List.singleton_append, readFrom_cons,
      (hk (.map done none :: rest) rfl).colon done rest rfl]
  simpa [Frame.add] using Enters.prepend hkey hvalue

/-! ## Brackets -/

section Brackets

variable {α β : Type} {closing : Char} {frames : List Frame}

/-- A bracket is closed when no entry has been read since the last mark. -/
theorem readFrom_close {f : Frame} (hclosing : f.closing? = some closing) (hcan : f.canClose = true)
    (hframes : Ready frames) (us : List Token) :
    readFrom (want (f :: frames)) (.mark closing :: us) = readFrom (got f.close frames) us := by
  have hmark : start (f :: frames) (.mark closing) = closeEmpty closing (f :: frames) := by
    obtain ⟨rfl | rfl | rfl | rfl, _⟩ := isEnd_of_closing hclosing <;> rfl
  show readFrom (start (f :: frames) (.mark closing)) us = _
  rw [hmark, closeEmpty, if_pos ⟨hclosing, hcan⟩, complete_of_ready hframes]

/-- A bracket is filled with entries one by one: `mk` is the bracket with what has been read in it, last
one first, and an entry with the tokens `toks` adds what `val` says. -/
theorem readFrom_entries (mk : List β → Frame) (toks : α → List Token) (val : α → List β)
    {entries : List α}
    (h : ∀ e ∈ entries, ∀ done, Enters (mk done) (toks e) (mk ((val e).reverse ++ done)))
    (hclosing : ∀ done, (mk done).closing? = some closing)
    (hcan : ∀ done, (mk done).canClose = true) (hframes : Ready frames) (last : Bool)
    (done : List β) (us : List Token) :
    readFrom (want (mk done :: frames))
        (Value.withCommas last (entries.map toks) ++ .mark closing :: us) =
      readFrom (got (mk ((entries.flatMap val).reverse ++ done)).close frames) us := by
  induction entries generalizing done with
  | nil => exact readFrom_close (hclosing done) (hcan done) hframes us
  | cons e entries ih =>
    have he := h e List.mem_cons_self done
    have hrest := ih (fun d hd => h d (List.mem_cons_of_mem _ hd)) ((val e).reverse ++ done)
    cases entries with
    | nil =>
      -- the closing mark takes the place of a comma after the last entry, or follows it
      simp only [List.map_cons, List.map_nil, Value.withCommas, List.flatMap_cons, List.flatMap_nil,
        List.append_nil]
      cases last with
      | false =>
        rw [if_neg Bool.false_ne_true, List.append_nil]
        exact he.close _ us _ hframes (hclosing _)
      | true =>
        rw [if_pos rfl, List.append_assoc]
        exact (he.comma _ _).trans (readFrom_close (hclosing _) (hcan _) hframes us)
    | cons d entries =>
      simp only [List.map_cons, Value.withCommas, List.append_assoc, List.cons_append,
        List.flatMap_cons, List.reverse_append] at hrest ⊢
      rw [he.comma, hrest]

end Brackets

theorem readFrom_name {frames : List Frame} (h : Ready frames) (name : Option String)
    (ts : List Token) : readFrom (want frames) (Value.nameTokens name ++ .mark '(' :: ts) =
      readFrom (want (.group name [] :: frames)) ts := by
  cases name with
  | none =>
    show readFrom (openFrame (.group none []) frames) ts = _
    rw [openFrame_of_ready h]
  | some w =>
    show readFrom (step false (word w frames) (.mark '(')) ts = _
    have hcolon : Token.mark '(' ≠ .mark ':' := by decide
    simp only [step, hcolon, false_and, if_false, wordIsValue_of_ready h, if_true, afterWord]

/-- With the first field a bracket becomes that of a record. -/
theorem readFrom_firstField {fields : List (String × Value × List Token)} (hne : fields ≠ [])
    (hkeys : ∀ f ∈ fields, isJoined f.1 = false) (name : Option String) (frames : List Frame)
    (last : Bool) (us : List Token) :
    let ts := Value.withCommas last (fields.map fun f => .word f.1 :: .mark ':' :: f.2.2) ++ us
    readFrom (want (.group name [] :: frames)) ts =
      readFrom (want (.record name [] none :: frames)) ts := by
  obtain ⟨⟨key, v, ts⟩, fields, rfl⟩ := List.exists_cons_of_ne_nil hne
  have hkey : isJoined key = false := hkeys _ List.mem_cons_self
  have hgroup : nameField? key (.group name [] :: frames) =
      some (.record name [] (some (unmarked key)) :: frames) := rfl
  have hrecord : nameField? key (.record name [] none :: frames) =
      some (.record name [] (some (unmarked key)) :: frames) := rfl
  -- the first key makes the same state of both
  cases fields <;>
    simp only [List.map_cons, List.map_nil, Value.withCommas, List.cons_append] <;>
    rw [readFrom_key hkey hgroup, readFrom_key hkey hrecord]

namespace Value

/-- The tokens of a value are read to its end. -/
theorem Writes.reads {v : Value} {ts : List Token} (h : v.Writes ts) : v.Reads ts := by
  induction h with
  | nat =>
    intro frames hframes
    show Ends _ _ (leaf _ frames)
    rw [leaf_of_ready hframes]
    exact ends_got _ _
  | str =>
    intro frames hframes
    show Ends _ _ (leaf _ frames)
    rw [leaf_of_ready hframes]
    exact ends_got _ _
  | other =>
    intro frames hframes
    show Ends _ _ (leaf _ frames)
    rw [leaf_of_ready hframes]
    exact ends_got _ _
  | word _ _ =>
    intro frames hframes
    exact ends_word hframes _
  | @group name last parts _ _ ih =>
    intro frames hframes
    have hread := readFrom_entries (.group name) Prod.snd (fun p => [p.1])
      (fun p hp done => (ih p hp).enters rfl rfl rfl) (fun _ => rfl) (fun _ => rfl) hframes last [] []
    simp only [List.append_assoc, List.cons_append]
    rw [readFrom_name hframes, hread, List.map_eq_flatMap]
    simpa only [Frame.close, List.append_nil, List.reverse_reverse, List.foldl_nil] using ends_got _ _
  | @record name last fields _ hne hkeys _ ih =>
    intro frames hframes
    have hread := readFrom_entries (.record name · none)
      (fun f : String × Value × List Token => .word f.1 :: .mark ':' :: f.2.2)
      (fun f => [(unmarked f.1, f.2.1)])
      (fun f hf done => enters_field (hkeys f hf) (ih f hf) name done) (fun _ => rfl) (fun _ => rfl)
      hframes last [] []
    simp only [List.append_assoc, List.cons_append]
    rw [readFrom_name hframes, readFrom_firstField hne hkeys, hread, List.map_eq_flatMap]
    simpa only [Frame.close, List.append_nil, List.reverse_reverse, List.foldl_nil] using ends_got _ _
  | list last parts _ ih =>
    intro frames hframes
    have hread := readFrom_entries .list Prod.snd (fun p => [p.1])
      (fun p hp done => (ih p hp).enters rfl rfl rfl) (fun _ => rfl) (fun _ => rfl) hframes last [] []
    show Ends _ _ (readFrom (openFrame (.list []) frames) (withCommas last _ ++ _))
    rw [openFrame_of_ready hframes, hread, List.map_eq_flatMap]
    simpa only [Frame.close, List.append_nil, List.reverse_reverse, List.foldl_nil] using ends_got _ _
  | map last entries _ _ ihk ihv =>
    intro frames hframes
    have hread := readFrom_entries (.map · none)
      (fun e : (Value × List Token) × (Value × List Token) => e.1.2 ++ .mark ':' :: e.2.2)
      (fun e => [e.1.1, e.2.1]) (fun e he done => enters_entry (ihk e he) (ihv e he) done)
      (fun _ => rfl) (fun _ => rfl) hframes last [] []
    show Ends _ _ (readFrom (openFrame (.map [] none) frames) (withCommas last _ ++ _))
    rw [openFrame_of_ready hframes, hread]
    simpa only [Frame.close, List.append_nil, List.reverse_reverse, List.foldl_nil] using ends_got _ _

/-- The tokens of a value do not start like a header. -/
theorem Writes.readHeaders {v : Value} {ts : List Token} (h : v.Writes ts) (x : Extensions) :
    readHeaders x ts = some (x, ts) := by
  have hfirst : ∀ us, ts ≠ .mark '#' :: us := by
    intro us
    cases h with
    | @group name _ _ _ _ => cases name <;> simp [nameTokens]
    | @record name _ _ _ _ _ _ => cases name <;> simp [nameTokens]
    | _ => simp
  unfold Notation.readHeaders
  split
  · exact absurd rfl (hfirst _)
  · exact absurd rfl (hfirst _)
  · rfl

/-! ## Well-formed values -/

theorem areSound_eq (parts : List Value) : areSound parts = parts.all Value.isSound := by
  induction parts with
  | nil => rfl
  | cons v parts ih => rw [areSound, ih, List.all_cons]

theorem areSoundFields_eq (fields : List (String × Value)) :
    areSoundFields fields = fields.all (Value.isSound ·.2) := by
  induction fields with
  | nil => rfl
  | cons f fields ih => rw [areSoundFields, ih, List.all_cons]

theorem isSound_group {name : Option String} {parts : List Value} : Value.isSound (group name parts) =
    (name.all (fun w => namesGroup w && (w != "Some" || parts.length == 1)) &&
      parts.all Value.isSound) := by
  by_cases hname : name = some "Some"
  · subst hname
    have hsome : namesGroup "Some" = true := by decide
    simp [Value.isSound, areSound_eq, hsome]
  · have hne : name.all (fun w => namesGroup w && (w != "Some" || parts.length == 1)) =
        name.all namesGroup := by
      cases name with
      | none => rfl
      | some w =>
        have hw : w ≠ "Some" := fun h => hname (h ▸ rfl)
        simp [hw]
    rw [hne, ← areSound_eq]
    simp [Value.isSound]

/-- A value that has tokens is well formed all through. -/
theorem Writes.isSound {v : Value} {ts : List Token} (h : v.Writes ts) : Value.isSound v = true := by
  induction h with
  | nat | str | other => rfl
  | word hne hjoined => simp [Value.isSound, hne, hjoined]
  | @group name last parts hname _ ih =>
    rw [isSound_group, Bool.and_eq_true]
    refine ⟨?_, by simpa using ih⟩
    cases name with
    | none => rfl
    | some w =>
      obtain ⟨hgroup, hsome⟩ := hname w rfl
      simpa [hgroup] using (Classical.em (w = "Some")).symm.imp_right hsome
  | @record name last fields hname _ _ _ ih =>
    rw [Value.isSound, areSoundFields_eq, Bool.and_eq_true]
    refine ⟨?_, by simpa using ih⟩
    cases name with
    | none => rfl
    | some w => simp [hname w rfl]
  | list last parts _ ih =>
    rw [Value.isSound, areSound_eq]
    simpa using ih
  | map last entries _ _ ihk ihv =>
    rw [Value.isSound, areSound_eq, List.all_flatMap, List.all_eq_true]
    intro e he
    simp [ihk e he, ihv e he]

/-! ## Printed values -/

/-- A word of a printed value has no number sign, so it is no raw word. -/
theorem unmarked_of_isWord {w : String} (h : isWord w = true) : unmarked w = w := by
  unfold isWord at h
  unfold unmarked
  split
  · next cs hcs =>
    simp only [hcs, Bool.and_eq_true, List.all_cons] at h
    exact absurd h.2.1 (by decide)
  · rfl

theorem isJoined_of_isWord {w : String} (h : isWord w = true) : isJoined w = false := by
  unfold isWord at h
  rw [isJoined, Bool.eq_false_iff, ne_eq, List.isPrefixOf_iff_prefix]
  rintro ⟨cs, hcs⟩
  simp only [← hcs, List.cons_append, List.nil_append, Bool.and_eq_true, List.all_cons] at h
  exact absurd h.2.2.2.2.2.1 (by decide)

theorem Printable.writes {v : Value} (h : v.Printable) : v.Writes v.tokens := by
  induction h with
  | nat _ => exact .nat
  | str => exact .str
  | word hw hne => exact .word hne (isJoined_of_isWord hw)
  | @group name v hname _ ih =>
    have hnames : ∀ w ∈ name, namesGroup w = true := fun w hw =>
      (Bool.and_eq_true_iff.mp (hname w hw)).2
    exact .group false [(v, v.tokens)] (fun w hw => ⟨hnames w hw, fun _ => rfl⟩) (by simpa using ih)
  | @record name fields hname hne hkeys _ _ ih =>
    have hnames : ∀ w ∈ name, namesGroup w = true ∧ w ≠ "Some" := fun w hw =>
      ⟨(Bool.and_eq_true_iff.mp (hname w hw).1).2, (hname w hw).2⟩
    have hfields : fields.map (fun f => (unmarked f.1, f.2)) = fields := by
      rw [List.map_congr_left fun f hf => by rw [unmarked_of_isWord (hkeys f hf)]]
      simp
    have hjoined : ∀ f ∈ fields, isJoined f.1 = false := fun f hf => isJoined_of_isWord (hkeys f hf)
    have hwrites := Writes.record true (fields.map fun f => (f.1, f.2, f.2.tokens)) hnames
      (by simpa using hne) (List.forall_mem_map.mpr hjoined) (List.forall_mem_map.mpr ih)
    simpa [tokens, fieldTokens_eq, Function.comp_def, hfields] using hwrites
  | @list parts _ ih =>
    have hwrites := Writes.list true (parts.map fun v => (v, v.tokens)) (by simpa using ih)
    simpa [tokens, partTokens_eq, Function.comp_def] using hwrites

end Value

/-! ## Nesting -/

/-- The brackets in tokens are all closed, and at most `n` are nested: the tokens are kept wherever `n` more
brackets can be. -/
def Nested (n : Nat) (ts : List Token) : Prop :=
  ∀ limit depth us, depth + n ≤ limit → within limit depth (ts ++ us) = ts ++ within limit depth us

namespace Nested

variable {m n : Nat} {ts us : List Token}

theorem nil : Nested n [] := fun _ _ _ _ => rfl

theorem mono (h : Nested m ts) (hmn : m ≤ n) : Nested n ts := fun limit depth us hn =>
  h limit depth us (Nat.le_trans (Nat.add_le_add_left hmn depth) hn)

theorem append (hts : Nested n ts) (hus : Nested n us) : Nested n (ts ++ us) := by
  intro limit depth rest hn
  rw [List.append_assoc, hts limit depth _ hn, hus limit depth rest hn, List.append_assoc]

/-- A token that is no mark is kept. -/
theorem token {t : Token} (h : ∀ c, t ≠ .mark c) : Nested n [t] := by
  intro limit depth us _
  cases t with
  | mark c => exact absurd rfl (h c)
  | _ => rfl

theorem word (w : String) : Nested n [.word w] := token fun _ => Token.noConfusion

theorem comma : Nested n [.mark ','] := fun _ _ _ _ => rfl

theorem colon : Nested n [.mark ':'] := fun _ _ _ _ => rfl

/-- Brackets around tokens are one more. -/
theorem bracket {o c : Char} (ho : o = '(' ∨ o = '[' ∨ o = '\x7b') (hc : c = ')' ∨ c = ']' ∨ c = '\x7d')
    (h : Nested n ts) : Nested (n + 1) (.mark o :: ts ++ [.mark c]) := by
  intro limit depth us hn
  have hlt : depth < limit := by omega
  have hnot : ¬ (c = '(' ∨ c = '[' ∨ c = '\x7b') := by rcases hc with rfl | rfl | rfl <;> decide
  have hinner : within limit (depth + 1) (ts ++ .mark c :: us) =
      ts ++ within limit (depth + 1) (.mark c :: us) := h limit (depth + 1) _ (by omega)
  simp [within, ho, hlt, hinner, hc, hnot]

theorem commas {tss : List (List Token)} (h : ∀ ts ∈ tss, Nested n ts) (last : Bool) :
    Nested n (Value.withCommas last tss) := by
  induction tss with
  | nil => exact nil
  | cons ts tss ih =>
    rw [List.forall_mem_cons] at h
    cases tss with
    | nil =>
      cases last with
      | false => exact h.1.append nil
      | true => exact h.1.append comma
    | cons us tss => exact h.1.append (comma.append (ih h.2))

theorem name (name : Option String) : Nested n (Value.nameTokens name) := by
  cases name with
  | none => exact nil
  | some w => exact word w

end Nested

namespace Value

theorem depth_le_partsDepth {v : Value} {parts : List Value} (h : v ∈ parts) :
    v.depth ≤ partsDepth parts := by
  induction parts with
  | nil => cases h
  | cons w parts ih =>
    rcases List.mem_cons.mp h with rfl | h
    · exact Nat.le_max_left _ _
    · exact Nat.le_trans (ih h) (Nat.le_max_right _ _)

theorem depth_le_fieldsDepth {f : String × Value} {fields : Fields} (h : f ∈ fields) :
    f.2.depth ≤ fieldsDepth fields := by
  induction fields with
  | nil => cases h
  | cons g fields ih =>
    rcases List.mem_cons.mp h with rfl | h
    · exact Nat.le_max_left _ _
    · exact Nat.le_trans (ih h) (Nat.le_max_right _ _)

/-- The tokens of a value have as many nested brackets as the value. -/
theorem Writes.nested {v : Value} {ts : List Token} (h : v.Writes ts) : Nested v.depth ts := by
  induction h with
  | nat | str | other => exact .token fun _ => Token.noConfusion
  | word _ _ => exact .word _
  | @group name last parts _ _ ih =>
    have hparts : ∀ ts ∈ parts.map Prod.snd, Nested (partsDepth (parts.map Prod.fst)) ts := by
      intro ts hts
      obtain ⟨p, hp, rfl⟩ := List.mem_map.mp hts
      exact (ih p hp).mono (depth_le_partsDepth (List.mem_map_of_mem hp))
    rw [List.append_assoc]
    exact (Nested.name name).append (.bracket (.inl rfl) (.inl rfl) (.commas hparts last))
  | @record name last fields _ _ _ _ ih =>
    have hfields : ∀ ts ∈ fields.map (fun f => .word f.1 :: .mark ':' :: f.2.2),
        Nested (fieldsDepth (fields.map fun f => (unmarked f.1, f.2.1))) ts := by
      intro ts hts
      obtain ⟨f, hf, rfl⟩ := List.mem_map.mp hts
      have hdepth := depth_le_fieldsDepth
        (List.mem_map_of_mem (f := fun f : String × Value × List Token => (unmarked f.1, f.2.1)) hf)
      exact (Nested.word f.1).append (Nested.colon.append ((ih f hf).mono hdepth))
    rw [List.append_assoc]
    exact (Nested.name name).append (.bracket (.inl rfl) (.inl rfl) (.commas hfields last))
  | list last parts _ ih =>
    have hparts : ∀ ts ∈ parts.map Prod.snd, Nested (partsDepth (parts.map Prod.fst)) ts := by
      intro ts hts
      obtain ⟨p, hp, rfl⟩ := List.mem_map.mp hts
      exact (ih p hp).mono (depth_le_partsDepth (List.mem_map_of_mem hp))
    exact .bracket (.inr (.inl rfl)) (.inr (.inl rfl)) (.commas hparts last)
  | map last entries _ _ ihk ihv =>
    have hentries : ∀ ts ∈ entries.map (fun e => e.1.2 ++ .mark ':' :: e.2.2),
        Nested (partsDepth (entries.flatMap fun e => [e.1.1, e.2.1])) ts := by
      intro ts hts
      obtain ⟨e, he, rfl⟩ := List.mem_map.mp hts
      have hmem : ∀ v ∈ [e.1.1, e.2.1], v ∈ entries.flatMap fun e => [e.1.1, e.2.1] := fun v hv =>
        List.mem_flatMap.mpr ⟨e, he, hv⟩
      have hk := depth_le_partsDepth (hmem e.1.1 (by simp))
      have hv := depth_le_partsDepth (hmem e.2.1 (by simp))
      exact ((ihk e he).mono hk).append (Nested.colon.append ((ihv e he).mono hv))
    exact .bracket (.inr (.inr rfl)) (.inr (.inr rfl)) (.commas hentries last)

end Value

/-- Tokens are kept, or they end where brackets are nested too deep. -/
theorem within_eq_or (limit depth : Nat) (ts : List Token) :
    within limit depth ts = ts ∨ ∃ before, within limit depth ts = before ++ [.invalid] := by
  have hcons : ∀ (t : Token) (us vs : List Token), (us = vs ∨ ∃ before, us = before ++ [.invalid]) →
      t :: us = t :: vs ∨ ∃ before, t :: us = before ++ [.invalid] := by
    rintro t us vs (rfl | ⟨before, rfl⟩)
    · exact .inl rfl
    · exact .inr ⟨t :: before, rfl⟩
  fun_induction within limit depth ts with
  | case1 => exact .inl rfl
  | case2 _ _ _ _ _ ih => exact hcons _ _ _ ih
  | case3 => exact .inr ⟨[], rfl⟩
  | case4 _ _ _ _ _ ih => exact hcons _ _ _ ih
  | case5 _ _ _ _ _ ih => exact hcons _ _ _ ih
  | case6 _ _ _ _ ih => exact hcons _ _ _ ih

/-- Reading stops at an invalid token. -/
theorem ReadState.step_invalid (s : ReadState) : ∃ v, step false s .invalid = .stopped v := by
  have hafter : ∀ v frames, ∃ w, abandonAfter v frames = .stopped w := by
    intro v frames
    cases frames <;> exact ⟨_, rfl⟩
  cases s with
  | want frames => exact ⟨_, rfl⟩
  | got v frames => exact hafter v frames
  | stopped v => exact ⟨v, rfl⟩
  | word w frames =>
    by_cases hvalue : wordIsValue frames = true
    · simpa [step, hvalue, afterWord, afterValue] using hafter _ _
    · simp [step, hvalue, abandon]

/-! ## Texts -/

section Texts

variable {v : Value} {ts : List Token} {text : String} {limit : Nat}

/-- A layout of the tokens of a value announces nothing. -/
theorem readText_layout (h : v.Writes ts) (hl : Layout ts text.toList) : readText limit text =
    ({}, ((within limit 0 ts).foldl (ReadState.step false) (.want [])).finish) := by
  unfold readText
  rw [hl.tokens_eq, h.readHeaders]

/-- Every layout of the tokens of a value is read as the value, with nothing left over, if its brackets are
not nested too deep. -/
theorem readText_eq (h : v.Writes ts) (hl : Layout ts text.toList) (hdepth : v.depth ≤ limit) :
    readText limit text = ({}, v, true) := by
  have hkept : within limit 0 ts = ts := by
    simpa [within] using h.nested limit 0 [] (by omega)
  rw [readText_layout h hl, hkept, (h.reads [] trivial).finish]
  rfl

/-- A layout of the tokens of a value is read as the value or not read to its end. -/
theorem value_readText (h : v.Writes ts) (hl : Layout ts text.toList)
    (hclean : (readText limit text).2.2 = true) : (readText limit text).2.1 = v := by
  rw [readText_layout h hl] at hclean ⊢
  rcases within_eq_or limit 0 ts with hkept | ⟨before, hcut⟩
  · rw [hkept, (h.reads [] trivial).finish]
    rfl
  · obtain ⟨w, hw⟩ := ReadState.step_invalid (before.foldl (ReadState.step false) (.want []))
    rw [hcut, List.foldl_append, List.foldl_cons, List.foldl_nil, hw] at hclean
    cases hclean

end Texts

end CoolTypes.Notation
