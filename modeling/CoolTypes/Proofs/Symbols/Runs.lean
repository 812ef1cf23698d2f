import CoolTypes.Proofs.Symbols.Tables

/-!
# Runs over a table

Whatever is asked of a table, and in whatever order, its entries are the texts that have been added, each
where it was added first. So a text and its symbol belong together for the rest of the run: what one operation
says about them (`Event.Gives`) is what all later ones say (`Event.AgreesWith`), and questions change nothing,
those without an answer included (`texts_and_symbols_stay_paired`).

Where a symbol has 32 bits, its number is cut to them if the text has an entry already, and checked if the
entry is new. As long as all entries can be numbered, nothing of this shows (`runNarrow_eq`).
-/

namespace CoolTypes.Interner

/-- What can be asked of a table. -/
inductive Operation where
  | add (text : String)
  | get (text : String)
  | lookup (s : Symbol)
  | tryLookup (s : Symbol)
  | contains (s : Symbol)

/-- The text that an operation adds. -/
def Operation.text? : Operation → Option String
  | .add text => some text
  | _ => none

/-- The texts that are added, in order. -/
def added (ops : List Operation) : List String := ops.filterMap Operation.text?

/-- What was asked of a table, and the answer. -/
inductive Event where
  | add (text : String) (answer : Symbol)
  | get (text : String) (answer : Option Symbol)
  | lookup (s : Symbol) (answer : Except Fault String)
  | tryLookup (s : Symbol) (answer : Option String)
  | contains (s : Symbol) (answer : Bool)

namespace Event

/-- The answer gives a caller the symbol for the text. -/
def Gives (text : String) (s : Symbol) : Event → Prop
  | .add text' answer => text' = text ∧ answer = s
  | .get text' answer => text' = text ∧ answer = some s
  | _ => False

/-- The answer is right if the symbol stands for the text: this text has this symbol and no other text has,
and this symbol has this text and no other symbol has. -/
def AgreesWith (text : String) (s : Symbol) : Event → Prop
  | .add text' answer => text' = text ↔ answer = s
  | .get text' answer => text' = text ↔ answer = some s
  | .lookup s' answer => s' = s ↔ answer = .ok text
  | .tryLookup s' answer => s' = s ↔ answer = some text
  | .contains s' answer => s' = s → answer = true

end Event

/-- Asks a table. A symbol that the table does not have is an answer like any other. -/
def ask : Operation → StateM Interner Event
  | .add text => return .add text (← modifyGet (·.add text))
  | .get text => return .get text ((← get).find? text)
  | .lookup s => return .lookup s ((← get).lookup s)
  | .tryLookup s => return .tryLookup s ((← get).get? s)
  | .contains s => return .contains s ((← get).contains s)

/-- Asks a table for one thing after the other: all that happens, and the table at the end. -/
def run (t : Interner) (ops : List Operation) : List Event × Interner := (ops.mapM ask).run t

/-! ## The table at the end -/

variable {t : Interner} {text : String} {s : Symbol}

theorem run_cons (t : Interner) (op : Operation) (ops : List Operation) :
    t.run (op :: ops) = (((ask op).run t).1 :: (((ask op).run t).2.run ops).1,
      (((ask op).run t).2.run ops).2) := by
  rw [run, List.mapM_cons]
  rfl

theorem run_append (t : Interner) (before after : List Operation) :
    t.run (before ++ after) = ((t.run before).1 ++ ((t.run before).2.run after).1,
      ((t.run before).2.run after).2) := by
  induction before generalizing t with
  | nil => rfl
  | cons op rest ih =>
    rw [List.cons_append, run_cons, run_cons, ih]
    rfl

/-- An operation does to the table what the text says that it adds. -/
theorem table_ask (op : Operation) (t : Interner) :
    ((ask op).run t).2 = op.text?.toList.foldl insert t := by
  cases op <;> rfl

theorem table_run (t : Interner) (ops : List Operation) :
    (t.run ops).2 = (added ops).foldl insert t := by
  induction ops generalizing t with
  | nil => rfl
  | cons op rest ih =>
    rw [run_cons, ih, table_ask, ← List.foldl_append]
    cases op <;> rfl

/-- A list without repetitions stays as it is. -/
theorem eraseDups_of_nodup {l : List String} (h : l.Nodup) : l.eraseDups = l := by
  induction l with
  | nil => rfl
  | cons a rest ih =>
    obtain ⟨ha, hrest⟩ := List.nodup_cons.mp h
    have hothers : rest.filter (fun b => !b == a) = rest := by
      rw [List.filter_eq_self]
      intro b hb
      have hne : b ≠ a := fun heq => ha (heq ▸ hb)
      simpa using hne
    rw [List.eraseDups_cons, hothers, ih hrest]

/-- Adding texts one after the other puts those that are new behind the entries, in order. -/
theorem entries_foldl_insert_eq (texts : List String) (t : Interner) :
    (texts.foldl insert t).entries = (t.entries ++ texts).eraseDups := by
  induction texts generalizing t with
  | nil => rw [List.foldl_nil, List.append_nil, eraseDups_of_nodup t.nodup]
  | cons text rest ih =>
    rw [List.foldl_cons, ih]
    by_cases hmem : text ∈ t.entries
    · have hdrop : (text :: rest).removeAll t.entries = rest.removeAll t.entries :=
        List.filter_cons_of_neg (by simpa using hmem)
      rw [insert_of_mem hmem, List.eraseDups_append, List.eraseDups_append, hdrop]
    · rw [entries_insert_of_not_mem hmem, List.append_assoc, List.singleton_append]

/-- The entries at the end of a run: all texts that have been added, each where it came first. -/
theorem entries_run (t : Interner) (ops : List Operation) :
    (t.run ops).2.entries = (t.entries ++ added ops).eraseDups := by
  rw [table_run, entries_foldl_insert_eq]

theorem entries_prefix_foldl_insert (texts : List String) (t : Interner) :
    t.entries <+: (texts.foldl insert t).entries :=
  List.foldlRecOn (motive := fun u => t.entries <+: u.entries) texts insert (List.prefix_refl _)
    fun u hu text _ => hu.trans (u.entries_prefix_insert text)

theorem entries_prefix_ask (op : Operation) (t : Interner) :
    t.entries <+: ((ask op).run t).2.entries := by
  rw [table_ask]
  exact entries_prefix_foldl_insert _ t

theorem entries_prefix_run (t : Interner) (ops : List Operation) :
    t.entries <+: (t.run ops).2.entries := by
  rw [table_run]
  exact entries_prefix_foldl_insert _ t

/-! ## What is said about a text and its symbol -/

/-- A symbol that has been given for a text stands for it. -/
theorem get?_of_gives {op : Operation} (h : ((ask op).run t).1.Gives text s) :
    ((ask op).run t).2.get? s = some text := by
  cases op with
  | add text' =>
    obtain ⟨rfl, rfl⟩ := h
    exact t.get?_add text'
  | get text' =>
    obtain ⟨rfl, h⟩ := h
    exact find?_eq_some_iff.mp h
  | lookup | tryLookup | contains => exact h.elim

/-- If a symbol stands for a text, all answers are right. -/
theorem agreesWith_ask (h : t.get? s = some text) (op : Operation) :
    ((ask op).run t).1.AgreesWith text s := by
  -- a symbol that stands for the same text is the same one
  have hsymbol : ∀ s', t.get? s' = some text ↔ s' = s := fun s' =>
    ⟨fun h' => get?_injective h' h, fun heq => heq ▸ h⟩
  cases op with
  | add text' =>
    have hadded : (t.insert text').get? (t.add text').1 = some text' := t.get?_add text'
    have hkept := get?_of_prefix (t.entries_prefix_insert text') h
    show text' = text ↔ (t.add text').1 = s
    constructor
    · rintro rfl
      exact get?_injective hadded hkept
    · rintro rfl
      exact Option.some.inj (hadded.symm.trans hkept)
  | get text' =>
    show text' = text ↔ t.find? text' = some s
    rw [find?_eq_some_iff, h, Option.some.injEq, eq_comm]
  | lookup s' =>
    show s' = s ↔ t.lookup s' = .ok text
    rw [lookup_eq_ok_iff, hsymbol]
  | tryLookup s' => exact (hsymbol s').symm
  | contains s' =>
    rintro rfl
    exact decide_eq_true (exists_get?_iff.mp ⟨text, h⟩)

/-- What a symbol stands for at the beginning of a run, it stands for throughout. -/
theorem agreesWith_run (h : t.get? s = some text) (ops : List Operation) :
    ∀ e ∈ (t.run ops).1, e.AgreesWith text s := by
  induction ops generalizing t with
  | nil =>
    intro e he
    cases he
  | cons op rest ih =>
    intro e he
    rw [run_cons] at he
    rcases List.mem_cons.mp he with rfl | he
    · exact agreesWith_ask h op
    · have hkept := get?_of_prefix (entries_prefix_ask op t) h
      exact ih hkept e he

/-- A symbol that is given for a text at any time stands for it at the end. -/
theorem get?_run_of_gives {ops : List Operation} {e : Event} (he : e ∈ (t.run ops).1)
    (h : e.Gives text s) : (t.run ops).2.get? s = some text := by
  induction ops generalizing t with
  | nil => cases he
  | cons op rest ih =>
    rw [run_cons] at he ⊢
    rcases List.mem_cons.mp he with rfl | he
    · exact get?_of_prefix (entries_prefix_run _ rest) (get?_of_gives h)
    · exact ih he

theorem pairwise_run (t : Interner) (ops : List Operation) :
    (t.run ops).1.Pairwise fun e later => ∀ text s, e.Gives text s → later.AgreesWith text s := by
  induction ops generalizing t with
  | nil => exact List.Pairwise.nil
  | cons op rest ih =>
    rw [run_cons]
    refine List.Pairwise.cons (fun later hlater text s h => ?_) (ih _)
    exact agreesWith_run (get?_of_gives h) rest later hlater

/-! ## Questions -/

theorem length_run (t : Interner) (ops : List Operation) : (t.run ops).1.length = ops.length := by
  induction ops generalizing t with
  | nil => rfl
  | cons op rest ih => rw [run_cons, List.length_cons, List.length_cons, ih]

/-- A question that is left out of a run is missed in what happens, and nowhere else. -/
theorem run_without_question {op : Operation} (h : op.text? = none) (before after : List Operation) :
    t.run (before ++ after) = ((t.run (before ++ op :: after)).1.eraseIdx before.length,
      (t.run (before ++ op :: after)).2) := by
  have hkept : ((ask op).run (t.run before).2).2 = (t.run before).2 := by
    rw [table_ask, h]
    rfl
  rw [run_append, run_append, run_cons, hkept, ← length_run t before,
    List.eraseIdx_append_of_length_le (Nat.le_refl _), Nat.sub_self, List.eraseIdx_cons_zero]

/-! ## Numbers of 32 bits -/

/-- The symbol of a text that has an entry, its number cut to 32 bits. -/
def findNarrow? (t : Interner) (text : String) : Option Symbol :=
  (t.find? text).map fun s => ⟨s.index % UInt32.size⟩

/-- Asks a table where a symbol has 32 bits. There is no answer if a new entry has no symbol. -/
def askNarrow : Operation → StateM Interner (Option Event)
  | .add text => return (← modifyGet (·.addNarrow text)).map (.add text)
  | .get text => return some (.get text ((← get).findNarrow? text))
  | op => return some (← ask op)

/-- Asks a table for one thing after the other, where a symbol has 32 bits. -/
def runNarrow (t : Interner) (ops : List Operation) : List (Option Event) × Interner :=
  (ops.mapM askNarrow).run t

theorem runNarrow_cons (t : Interner) (op : Operation) (ops : List Operation) :
    t.runNarrow (op :: ops) = (((askNarrow op).run t).1 :: (((askNarrow op).run t).2.runNarrow ops).1,
      (((askNarrow op).run t).2.runNarrow ops).2) := by
  rw [runNarrow, List.mapM_cons]
  rfl

theorem findNarrow?_eq (h : t.size ≤ UInt32.size) : t.findNarrow? text = t.find? text := by
  cases hfound : t.find? text with
  | none => rw [findNarrow?, hfound, Option.map_none]
  | some s =>
    have hlt : s.index < UInt32.size :=
      Nat.lt_of_lt_of_le (exists_get?_iff.mp ⟨text, find?_eq_some_iff.mp hfound⟩) h
    rw [findNarrow?, hfound, Option.map_some, Nat.mod_eq_of_lt hlt]

theorem askNarrow_eq {op : Operation} (h : ((ask op).run t).2.size ≤ UInt32.size) :
    (askNarrow op).run t = (some ((ask op).run t).1, ((ask op).run t).2) := by
  cases op with
  | add text =>
    show ((t.addNarrow text).1.map (Event.add text), (t.addNarrow text).2) = _
    rw [addNarrow_eq h]
    rfl
  | get text =>
    have hfound : t.findNarrow? text = t.find? text := findNarrow?_eq h
    show (some (Event.get text (t.findNarrow? text)), t) = _
    rw [hfound]
    rfl
  | lookup | tryLookup | contains => rfl

/-- Where all entries at the end of a run can be numbered, the width of the numbers does not show. -/
theorem runNarrow_eq {ops : List Operation} (h : (t.run ops).2.size ≤ UInt32.size) :
    t.runNarrow ops = ((t.run ops).1.map some, (t.run ops).2) := by
  induction ops generalizing t with
  | nil => rfl
  | cons op rest ih =>
    rw [run_cons] at h
    -- the table only grows, so on the way there all entries can be numbered too
    have hnow := askNarrow_eq (Nat.le_trans (entries_prefix_run _ rest).length_le h)
    rw [runNarrow_cons, run_cons, hnow, ih h, List.map_cons]

end CoolTypes.Interner

namespace CoolTypes

open Interner in
/-- In any run, the entries at the end are all texts that have been added, each where it came first. A symbol
that is given for a text is given for it by all later operations, and for no other text; whoever looks up the
symbol gets the text. At any time the symbol of a text and the text of a symbol undo each other, and the
symbols that have a text are those below the number of entries. A question can be left out of the run, a look-up
that fails included, and all else happens as before. If the entries can be numbered with 32 bits, the same
happens where symbols have 32 bits. -/
theorem texts_and_symbols_stay_paired (t : Interner) (ops : List Operation) :
    let log := (t.run ops).1
    let u := (t.run ops).2
    u.entries = (t.entries ++ added ops).eraseDups ∧
    log.Pairwise (fun e later => ∀ text s, e.Gives text s → later.AgreesWith text s) ∧
    (∀ e ∈ log, ∀ e' ∈ log, ∀ text text' s, e.Gives text s → e'.Gives text' s → text = text') ∧
    (∀ text s, u.find? text = some s ↔ u.get? s = some text) ∧
    (∀ s, (u.contains s = true ↔ s.index < u.size) ∧
      ((∃ text, u.get? s = some text) ↔ s.index < u.size) ∧
      ((∃ text, u.lookup s = .ok text) ↔ s.index < u.size)) ∧
    (∀ before op after, ops = before ++ op :: after → op.text? = none →
      t.run (before ++ after) = (log.eraseIdx before.length, u)) ∧
    ((t.entries ++ added ops).eraseDups.length ≤ UInt32.size →
      t.runNarrow ops = (log.map some, u)) := by
  intro log u
  refine ⟨entries_run t ops, pairwise_run t ops, fun e he e' he' text text' s h h' => ?_,
    fun _ _ => find?_eq_some_iff, fun s => ⟨decide_eq_true_iff, exists_get?_iff, ?_⟩, ?_, fun h => ?_⟩
  · have htext := get?_run_of_gives he h
    rw [get?_run_of_gives he' h'] at htext
    exact (Option.some.inj htext).symm
  · simp only [lookup_eq_ok_iff]
    exact exists_get?_iff
  · rintro before op after rfl hquestion
    exact run_without_question hquestion before after
  · rw [← entries_run] at h
    exact runNarrow_eq h

open Interner in
theorem texts_and_symbols_stay_paired_mixed :
    let ops : List Operation := [.add "b", .lookup ⟨1⟩, .add "a", .get "b", .add "b", .tryLookup ⟨0⟩]
    (empty.run ops).2.entries = ["b", "a"] ∧
    Event.lookup ⟨1⟩ (.error (.foreignSymbol ⟨1⟩)) ∈ (empty.run ops).1 ∧
    (∀ later ∈ (empty.run ops).1.tail, later.AgreesWith "b" ⟨0⟩) ∧
    empty.run [.add "b", .add "a", .get "b", .add "b", .tryLookup ⟨0⟩] =
      ((empty.run ops).1.eraseIdx 1, (empty.run ops).2) ∧
    empty.runNarrow ops = ((empty.run ops).1.map some, (empty.run ops).2) := by
  intro ops
  have hlog : (empty.run ops).1 = [.add "b" ⟨0⟩, .lookup ⟨1⟩ (.error (.foreignSymbol ⟨1⟩)),
      .add "a" ⟨1⟩, .get "b" (some ⟨0⟩), .add "b" ⟨0⟩, .tryLookup ⟨0⟩ (some "b")] := rfl
  obtain ⟨hentries, hpairs, -, -, -, hquestion, hnarrow⟩ := texts_and_symbols_stay_paired empty ops
  refine ⟨hentries.trans (by decide), by simp [hlog], ?_,
    hquestion [.add "b"] (.lookup ⟨1⟩) _ rfl rfl, hnarrow (by decide)⟩
  rw [hlog] at hpairs ⊢
  exact fun later hlater => (List.pairwise_cons.mp hpairs).1 later hlater "b" ⟨0⟩ ⟨rfl, rfl⟩

end CoolTypes
