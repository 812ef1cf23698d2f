import CoolTypes.Diagnostics.Sink

/-!
# Chains of calls on drafts

A diagnostic is drafted at a level by calls in any order, and then emitted. Messages and sources replace the
ones before them, but an error only gives a message if there is none yet. So the law is about drafts that have
something already: the last message, or else what the draft had, or else the first error
(`Draft.message_foldl_call`, with `Draft.source_foldl_call` for the source). A draft without a message is a
fault that the sink does not notice (`DraftChain.run_emit`), and over several chains this adds up to
`last_message_or_first_error_emitted`.
-/

namespace CoolTypes

/-- A call on a draft. -/
inductive DraftCall where
  | message (m : Message)
  | source (s : Source)
  | placedError (e : PlacedError)

/-- The draft with what the call fills in. -/
def Draft.call (d : Draft) : DraftCall → Draft
  | .message m => d.withMessage m
  | .source s => d.withSource s
  | .placedError e => d.withPlacedError e

namespace DraftCall

/-- The message that is given. -/
def message? : DraftCall → Option Message
  | .message m => some m
  | _ => none

/-- The error that is given. -/
def placedError? : DraftCall → Option PlacedError
  | .placedError e => some e
  | _ => none

/-- The source that is given; an error is one as well. -/
def source? : DraftCall → Option Source
  | .message _ => none
  | .source s => some s
  | .placedError e => some (.placed e)

end DraftCall

/-- Text and place of an error. -/
def PlacedError.toMessage (e : PlacedError) : Message := ⟨e.message, some e.span⟩

/-- A draft from its beginning to its emission. -/
structure DraftChain where
  level : Level
  calls : List DraftCall

namespace DraftChain

/-- The draft after all calls. -/
def draft (c : DraftChain) : Draft := c.calls.foldl Draft.call { level := c.level }

/-- The messages that are given, in order. -/
def messages (c : DraftChain) : List Message := c.calls.filterMap DraftCall.message?

/-- The errors that are given, in order. -/
def errors (c : DraftChain) : List PlacedError := c.calls.filterMap DraftCall.placedError?

/-- The sources that are given, in order. -/
def sources (c : DraftChain) : List Source := c.calls.filterMap DraftCall.source?

/-- What the calls come to: the last message, or else the first error, with the last source. -/
def diagnostic? (c : DraftChain) : Option Diagnostic :=
  (c.messages.getLast?.or (c.errors.head?.map PlacedError.toMessage)).map
    fun m => ⟨c.level, m, c.sources.getLast?⟩

/-- Whether there is anything to emit. -/
def outcome (c : DraftChain) : Except Fault Unit :=
  if c.messages = [] ∧ c.errors = [] then .error .missingMessage else .ok ()

/-- Emits the draft. A fault leaves the sink as it is then. -/
def emit (c : DraftChain) : ExceptT Fault (StateM Sink) Unit := do
  set (← (← get).emitDraft c.draft)

/-- Emits the drafts of chains one after the other, and goes on after a fault. -/
def emitAll (chains : List DraftChain) : StateM Sink (List (Except Fault Unit)) :=
  chains.mapM fun c => c.emit.run

end DraftChain

/-! ## The draft after some calls -/

/-- In front of others, a member is the last one only if there are no others. -/
theorem getLast?_cons_or {α : Type} (a : α) (l : List α) (o : Option α) :
    (a :: l).getLast?.or o = l.getLast?.or (some a) := by
  rw [List.getLast?_cons]
  cases l.getLast? <;> rfl

namespace Draft

theorem level_foldl_call (calls : List DraftCall) (d : Draft) :
    (calls.foldl call d).level = d.level := by
  induction calls generalizing d with
  | nil => rfl
  | cons k rest ih =>
    rw [List.foldl_cons, ih]
    cases k <;> rfl

/-- The last message replaces whatever there is, and the first error counts only if there is nothing yet. -/
theorem message_foldl_call (calls : List DraftCall) (d : Draft) :
    (calls.foldl call d).message = (calls.filterMap DraftCall.message?).getLast?.or
      (d.message.or ((calls.filterMap DraftCall.placedError?).head?.map PlacedError.toMessage)) := by
  induction calls generalizing d with
  | nil =>
    show d.message = d.message.or none
    rw [Option.or_none]
  | cons k rest ih =>
    rw [List.foldl_cons, ih]
    cases k with
    | message m => exact (getLast?_cons_or m _ _).symm
    | source => rfl
    | placedError e =>
      -- whatever comes first, what the draft has or this error, later errors find a message there
      rw [call, withPlacedError, Option.or_assoc]
      rfl

/-- The last source replaces whatever there is. -/
theorem source_foldl_call (calls : List DraftCall) (d : Draft) :
    (calls.foldl call d).source = (calls.filterMap DraftCall.source?).getLast?.or d.source := by
  induction calls generalizing d with
  | nil => rfl
  | cons k rest ih =>
    rw [List.foldl_cons, ih]
    cases k with
    | message => rfl
    | source s => exact (getLast?_cons_or s _ _).symm
    | placedError e => exact (getLast?_cons_or (Source.placed e) _ _).symm

end Draft

namespace DraftChain

theorem finish_draft (c : DraftChain) :
    c.draft.finish = c.diagnostic?.elim (.error .missingMessage) .ok := by
  have hmessage : c.draft.message =
      c.messages.getLast?.or (c.errors.head?.map PlacedError.toMessage) :=
    Draft.message_foldl_call c.calls { level := c.level }
  have hsource : c.draft.source = c.sources.getLast? :=
    (Draft.source_foldl_call c.calls { level := c.level }).trans (Option.or_none ..)
  have hlevel : c.draft.level = c.level := Draft.level_foldl_call c.calls { level := c.level }
  rw [Draft.finish, diagnostic?, hmessage, hsource, hlevel]
  cases c.messages.getLast?.or (c.errors.head?.map PlacedError.toMessage) <;> rfl

theorem diagnostic?_eq_none_iff (c : DraftChain) :
    c.diagnostic? = none ↔ c.messages = [] ∧ c.errors = [] := by
  simp [diagnostic?]

/-! ## Emission -/

theorem outcome_eq (c : DraftChain) :
    c.outcome = c.diagnostic?.elim (.error .missingMessage) fun _ => .ok () := by
  cases hd : c.diagnostic? with
  | none => exact if_pos (c.diagnostic?_eq_none_iff.mp hd)
  | some d =>
    have hne : ¬ (c.messages = [] ∧ c.errors = []) := by
      rw [← c.diagnostic?_eq_none_iff, hd]
      simp
    exact if_neg hne

/-- Keeping what a computation gives: a fault leaves what was there. -/
theorem run_set (x : Except Fault Sink) (s : Sink) :
    (do set (← x) : ExceptT Fault (StateM Sink) Unit).run.run s =
      (x.map fun _ => (), x.toOption.getD s) := by
  cases x <;> rfl

/-- A chain emits what its calls come to, or fails and does nothing. -/
theorem run_emit (c : DraftChain) (s : Sink) :
    c.emit.run.run s = (c.outcome, c.diagnostic?.elim s s.emit) := by
  have hdraft : s.emitDraft c.draft =
      c.diagnostic?.elim (.error .missingMessage) fun d => .ok (s.emit d) := by
    rw [Sink.emitDraft, c.finish_draft]
    cases c.diagnostic? <;> rfl
  have hemit : c.emit.run.run s = _ := run_set (s.emitDraft c.draft) s
  rw [hemit, hdraft, outcome_eq]
  cases c.diagnostic? <;> rfl

theorem run_emit_of_some {c : DraftChain} {d : Diagnostic} (h : c.diagnostic? = some d) (s : Sink) :
    c.emit.run.run s = (.ok (), s.emit d) := by
  rw [run_emit, outcome_eq, h]
  rfl

theorem run_emit_of_none {c : DraftChain} (h : c.diagnostic? = none) (s : Sink) :
    c.emit.run.run s = (.error .missingMessage, s) := by
  rw [run_emit, outcome_eq, h]
  rfl

theorem emitAll_cons (c : DraftChain) (chains : List DraftChain) (s : Sink) :
    (emitAll (c :: chains)).run s = ((c.emit.run.run s).1 :: ((emitAll chains).run (c.emit.run.run s).2).1,
      ((emitAll chains).run (c.emit.run.run s).2).2) := by
  rw [emitAll, List.mapM_cons]
  rfl

/-- Chains do one after the other what each of them does alone. -/
theorem run_emitAll (chains : List DraftChain) (s : Sink) :
    (emitAll chains).run s =
      (chains.map outcome, (chains.filterMap diagnostic?).foldl Sink.emit s) := by
  induction chains generalizing s with
  | nil => rfl
  | cons c rest ih =>
    rw [emitAll_cons, run_emit, ih, List.filterMap_cons]
    cases c.diagnostic? <;> rfl

end DraftChain

theorem Sink.emitted_foldl_emit (ds : List Diagnostic) (s : Sink) :
    (ds.foldl emit s).emitted = s.emitted ++ ds := by
  induction ds generalizing s with
  | nil => simp
  | cons d rest ih =>
    rw [List.foldl_cons, ih]
    simp [emit]

open DraftChain in
/-- A chain with a message emits its last message as it is, whatever errors there are, and a chain with errors
only emits text and place of the first one, both with the last source, which an error is as well. A chain with
neither fails and leaves the sink as it was. So after several chains a sink has, behind what it had, what the
chains that did not fail emit, in order, and it knows how many diagnostics these are and whether there are any. -/
theorem last_message_or_first_error_emitted :
    (∀ (c : DraftChain) (s : Sink),
      (∀ m, c.messages.getLast? = some m →
        c.emit.run.run s = (.ok (), s.emit ⟨c.level, m, c.sources.getLast?⟩)) ∧
      (∀ e, c.messages = [] → c.errors.head? = some e →
        c.emit.run.run s =
          (.ok (), s.emit ⟨c.level, ⟨e.message, some e.span⟩, c.sources.getLast?⟩)) ∧
      (c.messages = [] → c.errors = [] → c.emit.run.run s = (.error .missingMessage, s)) ∧
      (c.outcome = .ok () ↔ c.diagnostic?.isSome = true)) ∧
    ∀ (chains : List DraftChain) (s : Sink),
      let s' := ((emitAll chains).run s).2
      let diagnostics := s.emitted ++ chains.filterMap diagnostic?
      ((emitAll chains).run s).1 = chains.map outcome ∧
      s' = (chains.filterMap diagnostic?).foldl Sink.emit s ∧ s'.emitted = diagnostics ∧
      (s'.hasErrors = true ↔ diagnostics ≠ []) ∧ (s'.isEmpty = true ↔ diagnostics = []) ∧
      s'.count = diagnostics.length := by
  refine ⟨fun c s => ⟨fun m hm => run_emit_of_some ?_ s, fun e hnone he => run_emit_of_some ?_ s,
    fun hnone hno => run_emit_of_none (c.diagnostic?_eq_none_iff.mpr ⟨hnone, hno⟩) s, ?_⟩, ?_⟩
  · rw [diagnostic?, hm]
    rfl
  · rw [diagnostic?, hnone, he]
    rfl
  · rw [outcome_eq]
    cases c.diagnostic? <;> simp
  · intro chains s s' diagnostics
    have hsink : s' = (chains.filterMap diagnostic?).foldl Sink.emit s :=
      congrArg Prod.snd (run_emitAll chains s)
    have hemitted : s'.emitted = diagnostics := by rw [hsink, Sink.emitted_foldl_emit]
    refine ⟨congrArg Prod.fst (run_emitAll chains s), hsink, hemitted, ?_, ?_, ?_⟩
    · simp [Sink.hasErrors, hemitted]
    · simp [Sink.isEmpty, hemitted]
    · rw [Sink.count, hemitted]

/-- A message without a place among errors that have one; errors only; neither. -/
theorem last_message_or_first_error_emitted_mixed :
    let e : PlacedError := .typeError ⟨.noMainClass, .synthetic⟩
    let e' : PlacedError := .unknownSymbol ⟨.ids, 7, 3, .synthetic⟩
    let told : DraftChain := ⟨.error, [.placedError e, .message ⟨"one", some .synthetic⟩,
      .placedError e', .message ⟨"two", none⟩, .source (.system "disk")]⟩
    let failed : DraftChain := ⟨.fatal, [.source (.system "disk")]⟩
    let found : DraftChain := ⟨.fatal, [.source (.system "disk"), .placedError e, .placedError e']⟩
    let s' := ((DraftChain.emitAll [told, failed, found]).run {}).2
    told.emit.run.run {} =
      (.ok (), Sink.emit {} ⟨.error, ⟨"two", none⟩, some (.system "disk")⟩) ∧
    found.emit.run.run {} =
      (.ok (), Sink.emit {} ⟨.fatal, ⟨e.message, some .synthetic⟩, some (.placed e')⟩) ∧
    failed.emit.run.run {} = (.error .missingMessage, {}) ∧
    s'.emitted = [⟨.error, ⟨"two", none⟩, some (.system "disk")⟩,
      ⟨.fatal, ⟨e.message, some .synthetic⟩, some (.placed e')⟩] ∧ s'.count = 2 := by
  intro e e' told failed found s'
  obtain ⟨hchain, hchains⟩ := last_message_or_first_error_emitted
  obtain ⟨-, -, hemitted, -, -, hcount⟩ := hchains [told, failed, found] {}
  exact ⟨(hchain told {}).1 _ rfl, (hchain found {}).2.1 _ rfl rfl, (hchain failed {}).2.2.1 rfl rfl,
    hemitted, hcount⟩

end CoolTypes
