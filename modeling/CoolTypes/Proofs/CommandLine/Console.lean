import CoolTypes.CommandLine.Run
import CoolTypes.Proofs.Diagnostics.Texts

/-!
# Parts of a run

All parts of a run share a console. What a part does to it is said by its result and the lines that it shows
while a file is current (`Run.Tells`), or by the fault that it ends in (`Run.Fails`). Afterwards the same file
is current as before. The rules follow the way in which runs are put together; a whole run ends in a result or
in a fault, from every console on which no file is current and no error has been seen (`Run.Ends`).
-/

namespace CoolTypes

/-! ## What a sink has shown -/

/-- From one sink to the next, some lines have been shown, one for each new diagnostic. -/
structure Sink.Shows (s s' : Sink) (lines : List String) : Prop where
  heard : s'.heard = s.heard ++ lines
  count : s'.count = s.count + lines.length

namespace Sink.Shows

variable {s s' s'' : Sink} {lines lines' : List String}

theorem refl (s : Sink) : s.Shows s [] := ⟨(List.append_nil _).symm, rfl⟩

theorem trans (h : s.Shows s' lines) (h' : s'.Shows s'' lines') : s.Shows s'' (lines ++ lines') := by
  constructor
  · rw [h'.heard, h.heard, List.append_assoc]
  · rw [h'.count, h.count, List.length_append, Nat.add_assoc]

/-- There are errors if there have been some, or if lines have been shown. -/
theorem hasErrors (h : s.Shows s' lines) : s'.hasErrors = (s.hasErrors || !lines.isEmpty) := by
  have hcount : s'.emitted.length = s.emitted.length + lines.length := h.count
  rw [Sink.hasErrors, Sink.hasErrors, Bool.eq_iff_iff]
  simp only [Bool.or_eq_true, Bool.not_eq_true', List.isEmpty_eq_false_iff, ← List.length_pos_iff]
  omega

end Sink.Shows

namespace CommandLine

namespace Run

variable {α β : Type} {path : Option String} {m : Run α} {k : α → Run β} {a : α} {b : β}
  {lines lines' : List String} {e : Fault}

/-! ## Parts -/

/-- While a file is current, a part comes to a result and shows some lines. -/
def Tells (path : Option String) (m : Run α) (a : α) (lines : List String) : Prop :=
  ∀ s, ∃ s', m.run ⟨path, s⟩ = .ok (a, ⟨path, s'⟩) ∧ s.Shows s' lines

/-- While a file is current, a part ends in a fault. -/
def Fails (path : Option String) (m : Run α) (e : Fault) : Prop :=
  ∀ s, m.run ⟨path, s⟩ = .error e

theorem Tells.pure (a : α) : Tells path (Pure.pure a) a [] := fun s => ⟨s, rfl, .refl s⟩

theorem Tells.bind (hm : Tells path m a lines) (hk : Tells path (k a) b lines') :
    Tells path (m >>= k) b (lines ++ lines') := by
  intro s
  obtain ⟨s', hrun, hshows⟩ := hm s
  obtain ⟨s'', hrun', hshows'⟩ := hk s'
  refine ⟨s'', ?_, hshows.trans hshows'⟩
  rw [StateT.run_bind, hrun]
  exact hrun'

theorem Tells.bind_fails (hm : Tells path m a lines) (hk : Fails path (k a) e) :
    Fails path (m >>= k) e := by
  intro s
  obtain ⟨s', hrun, _⟩ := hm s
  rw [StateT.run_bind, hrun]
  exact hk s'

theorem Fails.bind (hm : Fails path m e) : Fails path (m >>= k) e := by
  intro s
  rw [StateT.run_bind, hm s]
  rfl

theorem run_withPath (p : String) (m : Run α) (c : Console) : (Run.withPath p m).run c = (do
    let (a, c) ← m.run { c with current := some p }
    return (a, { c with current := none })) := rfl

/-- A file is current while it is worked on, and none is afterwards. -/
theorem Tells.withPath {p : String} (hm : Tells (some p) m a lines) :
    Tells none (Run.withPath p m) a lines := by
  intro s
  obtain ⟨s', hrun, hshows⟩ := hm s
  refine ⟨s', ?_, hshows⟩
  rw [run_withPath, hrun]
  rfl

theorem Fails.withPath {p : String} (hm : Fails (some p) m e) : Fails none (Run.withPath p m) e := by
  intro s
  rw [run_withPath, hm s]
  rfl

section

variable {style : Style} {use : Sink → Except Fault (α × Sink)}

theorem run_withSink (c : Console) : (Run.withSink style use).run c = (do
    let (a, sink) ← use (c.sink.listen (line style c.current))
    return (a, { c with sink := sink })) := by
  rw [Run.withSink, StateT.run_bind, StateT.run_get, pure_bind]
  dsimp only
  cases use (c.sink.listen (line style c.current)) <;> rfl

/-- The sink shows its lines with the file that is current. -/
theorem Tells.withSink (h : ∀ s : Sink, ∃ s', use (s.listen (line style path)) = .ok (a, s') ∧
    s.Shows s' lines) : Tells path (Run.withSink style use) a lines := by
  intro s
  obtain ⟨s', huse, hshows⟩ := h s
  refine ⟨s', ?_, hshows⟩
  rw [run_withSink, huse]
  rfl

theorem Fails.withSink (h : ∀ s, use s = .error e) : Fails path (Run.withSink style use) e := by
  intro s
  rw [run_withSink, h]
  rfl

theorem Tells.emit (style : Style) (d : Diagnostic) :
    Tells path (Run.emit style d) () [line style path d] :=
  .withSink fun _ => ⟨_, rfl, rfl, List.length_append⟩

end

/-- A stage treats the members of a list one by one. -/
theorem Tells.mapM {xs : List α} {f : α → Run β} {g : α → β} {l : α → List String}
    (h : ∀ x ∈ xs, Tells path (f x) (g x) (l x)) :
    Tells path (xs.mapM f) (xs.map g) (xs.flatMap l) := by
  induction xs with
  | nil => exact .pure []
  | cons x rest ih =>
    rw [List.forall_mem_cons] at h
    rw [List.mapM_cons, List.map_cons, List.flatMap_cons, ← List.append_nil (rest.flatMap l)]
    exact h.1.bind ((ih h.2).bind (.pure _))

theorem Tells.forM {xs : List α} {f : α → Run Unit} {l : α → List String}
    (h : ∀ x ∈ xs, Tells path (f x) () (l x)) : Tells path (forM xs f) () (xs.flatMap l) := by
  induction xs with
  | nil => exact .pure ()
  | cons x rest ih =>
    rw [List.forall_mem_cons] at h
    rw [List.forM_cons]
    exact h.1.bind (ih h.2)

/-- A stage fails if one of the members fails and the others come to a result or fail in the same way. -/
theorem Fails.mapM {xs : List α} {f : α → Run β}
    (h : ∀ x ∈ xs, (∃ b lines, Tells path (f x) b lines) ∨ Fails path (f x) e)
    (hfail : ∃ x ∈ xs, Fails path (f x) e) : Fails path (xs.mapM f) e := by
  obtain ⟨y, hy, hfail⟩ := hfail
  induction xs with
  | nil => cases hy
  | cons x rest ih =>
    rw [List.forall_mem_cons] at h
    rw [List.mapM_cons]
    rcases List.mem_cons.mp hy with rfl | hy
    · exact hfail.bind
    · rcases h.1 with ⟨b, lines, hx⟩ | hx
      · exact hx.bind_fails (ih h.2 hy).bind
      · exact hx.bind

/-! ## Whole runs -/

/-- What a part comes to if no file is current and there are no errors: a result and the lines that are shown,
or a fault. -/
def Ends (m : Run α) : Except Fault (α × List String) → Prop
  | .ok (a, lines) => ∀ s, s.hasErrors = false →
      ∃ s', m.run ⟨none, s⟩ = .ok (a, ⟨none, s'⟩) ∧ s.Shows s' lines
  | .error e => ∀ s, s.hasErrors = false → m.run ⟨none, s⟩ = .error e

theorem Tells.ends (hm : Tells none m a lines) : Ends m (.ok (a, lines)) := fun s _ => hm s

theorem Fails.ends (hm : Fails none m e) : Ends m (.error e) := fun s _ => hm s

section

variable {next : α → Run (List β)}

theorem Tells.lift {x : Except Fault α} (hx : x = .ok a) : Tells path (liftM x) a [] := by
  intro s
  refine ⟨s, ?_, .refl s⟩
  rw [hx]
  rfl

theorem run_unlessErrors (rest : Run (List β)) (c : Console) :
    (unlessErrors rest).run c = if c.sink.hasErrors then .ok ([], c) else rest.run c := by
  rw [unlessErrors, StateT.run_bind, StateT.run_get, pure_bind]
  cases c.sink.hasErrors <;> rfl

/-- Nothing comes after a stage that has shown something. -/
theorem Tells.stop (hm : Tells none m a lines) (hne : lines ≠ []) :
    Tells none (m >>= fun a => unlessErrors (next a)) [] lines := by
  intro s
  obtain ⟨s', hrun, hshows⟩ := hm s
  have herrors : s'.hasErrors = true := by
    rw [hshows.hasErrors]
    simp [hne]
  refine ⟨s', ?_, hshows⟩
  rw [StateT.run_bind, hrun]
  exact (run_unlessErrors _ _).trans (if_pos herrors)

/-- After a silent stage, the next one decides what a run comes to. -/
theorem Tells.go (hm : Tells none m a []) {r : Except Fault (List β × List String)}
    (hk : Ends (next a) r) : Ends (m >>= fun a => unlessErrors (next a)) r := by
  have hnext : ∀ s, s.hasErrors = false → ∃ s', s'.hasErrors = false ∧ s.Shows s' [] ∧
      (m >>= fun a => unlessErrors (next a)).run ⟨none, s⟩ = (next a).run ⟨none, s'⟩ := by
    intro s hs
    obtain ⟨s', hrun, hshows⟩ := hm s
    have hclean : s'.hasErrors = false := by rw [hshows.hasErrors, hs]; rfl
    refine ⟨s', hclean, hshows, ?_⟩
    rw [StateT.run_bind, hrun]
    exact (run_unlessErrors _ _).trans (if_neg (by simp [hclean]))
  cases r with
  | ok r =>
    intro s hs
    obtain ⟨s', hclean, hshows, heq⟩ := hnext s hs
    obtain ⟨s'', hrun, hshows'⟩ := hk s' hclean
    exact ⟨s'', heq.trans hrun, hshows.trans hshows'⟩
  | error e =>
    intro s hs
    obtain ⟨s', hclean, _, heq⟩ := hnext s hs
    exact heq.trans (hk s' hclean)

end

end Run

end CommandLine

end CoolTypes
