import CoolTypes.Analysis
import CoolTypes.Proofs.Symbols.Membership

/-!
# Spelling of reports

A report over symbols of a table can be told in texts, and a sink that is told reports keeps what it
had and gets one diagnostic for each of them.
-/

namespace CoolTypes

/-- The class that a type names, if it names one, belongs to the identifier table. -/
def Ty.SymbolValid (t : SymbolTables) : Ty → Prop
  | named c => t.Has .ids c
  | selfType => True

/-- All names of a violation belong to the identifier table. -/
def Violation.SymbolValid (t : SymbolTables) : Violation Symbol Ty → Prop
  | illegalParent c _ | multipleClassDefinition c | inheritanceCycle c => t.Has .ids c
  | unresolvedParent c p => t.Has .ids c ∧ t.Has .ids p
  | undeclaredType n | undeclaredIdentifier n | duplicateCaseType n => t.Has .ids n
  | multipleDefinition _ n => t.Has .ids n
  | undeclaredMethod c m => t.Has .ids c ∧ t.Has .ids m
  | mismatchedTypes e a => e.SymbolValid t ∧ a.SymbolValid t
  | invalidOverride m a _ => t.Has .ids m ∧ t.Has .ids a
  | builtinRedefined _ | noMainClass | illegalSelfType _ | argumentCount .. | illegalSelf => True

/-- All names of a report belong to the identifier table. -/
def TypeError.SymbolValid (t : SymbolTables) (r : Report) : Prop := r.violation.SymbolValid t

theorem Violation.symbolValid_place {t : SymbolTables} {v : Violation Symbol Ty} {span : Span} :
    (v.place span).SymbolValid t ↔ v.SymbolValid t := by
  cases v <;> exact Iff.rfl

theorem Ty.text_faultless {t : SymbolTables} {ty : Ty} (h : ty.SymbolValid t) :
    Faultless (ty.text t) := by
  cases ty with
  | named c => exact h.name_faultless
  | selfType => exact .ok _

theorem Violation.spell_faultless {t : SymbolTables} {v : Violation Symbol Ty}
    (h : v.SymbolValid t) : Faultless (v.spell t) := by
  cases v with
  | illegalParent c _ | multipleClassDefinition c | inheritanceCycle c | undeclaredType c
  | undeclaredIdentifier c | duplicateCaseType c | multipleDefinition _ c =>
    exact h.name_faultless.bind fun _ _ => .pure _
  | unresolvedParent c p | undeclaredMethod c p =>
    exact h.1.name_faultless.bind fun _ _ => h.2.name_faultless.bind fun _ _ => .pure _
  | mismatchedTypes e a =>
    exact (Ty.text_faultless h.1).bind fun _ _ => (Ty.text_faultless h.2).bind fun _ _ => .pure _
  | invalidOverride m a _ =>
    exact h.2.name_faultless.bind fun _ _ => h.1.name_faultless.bind fun _ _ => .pure _
  | builtinRedefined _ | noMainClass | illegalSelfType _ | argumentCount | illegalSelf =>
    exact .pure _

theorem TypeError.spell_faultless {t : SymbolTables} {r : Report} (h : r.SymbolValid t) :
    Faultless (r.spell t) :=
  (Violation.spell_faultless h).bind fun _ _ => .pure _

namespace Sink

theorem emitted_reportAll (s : Sink) (es : List PlacedError) :
    (s.reportAll es).emitted =
      s.emitted ++ es.map fun e => ⟨.error, ⟨e.message, some e.span⟩, some (.placed e)⟩ := by
  unfold reportAll
  induction es generalizing s with
  | nil => simp
  | cons e rest ih =>
    rw [List.foldl_cons, ih]
    simp [report, emit]

theorem reportTypeErrors_append (s : Sink) (es fs : List (TypeError String String)) :
    s.reportTypeErrors (es ++ fs) = (s.reportTypeErrors es).reportTypeErrors fs := by
  simp only [reportTypeErrors, reportAll, List.map_append, List.foldl_append]

theorem count_reportTypeErrors (s : Sink) (es : List (TypeError String String)) :
    (s.reportTypeErrors es).count = s.count + es.length := by
  induction es generalizing s with
  | nil => rfl
  | cons e rest ih =>
    have hone : (s.reportTypeErrors [e]).count = s.count + 1 := List.length_append
    rw [← List.singleton_append, reportTypeErrors_append, ih, hone, List.length_append]
    simp only [List.length_singleton]
    omega

/-- A sink is told nothing exactly if its diagnostics stay as they are. -/
theorem emitted_reportTypeErrors_eq_iff (s : Sink) (es : List (TypeError String String)) :
    (s.reportTypeErrors es).emitted = s.emitted ↔ es = [] := by
  simp [reportTypeErrors, emitted_reportAll]

end Sink

end CoolTypes
