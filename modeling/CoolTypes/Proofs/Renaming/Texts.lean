import CoolTypes.Proofs.Diagnostics.Spelling
import CoolTypes.Proofs.Renaming.Hierarchy

/-!
# Renamed texts

Two tables relate their symbols by the texts these stand for: identifiers up to a map of texts, literals as
they are. If the map is injective and leaves the well-known names, the relation is faithful, whatever the
order of the two tables is (`renaming_faithful`). Related reports then have texts, and the texts of the
second are those of the first under the map.
-/

namespace CoolTypes

/-! ## Tables -/

/-- Two symbols stand for a text and for its image under a map. -/
def Interner.Corresponds (r : String → String) (t t' : Interner) (s s' : Symbol) : Prop :=
  ∃ text, t.get? s = some text ∧ t'.get? s' = some (r text)

/-- Identifiers correspond under a map of texts, literals if they are the same. -/
def SymbolTables.renaming (r : String → String) (t t' : SymbolTables) : SymbolRel where
  id := t.ids.Corresponds r t'.ids
  string := t.strings.Corresponds id t'.strings
  int := t.ints.Corresponds id t'.ints

theorem Interner.Corresponds.biUnique {r : String → String} (hr : Function.Injective r)
    (t t' : Interner) : Relator.BiUnique (t.Corresponds r t') := by
  constructor
  · -- two symbols with the same image have the same text, as the map is injective
    rintro a b c ⟨x, ha, hc⟩ ⟨y, hb, hc'⟩
    have hxy : x = y := hr (Option.some.inj (hc.symm.trans hc'))
    exact get?_injective ha (hxy ▸ hb)
  · rintro a b c ⟨x, ha, hb⟩ ⟨y, ha', hc⟩
    have hxy : x = y := Option.some.inj (ha.symm.trans ha')
    exact get?_injective hb (hxy ▸ hc)

theorem renaming_faithful {r : String → String} (hr : Function.Injective r)
    (hknown : ∀ w : WellKnown, r w.text = w.text) (t t' : SymbolTables) :
    (t.renaming r t').Faithful t t' := by
  refine ⟨Interner.Corresponds.biUnique hr t.ids t'.ids, fun w => ⟨w.text, t.get?_known w, ?_⟩⟩
  rw [hknown w]
  exact t'.get?_known w

/-! ## Pairs of computations -/

/-- Both computations give a result, and the results are related. -/
def BothGive {α β : Type} (S : α → β → Prop) (x : Except Fault α) (y : Except Fault β) : Prop :=
  ∃ a b, x = .ok a ∧ y = .ok b ∧ S a b

namespace BothGive

variable {α β γ δ : Type} {S : α → β → Prop} {T : γ → δ → Prop}

theorem pure {a : α} {b : β} (h : S a b) :
    BothGive S (Pure.pure a : Except Fault α) (Pure.pure b : Except Fault β) :=
  ⟨a, b, rfl, rfl, h⟩

theorem bind {x : Except Fault α} {y : Except Fault β} (h : BothGive S x y)
    {f : α → Except Fault γ} {g : β → Except Fault δ}
    (hfg : ∀ a b, S a b → BothGive T (f a) (g b)) : BothGive T (x >>= f) (y >>= g) := by
  obtain ⟨a, b, ha, hb, hab⟩ := h
  obtain ⟨c, d, hc, hd, hcd⟩ := hfg a b hab
  exact ⟨c, d, bind_eq_ok.mpr ⟨a, ha, hc⟩, bind_eq_ok.mpr ⟨b, hb, hd⟩, hcd⟩

/-- The results of two lists of computations. -/
theorem mapM {l : List α} {l' : List β} (h : List.Forall₂ S l l') {f : α → Except Fault γ}
    {g : β → Except Fault δ} (hfg : ∀ a b, S a b → BothGive T (f a) (g b)) :
    BothGive (List.Forall₂ T) (l.mapM f) (l'.mapM g) := by
  induction h with
  | nil => exact pure .nil
  | cons hab _ ih =>
    rw [List.mapM_cons, List.mapM_cons]
    exact (hfg _ _ hab).bind fun _ _ hcd => ih.bind fun _ _ hrest => pure (.cons hcd hrest)

end BothGive

/-! ## Reports -/

/-- Type errors of one kind at the same place, the names and types of the second under a map. -/
abbrev TypeError.Renamed (r : String → String) :
    TypeError String String → TypeError String String → Prop :=
  TypeError.Related (r · = ·) (r · = ·)

section

variable {r : String → String} (hknown : ∀ w : WellKnown, r w.text = w.text) {t t' : SymbolTables}

theorem name_renamed {s s' : Symbol} (h : (t.renaming r t').id s s') :
    BothGive (r · = ·) (t.name s) (t'.name s') := by
  obtain ⟨text, hs, hs'⟩ := h
  exact ⟨text, r text, Interner.lookup_eq_ok_iff.mpr hs, Interner.lookup_eq_ok_iff.mpr hs', rfl⟩

include hknown

theorem ty_renamed {T T' : Ty} (h : T.Related (t.renaming r t') T') :
    BothGive (r · = ·) (T.text t) (T'.text t') := by
  cases h with
  | named h => exact name_renamed h
  | selfType => exact .pure (hknown .selfType)

theorem violation_renamed {v v' : Violation Symbol Ty}
    (h : v.Related (t.renaming r t').id (Ty.Related (t.renaming r t')) v') :
    BothGive (Violation.Related (r · = ·) (r · = ·)) (v.spell t) (v'.spell t') := by
  cases h with
  | illegalParent h => exact (name_renamed h).bind fun _ _ h => .pure (.illegalParent h)
  | builtinRedefined => exact .pure .builtinRedefined
  | multipleClassDefinition h =>
    exact (name_renamed h).bind fun _ _ h => .pure (.multipleClassDefinition h)
  | unresolvedParent h h' =>
    exact (name_renamed h).bind fun _ _ h => (name_renamed h').bind fun _ _ h' =>
      .pure (.unresolvedParent h h')
  | noMainClass => exact .pure .noMainClass
  | inheritanceCycle h => exact (name_renamed h).bind fun _ _ h => .pure (.inheritanceCycle h)
  | illegalSelfType => exact .pure .illegalSelfType
  | undeclaredType h => exact (name_renamed h).bind fun _ _ h => .pure (.undeclaredType h)
  | undeclaredIdentifier h =>
    exact (name_renamed h).bind fun _ _ h => .pure (.undeclaredIdentifier h)
  | undeclaredMethod h h' =>
    exact (name_renamed h).bind fun _ _ h => (name_renamed h').bind fun _ _ h' =>
      .pure (.undeclaredMethod h h')
  | mismatchedTypes h h' =>
    exact (ty_renamed hknown h).bind fun _ _ h => (ty_renamed hknown h').bind fun _ _ h' =>
      .pure (.mismatchedTypes h h')
  | argumentCount => exact .pure .argumentCount
  | duplicateCaseType h => exact (name_renamed h).bind fun _ _ h => .pure (.duplicateCaseType h)
  | multipleDefinition h => exact (name_renamed h).bind fun _ _ h => .pure (.multipleDefinition h)
  | invalidOverride h h' =>
    exact (name_renamed h').bind fun _ _ h' => (name_renamed h).bind fun _ _ h =>
      .pure (.invalidOverride h h')
  | illegalSelf => exact .pure .illegalSelf

theorem reports_renamed {rs rs' : List Report} (h : ReportsRelated (t.renaming r t') rs rs') :
    BothGive (List.Forall₂ (TypeError.Renamed r)) (rs.mapM (·.spell t)) (rs'.mapM (·.spell t')) :=
  BothGive.mapM h fun _ _ he =>
    (violation_renamed hknown he.violation).bind fun _ _ hv => .pure ⟨hv, he.span⟩

theorem inheritance_renamed {i i' : Inheritance} (h : i.Related (t.renaming r t') i') :
    BothGive (List.Forall₂ (TypeError.Renamed r)) (i.spell t) (i'.spell t') := by
  have hown := BothGive.mapM h.verdicts fun v v' hv =>
    (name_renamed hv.parent).bind fun _ _ _ => reports_renamed hknown hv.reports
  exact hown.bind fun _ _ hown => (reports_renamed hknown h.closing).bind fun _ _ hclosing =>
    .pure (List.rel_append (List.rel_flatten hown) hclosing)

end

/-! ## Sinks -/

/-- Since they were `s₀` and `s₀'`, two sinks have been told renamed type errors and nothing else. -/
def Sink.Told (r : String → String) (s₀ s₀' s s' : Sink) : Prop :=
  ∃ es es', List.Forall₂ (TypeError.Renamed r) es es' ∧ s = s₀.reportTypeErrors es ∧
    s' = s₀'.reportTypeErrors es'

namespace Sink.Told

variable {r : String → String} {s₀ s₀' s s' : Sink}

theorem refl (s s' : Sink) : Told r s s' s s' := ⟨[], [], .nil, rfl, rfl⟩

theorem reportTypeErrors (h : Told r s₀ s₀' s s') {es es' : List (TypeError String String)}
    (hes : List.Forall₂ (TypeError.Renamed r) es es') :
    Told r s₀ s₀' (s.reportTypeErrors es) (s'.reportTypeErrors es') := by
  obtain ⟨fs, fs', hfs, rfl, rfl⟩ := h
  refine ⟨fs ++ es, fs' ++ es', List.rel_append hfs hes, ?_, ?_⟩
  · exact (s₀.reportTypeErrors_append fs es).symm
  · exact (s₀'.reportTypeErrors_append fs' es').symm

theorem reportOver (hknown : ∀ w : WellKnown, r w.text = w.text) (h : Told r s₀ s₀' s s')
    {t t' : SymbolTables} {rs rs' : List Report} (hrs : ReportsRelated (t.renaming r t') rs rs') :
    BothGive (Told r s₀ s₀') (s.reportOver t rs) (s'.reportOver t' rs') :=
  (reports_renamed hknown hrs).bind fun _ _ hes => .pure (h.reportTypeErrors hes)

/-- One of the sinks has been told nothing exactly if the other one has not. -/
theorem count_beq (h : Told r s₀ s₀' s s') : (s.count == s₀.count) = (s'.count == s₀'.count) := by
  obtain ⟨es, es', hes, rfl, rfl⟩ := h
  rw [count_reportTypeErrors, count_reportTypeErrors, hes.length_eq, Bool.eq_iff_iff, beq_iff_eq,
    beq_iff_eq]
  omega

end Sink.Told

end CoolTypes
