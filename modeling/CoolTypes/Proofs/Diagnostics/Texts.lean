import CoolTypes.Proofs.Diagnostics.Spelling

/-!
# Reports as texts

What a report says over texts is a function of the report and the table: `TypeError.told`. Spelling gives
this for each report, in order, if it comes to an end (`Inheritance.eq_of_spell`), and it does so if all
symbols belong to the table (`Inheritance.spell_eq`).
-/

namespace CoolTypes

/-- A list of computations gives the results of its members. -/
theorem mapM_eq_ok_iff {α β : Type} {f : α → Except Fault β} {l : List α} {ys : List β} :
    l.mapM f = .ok ys ↔ l.map f = ys.map .ok := by
  induction l generalizing ys with
  | nil =>
    cases ys with
    | nil => exact iff_of_true rfl rfl
    | cons y rest => exact iff_of_false (fun h => by cases h) (by simp)
  | cons a rest ih =>
    rw [List.mapM_cons, bind_eq_ok, List.map_cons]
    constructor
    · rintro ⟨y, hy, h⟩
      obtain ⟨zs, hzs, h⟩ := bind_eq_ok.mp h
      cases h
      rw [List.map_cons, hy, ih.mp hzs]
    · intro h
      cases ys with
      | nil => simp at h
      | cons y zs =>
        injection h with hy hzs
        exact ⟨y, hy, bind_eq_ok.mpr ⟨zs, ih.mpr hzs, rfl⟩⟩

theorem mapM_eq_ok_map {α β : Type} {f : α → Except Fault β} {g : α → β} {l : List α}
    (h : ∀ a ∈ l, f a = .ok (g a)) : l.mapM f = .ok (l.map g) :=
  mapM_eq_ok_iff.mpr (by rw [List.map_map]; exact List.map_congr_left h)

/-- The text of an identifier, empty if it has none. -/
def SymbolTables.textOf (t : SymbolTables) (s : Symbol) : String := (t.ids.get? s).getD ""

theorem SymbolTables.Has.name_eq {t : SymbolTables} {s : Symbol} (h : t.Has .ids s) :
    t.name s = .ok (t.textOf s) := by
  obtain ⟨text, hs⟩ : ∃ text, t.ids.get? s = some text := Interner.exists_get?_iff.mpr h
  rw [name, Interner.lookup_eq_ok_iff, textOf, hs, Option.getD_some]

/-- The text of a type, empty if its class has none. -/
def Ty.textOf (t : SymbolTables) : Ty → String
  | named c => t.textOf c
  | selfType => "SELF_TYPE"

theorem Ty.SymbolValid.text_eq {t : SymbolTables} {ty : Ty} (h : ty.SymbolValid t) :
    ty.text t = .ok (ty.textOf t) := by
  cases ty with
  | named c => exact SymbolTables.Has.name_eq h
  | selfType => rfl

/-- The violation with its names and types under maps. -/
def Violation.map {ν τ ν' τ' : Type} (f : ν → ν') (g : τ → τ') : Violation ν τ → Violation ν' τ'
  | illegalParent c p => .illegalParent (f c) p
  | builtinRedefined b => .builtinRedefined b
  | multipleClassDefinition c => .multipleClassDefinition (f c)
  | unresolvedParent c p => .unresolvedParent (f c) (f p)
  | noMainClass => .noMainClass
  | inheritanceCycle c => .inheritanceCycle (f c)
  | illegalSelfType p => .illegalSelfType p
  | undeclaredType n => .undeclaredType (f n)
  | undeclaredIdentifier n => .undeclaredIdentifier (f n)
  | undeclaredMethod c m => .undeclaredMethod (f c) (f m)
  | mismatchedTypes e a => .mismatchedTypes (g e) (g a)
  | argumentCount e s => .argumentCount e s
  | duplicateCaseType n => .duplicateCaseType (f n)
  | multipleDefinition r n => .multipleDefinition r (f n)
  | invalidOverride m a d => .invalidOverride (f m) (f a) d
  | illegalSelf => .illegalSelf

theorem Violation.SymbolValid.spell_eq {t : SymbolTables} {v : Violation Symbol Ty}
    (h : v.SymbolValid t) : v.spell t = .ok (v.map t.textOf (Ty.textOf t)) := by
  cases v with
  | illegalParent c _ | multipleClassDefinition c | inheritanceCycle c | undeclaredType c
  | undeclaredIdentifier c | duplicateCaseType c | multipleDefinition _ c =>
    exact bind_eq_ok.mpr ⟨_, SymbolTables.Has.name_eq h, rfl⟩
  | unresolvedParent c p | undeclaredMethod c p =>
    exact bind_eq_ok.mpr ⟨_, h.1.name_eq, bind_eq_ok.mpr ⟨_, h.2.name_eq, rfl⟩⟩
  | mismatchedTypes e a =>
    exact bind_eq_ok.mpr ⟨_, h.1.text_eq, bind_eq_ok.mpr ⟨_, h.2.text_eq, rfl⟩⟩
  | invalidOverride m a _ =>
    exact bind_eq_ok.mpr ⟨_, h.2.name_eq, bind_eq_ok.mpr ⟨_, h.1.name_eq, rfl⟩⟩
  | builtinRedefined _ | noMainClass | illegalSelfType _ | argumentCount | illegalSelf => rfl

/-- What a report says over texts. -/
def TypeError.told (t : SymbolTables) (r : Report) : TypeError String String :=
  ⟨r.violation.map t.textOf (Ty.textOf t), r.span⟩

theorem TypeError.SymbolValid.spell_eq {t : SymbolTables} {r : Report} (h : r.SymbolValid t) :
    r.spell t = .ok (r.told t) :=
  bind_eq_ok.mpr ⟨_, Violation.SymbolValid.spell_eq h, rfl⟩

theorem mapM_spell_eq {t : SymbolTables} {reports : List Report}
    (h : ∀ r ∈ reports, r.SymbolValid t) :
    reports.mapM (·.spell t) = .ok (reports.map (·.told t)) :=
  mapM_eq_ok_map fun r hr => (h r hr).spell_eq

theorem Inheritance.spell_eq {i : Inheritance} {t : SymbolTables}
    (hverdicts : ∀ v ∈ i.verdicts, t.Has .ids v.parent ∧ ∀ r ∈ v.reports, r.SymbolValid t)
    (hclosing : ∀ r ∈ i.closing, r.SymbolValid t) :
    i.spell t = .ok (i.reports.map (·.told t)) := by
  have hown := mapM_eq_ok_map (l := i.verdicts) (f := fun v => do
      let _ ← t.name v.parent
      v.reports.mapM (TypeError.spell t)) (g := fun v => v.reports.map (TypeError.told t)) fun v hv =>
    bind_eq_ok.mpr ⟨_, (hverdicts v hv).1.name_eq, mapM_spell_eq (hverdicts v hv).2⟩
  refine bind_eq_ok.mpr ⟨_, hown, bind_eq_ok.mpr ⟨_, mapM_spell_eq hclosing, ?_⟩⟩
  rw [reports, List.map_append, List.map_flatMap, List.flatMap_def]
  rfl

/-! ## What has been spelled -/

theorem SymbolTables.eq_of_name {t : SymbolTables} {s : Symbol} {text : String}
    (h : t.name s = .ok text) : text = t.textOf s := by
  rw [textOf, Interner.lookup_eq_ok_iff.mp h, Option.getD_some]

theorem Ty.eq_of_text {t : SymbolTables} {ty : Ty} {text : String} (h : ty.text t = .ok text) :
    text = ty.textOf t := by
  cases ty with
  | named c => exact SymbolTables.eq_of_name h
  | selfType =>
    cases h
    rfl

theorem Violation.eq_of_spell {t : SymbolTables} {v : Violation Symbol Ty}
    {v' : Violation String String} (h : v.spell t = .ok v') : v' = v.map t.textOf (Ty.textOf t) := by
  cases v with
  | illegalParent c _ | multipleClassDefinition c | inheritanceCycle c | undeclaredType c
  | undeclaredIdentifier c | duplicateCaseType c | multipleDefinition _ c =>
    obtain ⟨_, hc, h⟩ := bind_eq_ok.mp h
    cases h
    rw [SymbolTables.eq_of_name hc]
    rfl
  | unresolvedParent c p | undeclaredMethod c p | invalidOverride p c _ =>
    obtain ⟨_, hc, h⟩ := bind_eq_ok.mp h
    obtain ⟨_, hp, h⟩ := bind_eq_ok.mp h
    cases h
    rw [SymbolTables.eq_of_name hc, SymbolTables.eq_of_name hp]
    rfl
  | mismatchedTypes e a =>
    obtain ⟨_, he, h⟩ := bind_eq_ok.mp h
    obtain ⟨_, ha, h⟩ := bind_eq_ok.mp h
    cases h
    rw [Ty.eq_of_text he, Ty.eq_of_text ha]
    rfl
  | builtinRedefined _ | noMainClass | illegalSelfType _ | argumentCount | illegalSelf =>
    cases h
    rfl

theorem TypeError.eq_of_spell {t : SymbolTables} {r : Report} {e : TypeError String String}
    (h : r.spell t = .ok e) : e = r.told t := by
  obtain ⟨_, hv, h⟩ := bind_eq_ok.mp h
  cases h
  rw [Violation.eq_of_spell hv]
  rfl

/-- If all members give the results of a function, these are all results. -/
theorem eq_map_of_mapM {α β : Type} {f : α → Except Fault β} {g : α → β} {l : List α} {ys : List β}
    (hf : ∀ a y, f a = .ok y → y = g a) (h : l.mapM f = .ok ys) : ys = l.map g := by
  induction l generalizing ys with
  | nil =>
    cases h
    rfl
  | cons a rest ih =>
    rw [List.mapM_cons] at h
    obtain ⟨y, hy, h⟩ := bind_eq_ok.mp h
    obtain ⟨zs, hzs, h⟩ := bind_eq_ok.mp h
    cases h
    rw [List.map_cons, hf a y hy, ih hzs]

theorem eq_of_mapM_spell {t : SymbolTables} {reports : List Report}
    {es : List (TypeError String String)} (h : reports.mapM (·.spell t) = .ok es) :
    es = reports.map (·.told t) :=
  eq_map_of_mapM (fun _ _ => TypeError.eq_of_spell) h

theorem Inheritance.eq_of_spell {i : Inheritance} {t : SymbolTables}
    {es : List (TypeError String String)} (h : i.spell t = .ok es) :
    es = i.reports.map (·.told t) := by
  obtain ⟨own, hown, h⟩ := bind_eq_ok.mp h
  obtain ⟨closing, hclosing, h⟩ := bind_eq_ok.mp h
  cases h
  have hown := eq_map_of_mapM (g := fun v : ClassVerdict => v.reports.map (TypeError.told t))
    (fun v es hv => by
      obtain ⟨_, _, hv⟩ := bind_eq_ok.mp hv
      exact eq_of_mapM_spell hv) hown
  rw [hown, eq_of_mapM_spell hclosing, reports, List.map_append, List.map_flatMap, List.flatMap_def]

end CoolTypes
