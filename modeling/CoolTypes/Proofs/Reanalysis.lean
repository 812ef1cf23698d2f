import CoolTypes.Proofs.Safety
import CoolTypes.Proofs.Typing.BasicClasses
import CoolTypes.Proofs.Typing.Erasure
import CoolTypes.Proofs.Unit.Annotated
import CoolTypes.Proofs.Unit.RoundTrip
import CoolTypes.Session

/-!
# Analyzing again

An analysis never looks at the static types that a program carries. Two units that differ in these only get
the same diagnostics and the same answer, and the same static types if types are checked; so a unit that
has been analyzed can be analyzed again without its basic classes, also after it has been written and
loaded (`analysis_ignores_static_types`).
-/

namespace CoolTypes

/-! ## The basic classes once more -/

namespace SymbolTables

theorem addString_of_mem {t : SymbolTables} {text : String} (h : text ∈ t.strings.entries) :
    (t.addString text).2 = t := by
  simp only [addString, Interner.insert_of_mem h]

theorem mem_strings_foldl {bs : List BuiltinClass} {t : SymbolTables} {text : String}
    (h : text ∈ t.strings.entries ∨ ∃ b ∈ bs, b.name = text) :
    text ∈ (bs.foldl (fun t b => (t.addString b.name).2) t).strings.entries := by
  induction bs generalizing t with
  | nil => simpa using h
  | cons b rest ih =>
    refine ih ?_
    rcases h with h | ⟨c, hc, rfl⟩
    · exact .inl (Interner.mem_entries_insert.mpr (.inl h))
    · rcases List.mem_cons.mp hc with rfl | hc
      · exact .inl (Interner.mem_entries_insert.mpr (.inr rfl))
      · exact .inr ⟨c, hc, rfl⟩

/-- The names of the basic classes are among the string literals already. -/
theorem addClassLiterals_addClassLiterals (t : SymbolTables) :
    t.addClassLiterals.addClassLiterals = t.addClassLiterals :=
  List.foldlRecOn (motive := (· = t.addClassLiterals)) BuiltinClass.literalOrder _ rfl
    fun _ hu b hb => hu ▸ addString_of_mem (hu ▸ mem_strings_foldl (.inr ⟨b, hb, rfl⟩))

end SymbolTables

namespace BasicClass

variable {t : SymbolTables} (hsize : t.ids.size ≤ UInt32.size)

include hsize

theorem name_fits (w : WellKnown) : (name t w).Fits :=
  ⟨Nat.lt_of_lt_of_le (t.has_known w) hsize, Span.fits_synthetic⟩

theorem method_fits (n : WellKnown) (params : List (WellKnown × WellKnown)) (ret : WellKnown) :
    (method t n params ret).Fits := by
  refine ⟨name_fits hsize n, fun f hf => ?_, name_fits hsize ret,
    .absent Span.fits_synthetic (by simp), Span.fits_synthetic⟩
  obtain ⟨p, _, rfl⟩ := List.mem_map.mp hf
  exact ⟨name_fits hsize p.1, name_fits hsize p.2, Span.fits_synthetic⟩

theorem slot_fits (n : WellKnown) : (slot t n).Fits :=
  ⟨name_fits hsize n, name_fits hsize .primSlot, by simp, Span.fits_synthetic⟩

theorem make_fits (n parent : WellKnown) {features : List Feature} (h : ∀ f ∈ features, f.Fits) :
    (make t n parent features).Fits :=
  ⟨name_fits hsize n, name_fits hsize parent, (name_fits hsize .basicFile).symbol, h,
    Span.fits_synthetic⟩

theorem all_fits : ∀ c ∈ all t, c.Fits := by
  simp only [all, List.forall_mem_cons, List.not_mem_nil, false_implies, implies_true, and_true]
  refine ⟨make_fits hsize _ _ ?_, make_fits hsize _ _ ?_, make_fits hsize _ _ ?_,
    make_fits hsize _ _ ?_, make_fits hsize _ _ ?_⟩
  all_goals
    simp [method_fits hsize, slot_fits hsize]

end BasicClass

namespace CompilationUnit

/-! ## Units that differ in static types -/

/-- With the basic classes in front, two units are the same but for static types. One is then analyzed like
the other, and if their types are checked, they are the same afterwards. -/
theorem analyze_of_erase_eq {u v : CompilationUnit}
    (h : u.installBasicClasses.erase = v.installBasicClasses.erase) {stage : Stage} {s s' : Sink}
    {a : Analysis} {u' : CompilationUnit} (hu : u.analyze stage s = .ok (a, u', s')) :
    ∃ v', v.analyze stage s = .ok (a, v', s') ∧ (a.signatures.isSome = true → v' = u') := by
  have htables : u.installBasicClasses.tables = v.installBasicClasses.tables :=
    (congrArg CompilationUnit.tables h :)
  have hprogram : u.installBasicClasses.program.erase = v.installBasicClasses.program.erase :=
    (congrArg CompilationUnit.program h :)
  have hclasses : u.installBasicClasses.program.classes.map Class.erase =
      v.installBasicClasses.program.classes.map Class.erase := (congrArg Program.classes hprogram :)
  have hinheritance : v.inheritance = u.inheritance := by
    rw [inheritance, inheritance, ← checkInheritance_erase, ← hclasses, ← htables,
      checkInheritance_erase]
  have hsetting : v.setting = u.setting := by
    rw [setting, setting, ← settingOf_erase, ← hclasses, ← htables, settingOf_erase]
  have hchecked : v.typesChecked stage = u.typesChecked stage := by
    rw [typesChecked, typesChecked, hinheritance]
  have hsignatures : v.signatureReports = u.signatureReports := by
    rw [signatureReports, signatureReports, hsetting, ← htables, ← Signatures.collect_erase,
      ← hclasses, Signatures.collect_erase]
  have hcode : v.codeReports = u.codeReports := by
    rw [codeReports, codeReports, hsetting, ← Setting.programReports_erase, ← hprogram,
      Setting.programReports_erase]
  have hspelled : v.spelledFindings stage = u.spelledFindings stage := by
    rw [spelledFindings, spelledFindings, hinheritance, hchecked, hsignatures, hcode, htables]
  have hanalysis : v.analysis stage = u.analysis stage := by
    rw [analysis, analysis, findings, findings, hinheritance, hchecked, hsignatures, hcode, hsetting]
  obtain ⟨rfl, rfl, rfl⟩ := eq_of_analyze hu
  rw [analyze_spelled] at hu
  obtain ⟨es, hes, heq⟩ := bind_eq_ok.mp hu
  cases eq_told_of_spelledFindings hes
  refine ⟨v.analyzed stage, ?_, fun hsome => ?_⟩
  · rw [analyze_spelled, hspelled, hes, hanalysis]
    rfl
  · rw [isSome_signatures_analysis] at hsome
    have hwu := wellFormed_of_typesChecked hsome
    have hwv := wellFormed_of_typesChecked (hchecked.trans hsome)
    rw [analyzed, analyzed, hchecked, if_pos hsome, if_pos hsome, hsetting, ← htables,
      ← Setting.annotateProgram_erase (p := v.installBasicClasses.program), ← hprogram,
      Setting.annotateProgram_erase]
    · exact fun c hc => hwu.contains_signatures hc
    · exact fun c hc => hsetting ▸ hwv.contains_signatures hc

/-! ## A unit that has been analyzed -/

/-- A unit whose types have been checked has them on all of its code. -/
theorem analyzed_eq {u u' : CompilationUnit} {stage : Stage} {s s' : Sink} {a : Analysis}
    (hu : u.analyze stage s = .ok (a, u', s')) (ha : a.signatures.isSome = true) :
    u' = ⟨u.installBasicClasses.tables,
      u.setting.annotateProgram (fun _ => none) u.installBasicClasses.program⟩ := by
  obtain ⟨rfl, rfl, _⟩ := eq_of_analyze hu
  rw [isSome_signatures_analysis] at ha
  rw [analyzed, if_pos ha]

theorem file_annotateClass (Γ : Setting) (env : Env) (c : Class) :
    (Γ.annotateClass env c).file = c.file := by
  unfold Setting.annotateClass
  split <;> rfl

/-- The file tells the basic classes from those of the unit. -/
theorem filter_installBasicClasses {u : CompilationUnit}
    (hown : ∀ c ∈ u.program.classes, c.file ≠ u.tables.known .basicFile) :
    u.installBasicClasses.program.classes.filter
        (fun c => c.file != u.installBasicClasses.tables.known .basicFile) = u.program.classes := by
  have hfile : u.installBasicClasses.tables.known .basicFile = u.tables.known .basicFile :=
    known_addClassLiterals _ _
  have hbasic : (BasicClass.all u.tables).filter
      (fun c => c.file != u.tables.known .basicFile) = [] :=
    List.filter_eq_nil_iff.mpr fun c hc => by simp [BasicClass.file_of_mem_all hc]
  have hrest : u.program.classes.filter (fun c => c.file != u.tables.known .basicFile) =
      u.program.classes := List.filter_eq_self.mpr fun c hc => by simpa using hown c hc
  rw [hfile]
  exact (List.filter_append _ _).trans (by rw [hbasic, hrest, List.nil_append])

/-- Without the basic classes, the unit differs from what it was in static types only. -/
theorem erase_installBasicClasses_select {u : CompilationUnit}
    (hown : ∀ c ∈ u.program.classes, c.file ≠ u.tables.known .basicFile) (Γ : Setting) (env : Env) :
    (Session.select ⟨u.installBasicClasses.tables,
      Γ.annotateProgram env u.installBasicClasses.program⟩ .user).installBasicClasses.erase =
        u.installBasicClasses.erase := by
  have hkeep : (Γ.annotateProgram env u.installBasicClasses.program).classes.filter
      (fun c => c.file != u.installBasicClasses.tables.known .basicFile) =
        u.program.classes.map (Γ.annotateClass env) := by
    rw [Setting.annotateProgram, List.filter_map]
    simp only [Function.comp_def, file_annotateClass]
    rw [filter_installBasicClasses hown]
  have hclasses : (u.program.classes.map (Γ.annotateClass env)).map Class.erase =
      u.program.classes.map Class.erase := by
    rw [List.map_map]
    exact List.map_congr_left fun c _ => Γ.erase_annotateClass env c
  have hselect : Session.select ⟨u.installBasicClasses.tables,
      Γ.annotateProgram env u.installBasicClasses.program⟩ .user =
        ⟨u.installBasicClasses.tables,
          ⟨u.program.classes.map (Γ.annotateClass env), u.program.span⟩⟩ := by
    simp only [Session.select, hkeep]
    rfl
  rw [hselect]
  simp only [installBasicClasses, erase, Program.erase, List.map_append, hclasses,
    BasicClass.all_addClassLiterals, SymbolTables.addClassLiterals_addClassLiterals]

/-- A unit whose types have been checked is analyzed again as it was, without the basic classes. -/
theorem analyze_select {u u' : CompilationUnit} {stage : Stage} {s s' : Sink} {a : Analysis}
    (hown : ∀ c ∈ u.program.classes, c.file ≠ u.tables.known .basicFile)
    (hu : u.analyze stage s = .ok (a, u', s')) (ha : a.signatures.isSome = true) :
    (Session.select u' .user).analyze stage s = .ok (a, u', s') := by
  have hu' := analyzed_eq hu ha
  have herase := erase_installBasicClasses_select hown u.setting fun _ => none
  rw [← hu'] at herase
  obtain ⟨v', hv, heq⟩ := analyze_of_erase_eq herase.symm hu
  rw [hv, heq ha]

/-! ## Writing and loading -/

theorem fits_installBasicClasses {u : CompilationUnit} (h : u.program.Fits)
    (hsize : u.tables.ids.size ≤ UInt32.size) : u.installBasicClasses.program.Fits :=
  ⟨List.forall_mem_append.mpr ⟨BasicClass.all_fits hsize, h.classes⟩, h.span⟩

/-- A unit within bounds stays within bounds when it is analyzed. -/
theorem fits_analyzed {u : CompilationUnit} (h : u.program.Fits)
    (hsize : u.tables.ids.size ≤ UInt32.size) (stage : Stage) : (u.analyzed stage).program.Fits := by
  have hall := fits_installBasicClasses h hsize
  have hbuiltin : ∀ b : BuiltinClass, (b.symbol u.installBasicClasses.tables).Fits := fun b => by
    rw [BuiltinClass.symbol, installBasicClasses, known_addClassLiterals]
    exact (BasicClass.name_fits hsize b.wellKnown).symbol
  unfold analyzed
  split
  · exact (settingOf_within hbuiltin fun c hc => (hall.classes c hc).typesIn).fits_annotateProgram
      .none hall
  · exact hall

theorem fits_select {u : CompilationUnit} (h : u.program.Fits) (which : Selection) :
    (Session.select u which).program.Fits := by
  cases which with
  | all => exact h
  | user => exact ⟨fun c hc => h.classes c (List.mem_of_mem_filter hc), h.span⟩

theorem select_select (u : CompilationUnit) (which : Selection) :
    Session.select (Session.select u which) .user = Session.select u .user := by
  cases which with
  | all => rfl
  | user => simp only [Session.select, List.filter_filter, Bool.and_self]

end CompilationUnit

/-- Two symbol-valid units over the same tables that are the same program without its static types are
analyzed alike: their analyses tell the sink the same and give the same answer, and if they check types, the
two units are the same afterwards. A unit without classes of its own in the basic file whose types have been
checked is analyzed again as it was once its basic classes are taken away, and also after it has been
written and loaded, before or after that. The codec can be any one that is as described, and then only a unit
whose brackets are nested too deep is not written or not loaded. -/
theorem analysis_ignores_static_types :
    (∀ u v : CompilationUnit, u.SymbolValid → v.SymbolValid → u.tables = v.tables →
      u.program.erase = v.program.erase → ∀ stage s, ∃ a u' v' s',
        u.analyze stage s = .ok (a, u', s') ∧ v.analyze stage s = .ok (a, v', s') ∧
          (a.signatures.isSome = true → u' = v')) ∧
    (∀ u : CompilationUnit, (∀ c ∈ u.program.classes, c.file ≠ u.tables.known .basicFile) →
      ∀ stage s a u' s', u.analyze stage s = .ok (a, u', s') → a.signatures.isSome = true →
        (Session.select u' .user).analyze stage s = .ok (a, u', s') ∧
        (u.program.Fits → u.tables.ids.size ≤ UInt32.size → ∀ c : Notation.Codec, c.Described →
          ∀ which, let v := Session.select u' which
          (v.toValue.depth < c.limit → ∃ text w,
            v.dump c .loadable = .ok (.ok text) ∧ c.load text = .ok w) ∧
          ∀ text w, v.dump c .loadable = .ok (.ok text) → c.load text = .ok w →
            (Session.select w .user).analyze stage s = .ok (a, u', s'))) := by
  refine ⟨fun u v hu hv htables hprogram stage s => ?_, fun u hown stage s a u' s' hu ha => ?_⟩
  · have herase : u.installBasicClasses.erase = v.installBasicClasses.erase := by
      have hclasses := congrArg Program.classes hprogram
      have hspan : u.program.span = v.program.span :=
        (congrArg Program.span hprogram :)
      simp only [Program.erase] at hclasses
      simp only [CompilationUnit.installBasicClasses, CompilationUnit.erase, Program.erase,
        List.map_append, hclasses, htables, hspan]
    obtain ⟨a, u', s', heq, _⟩ := hu.analyze stage s
    obtain ⟨v', heq', hsame⟩ := CompilationUnit.analyze_of_erase_eq herase heq
    exact ⟨a, u', v', s', heq, heq', fun ha => (hsame ha).symm⟩
  · have hagain := CompilationUnit.analyze_select hown hu ha
    refine ⟨hagain, fun hfits hsize c hc which => ?_⟩
    intro v
    have hv : v.program.Fits := by
      apply CompilationUnit.fits_select
      rw [(CompilationUnit.eq_of_analyze hu).2.1]
      exact CompilationUnit.fits_analyzed hfits hsize stage
    refine ⟨fun hdepth => ?_, fun text w htext hw => ?_⟩
    · obtain ⟨text, htext⟩ := c.dump_eq_ok hc hv hdepth
      have hspelling := c.isSpelling_of_dump hc hv hdepth htext
      exact ⟨text, v, congrArg Except.ok htext, c.load_of_isSpelling hc hv hspelling⟩
    · -- what is loaded is what was written, with or without its basic classes
      rw [Notation.Codec.eq_of_load_dump hc hv (Except.ok.inj htext) hw,
        CompilationUnit.select_select]
      exact hagain

/-- A main class with one attribute, whose initial value carries a static type or none. -/
def carryingUnit (ty : Option Ty) : CompilationUnit where
  tables := .initial
  program := ⟨[⟨BasicClass.name .initial .main, BasicClass.name .initial .object,
    SymbolTables.known .initial .main,
    [.attr ⟨BasicClass.name .initial .arg, BasicClass.name .initial .object,
      some (.absent .synthetic ty), .synthetic⟩], .synthetic⟩], .synthetic⟩

theorem carryingUnit_symbolValid {ty : Option Ty} (h : ∀ T ∈ ty, T.SymbolValid .initial) :
    (carryingUnit ty).SymbolValid := by
  refine List.forall_mem_singleton.mpr ⟨BasicClass.name_symbolValid .main,
    BasicClass.name_symbolValid .object, SymbolTables.has_known _ .main,
    List.forall_mem_singleton.mpr ⟨BasicClass.name_symbolValid .arg,
      BasicClass.name_symbolValid .object, ?_⟩⟩
  rintro i ⟨⟩
  exact .absent h

theorem carryingUnit_fits {ty : Option Ty} (h : ∀ T ∈ ty, T.Fits) :
    (carryingUnit ty).program.Fits := by
  have hsize : SymbolTables.initial.ids.size ≤ UInt32.size := by decide +kernel
  refine ⟨List.forall_mem_singleton.mpr ⟨BasicClass.name_fits hsize .main,
    BasicClass.name_fits hsize .object, (BasicClass.name_fits hsize .main).symbol,
    List.forall_mem_singleton.mpr ⟨BasicClass.name_fits hsize .arg,
      BasicClass.name_fits hsize .object, ?_, Span.fits_synthetic⟩, Span.fits_synthetic⟩,
    Span.fits_synthetic⟩
  rintro i ⟨⟩
  exact .absent Span.fits_synthetic h

theorem analysis_ignores_static_types_carrying :
    (carryingUnit none).SymbolValid ∧ (carryingUnit (some .selfType)).SymbolValid ∧
      (carryingUnit none).program.erase = (carryingUnit (some .selfType)).program.erase ∧
      ∃ a u s, (carryingUnit none).analyze .typing {} = .ok (a, u, s) ∧
        (carryingUnit (some .selfType)).analyze .typing {} = .ok (a, u, s) ∧
        a.signatures.isSome = true ∧
        (Session.select u .user).analyze .typing {} = .ok (a, u, s) ∧
        Notation.Codec.standard.Described ∧
        ∃ text w, (Session.select u .user).dump .standard .loadable = .ok (.ok text) ∧
          CompilationUnit.load text = .ok w ∧
          (Session.select w .user).analyze .typing {} = .ok (a, u, s) := by
  obtain ⟨halike, hagain⟩ := analysis_ignores_static_types
  have hvalid : (carryingUnit none).SymbolValid := carryingUnit_symbolValid (by simp)
  have hvalid' : (carryingUnit (some .selfType)).SymbolValid :=
    carryingUnit_symbolValid (by simp [Ty.SymbolValid])
  obtain ⟨a, u, v, s, hu, hv, hsame⟩ := halike _ _ hvalid hvalid' rfl rfl .typing {}
  have ha : a.signatures.isSome = true := by
    rw [(CompilationUnit.eq_of_analyze hu).1, CompilationUnit.isSome_signatures_analysis]
    decide +kernel
  rw [← hsame ha] at hv
  obtain ⟨hselect, hload⟩ := hagain _ (by decide +kernel) .typing {} a u s hu ha
  have hdescribed := Notation.Codec.standard_described
  obtain ⟨hwritten, hloaded⟩ :=
    hload (carryingUnit_fits (by simp)) (by decide +kernel) .standard hdescribed .user
  have hdepth : (Session.select u .user).toValue.depth < Notation.Codec.standard.limit := by
    rw [(CompilationUnit.eq_of_analyze hu).2.1]
    decide +kernel
  obtain ⟨text, w, htext, hw⟩ := hwritten hdepth
  exact ⟨hvalid, hvalid', rfl, a, u, s, hu, hv, ha, hselect, hdescribed, text, w, htext, hw,
    hloaded text w htext hw⟩

end CoolTypes
