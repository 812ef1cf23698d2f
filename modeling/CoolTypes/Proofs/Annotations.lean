import CoolTypes.Proofs.Outcome
import CoolTypes.Proofs.Typing.Erasure
import CoolTypes.Proofs.Typing.States

/-!
# What an analysis writes

An analysis puts the basic classes in front of a program and writes static types, and nothing else: without
static types, the program afterwards is the one before behind the basic classes. If the types are checked,
each expression of each class gets one, whatever is reported; else none is written
(`analysis_only_annotates`).
-/

namespace CoolTypes

/-! ## Erasing what has been written -/

theorem Setting.erase_annotateProgram (Γ : Setting) (env : Env) (p : Program) :
    (Γ.annotateProgram env p).erase = p.erase := by
  simp only [annotateProgram, Program.erase, List.map_map]
  congr 1
  exact List.map_congr_left fun c _ => Γ.erase_annotateClass env c

/-- The basic classes carry no static types. -/
theorem BasicClass.map_erase_all (t : SymbolTables) : (all t).map Class.erase = all t := rfl

namespace CompilationUnit

variable {u : CompilationUnit}

theorem erase_program_installBasicClasses (u : CompilationUnit) :
    u.installBasicClasses.program.erase =
      ⟨BasicClass.all u.tables ++ u.program.erase.classes, u.program.span⟩ := by
  simp only [installBasicClasses, Program.erase, List.map_append, BasicClass.map_erase_all]

theorem erase_program_analyzed (stage : Stage) (u : CompilationUnit) :
    (u.analyzed stage).program.erase = u.installBasicClasses.program.erase := by
  unfold analyzed
  dsimp only
  split
  · exact u.setting.erase_annotateProgram _ _
  · rfl

/-! ## Expressions with types -/

/-- Once the types of a unit have been checked, all expressions have one. -/
theorem isSome_ty_of_holds {stage : Stage} (hchecked : u.typesChecked stage = true) {d : Expr}
    (hd : (u.analyzed stage).program.Holds d) : d.ty.isSome = true := by
  rw [analyzed, if_pos hchecked] at hd
  have hw := wellFormed_of_typesChecked hchecked
  obtain ⟨s, e, s', _, hrun⟩ := Setting.exists_entered (fun c hc => hw.contains_signatures hc) hd
  rw [Setting.eq_annotate_of_run hrun, Setting.annotate_ty]
  rfl

end CompilationUnit

/-- The analysis of a symbol-valid unit leaves the classes of the unit behind the basic ones as they are but
for static types. It checks types exactly if that is asked for and the hierarchy is valid, and then each
expression, also one that only a walk over the program comes to, has a static type. Otherwise the classes
of the unit keep the static types that they carry. -/
theorem analysis_only_annotates (u : CompilationUnit) (hu : u.SymbolValid) (stage : Stage) (s : Sink) :
    ∃ a u' s', u.analyze stage s = .ok (a, u', s') ∧
      u'.tables = u.tables.addClassLiterals ∧
      u'.program.erase = ⟨BasicClass.all u.tables ++ u.program.erase.classes, u.program.span⟩ ∧
      (BasicClass.all u.tables).map (·.name.symbol) =
        [BuiltinClass.object, .io, .int, .bool, .string].map (·.symbol u.tables) ∧
      (a.signatures.isSome = true ↔ u.inheritance.isValid = true ∧ stage = .typing) ∧
      (a.signatures.isSome = true → (∀ d, u'.program.Holds d → d.ty.isSome = true) ∧
        ∀ ty span, .expr ty span ∈ u'.program.visits → ty.isSome = true) ∧
      (a.signatures.isSome = false →
        u'.program.classes = BasicClass.all u.tables ++ u.program.classes) := by
  refine ⟨_, _, _, hu.analyze_eq stage s, rfl, ?_, rfl, ?_, fun ha => ?_, fun ha => ?_⟩
  · rw [CompilationUnit.erase_program_analyzed, CompilationUnit.erase_program_installBasicClasses]
  · rw [CompilationUnit.isSome_signatures_analysis, CompilationUnit.typesChecked, Bool.and_eq_true,
      decide_eq_true_eq]
  · rw [CompilationUnit.isSome_signatures_analysis] at ha
    refine ⟨fun d => CompilationUnit.isSome_ty_of_holds ha, fun ty span hvisit => ?_⟩
    obtain ⟨d, hd, rfl, _⟩ := Program.expr_mem_visits_iff.mp hvisit
    exact CompilationUnit.isSome_ty_of_holds ha hd
  · rw [CompilationUnit.isSome_signatures_analysis] at ha
    rw [CompilationUnit.analyzed, if_neg (by simp [ha])]
    rfl

/-- A main class that has a method twice. Its body calls a method that there is not, on an object whose class
is not declared and which a scope binds. -/
def mistakenUnit : CompilationUnit where
  tables := .initial
  program :=
    let name := BasicClass.name .initial
    let body : Expr := .letIn ⟨name .arg, name .arg2, some (.ident (name .val) none), .synthetic⟩
      (.call (.dynamic (.ident (name .arg) none)) (name .length) [.absent .synthetic none] .synthetic none)
      .synthetic none
    let method : Feature := .method ⟨name .abort, [], name .int, body, .synthetic⟩
    ⟨[⟨name .main, name .object, SymbolTables.known .initial .main, [method, method], .synthetic⟩],
      .synthetic⟩

theorem mistakenUnit_symbolValid : mistakenUnit.SymbolValid :=
  (CompilationUnit.checkSymbols_eq_true_iff (s := {})).mp (by decide +kernel)

theorem analysis_only_annotates_mistaken :
    mistakenUnit.SymbolValid ∧ ∃ a u s, mistakenUnit.analyze .typing {} = .ok (a, u, s) ∧
      a.success = false ∧ a.signatures.isSome = true ∧
      u.program.erase = ⟨BasicClass.all .initial ++ mistakenUnit.program.classes, .synthetic⟩ ∧
      ∀ d, u.program.Holds d → d.ty.isSome = true := by
  obtain ⟨a, u, s, hu, _, herase, _, hiff, hall, _⟩ :=
    analysis_only_annotates mistakenUnit mistakenUnit_symbolValid .typing {}
  have ha : a.signatures.isSome = true := hiff.mpr ⟨by decide +kernel, rfl⟩
  refine ⟨mistakenUnit_symbolValid, a, u, s, hu, ?_, ha, herase, (hall ha).1⟩
  rw [(CompilationUnit.eq_of_analyze hu).1]
  decide +kernel

end CoolTypes
