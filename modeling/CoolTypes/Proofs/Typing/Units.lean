import CoolTypes.Analysis
import CoolTypes.Proofs.Typing.Decision

/-!
# Units with a valid hierarchy

The code of a unit is checked in the setting that `CompilationUnit.setting` names. For a unit whose
hierarchy is well formed with the basic classes in front it is regular, so the check of an expression
decides the typing relation of the language (`expr_decides_typing`).
-/

namespace CoolTypes

/-- The setting over a list of classes. -/
def settingOf (t : SymbolTables) (classes : List Class) : Setting where
  tables := t
  hierarchy := hierarchyOf t classes
  signatures := (Signatures.collect t (hierarchyOf t classes) classes).1

/-- The types of a unit are checked in the setting over its classes. -/
theorem CompilationUnit.checkTypes_eq (u : CompilationUnit) (s : Sink) :
    u.checkTypes (checkInheritance u.tables u.program.classes).graph s = do
      let Γ := settingOf u.tables u.program.classes
      let s ← s.reportOver u.tables
        (Signatures.collect u.tables Γ.hierarchy u.program.classes).2
      let (program, reports) ← Γ.run (Γ.program u.program)
      let s ← s.reportOver u.tables reports
      return (Γ.signatures, { u with program := program }, s) := rfl

theorem WellFormedHierarchy.contains_signatures {t : SymbolTables} {classes : List Class}
    (hw : WellFormedHierarchy t classes) {c : Class} (hc : c ∈ classes) :
    (settingOf t classes).signatures.contains c.name.symbol = true :=
  (Signatures.contains_collect hw).mpr (hw.contains_iff.mpr (List.mem_map_of_mem hc))

/-- Over a well-formed list of classes that has the built-in ones the setting is regular, if the basic
file has slots in primitive classes only. -/
theorem WellFormedHierarchy.regular {t : SymbolTables} {classes : List Class}
    (hw : WellFormedHierarchy t classes)
    (hbuiltin : ∀ b : BuiltinClass, b.symbol t ∈ classes.map (·.name.symbol))
    (hslots : ∀ c ∈ classes, c.file = t.known .basicFile → ¬ t.IsPrimitive c.name.symbol →
      ∀ b ∈ c.attributes, b.typeName.symbol ≠ t.known .primSlot) : (settingOf t classes).Regular where
  rooted := hw.rooted_hierarchy
  contains _ := Signatures.contains_collect hw
  builtin b := hw.contains_iff.mpr (hbuiltin b)
  method _ _ _ h := Signatures.method_declares hw h
  attr _ _ _ hprim h := Signatures.attr_declares hw hslots hprim h
  final _ _ hc hdc := eq_of_reaches_primitive hc hdc

namespace CompilationUnit

/-- The setting in which the code of a unit is checked once the basic classes are in front of it. -/
def setting (u : CompilationUnit) : Setting :=
  settingOf u.installBasicClasses.tables u.installBasicClasses.program.classes

/-- What is reported about the signatures of a unit with the basic classes in front. -/
def signatureReports (u : CompilationUnit) : List Report :=
  (Signatures.collect u.installBasicClasses.tables u.setting.hierarchy
    u.installBasicClasses.program.classes).2

/-- The unit has no class of its own in the basic file, and its hierarchy is well formed. -/
structure Valid (u : CompilationUnit) : Prop where
  ownFiles : ∀ c ∈ u.program.classes, c.file ≠ u.tables.known .basicFile
  valid : (checkInheritance u.installBasicClasses.tables
    u.installBasicClasses.program.classes).isValid = true

variable {u : CompilationUnit}

/-- New string literals leave the identifiers. -/
theorem ids_addClassLiterals (t : SymbolTables) : t.addClassLiterals.ids = t.ids :=
  List.foldlRecOn (motive := fun u : SymbolTables => u.ids = t.ids) BuiltinClass.literalOrder _ rfl
    fun _ hu _ _ => hu

theorem known_addClassLiterals (t : SymbolTables) (w : WellKnown) :
    t.addClassLiterals.known w = t.known w := by
  rw [SymbolTables.known, SymbolTables.known, ids_addClassLiterals]

theorem Valid.wellFormed (hu : u.Valid) :
    WellFormedHierarchy u.installBasicClasses.tables u.installBasicClasses.program.classes :=
  isValid_iff_wellFormed.mp hu.valid

theorem builtin_mem_installBasicClasses (u : CompilationUnit) (b : BuiltinClass) :
    b.symbol u.installBasicClasses.tables ∈
      u.installBasicClasses.program.classes.map (·.name.symbol) := by
  have hmem : u.tables.known b.wellKnown ∈ (BasicClass.all u.tables).map (·.name.symbol) := by
    cases b <;> simp [BasicClass.all, BasicClass.make, BasicClass.name, BuiltinClass.wellKnown]
  obtain ⟨c, hc, hname⟩ := List.mem_map.mp hmem
  refine List.mem_map.mpr ⟨c, List.mem_append_left _ hc, hname.trans ?_⟩
  exact (known_addClassLiterals u.tables b.wellKnown).symm

/-- If no own class has slots, only primitive classes have them. -/
theorem slots_installBasicClasses (hslots : ∀ c ∈ u.program.classes,
      c.file = u.tables.known .basicFile → ∀ b ∈ c.attributes,
        b.typeName.symbol ≠ u.tables.known .primSlot) :
    ∀ c ∈ u.installBasicClasses.program.classes,
      c.file = u.installBasicClasses.tables.known .basicFile →
        ¬ u.installBasicClasses.tables.IsPrimitive c.name.symbol → ∀ b ∈ c.attributes,
          b.typeName.symbol ≠ u.installBasicClasses.tables.known .primSlot := by
  have hknown : ∀ w, u.installBasicClasses.tables.known w = u.tables.known w :=
    known_addClassLiterals u.tables
  intro c hc hfile hprim
  rw [hknown] at hfile ⊢
  rcases List.mem_append.mp hc with hc | hc
  · simp only [BasicClass.all, List.mem_cons, List.not_mem_nil, or_false] at hc
    rcases hc with rfl | rfl | rfl | rfl | rfl
    · exact fun b hb => absurd hb List.not_mem_nil
    · exact fun b hb => absurd hb List.not_mem_nil
    · exact absurd (.inl rfl) hprim
    · exact absurd (.inr (.inl rfl)) hprim
    · exact absurd (.inr (.inr rfl)) hprim
  · exact hslots c hc hfile

/-- The setting of a unit with a well-formed hierarchy is regular, if no own class has slots. -/
theorem regular_setting
    (hw : WellFormedHierarchy u.installBasicClasses.tables u.installBasicClasses.program.classes)
    (hslots : ∀ c ∈ u.program.classes, c.file = u.tables.known .basicFile → ∀ b ∈ c.attributes,
      b.typeName.symbol ≠ u.tables.known .primSlot) : u.setting.Regular :=
  hw.regular u.builtin_mem_installBasicClasses (slots_installBasicClasses hslots)

theorem Valid.regular (hu : u.Valid) : u.setting.Regular :=
  regular_setting hu.wellFormed fun c hc hfile => absurd hfile (hu.ownFiles c hc)

end CompilationUnit

/-- In a unit with a valid hierarchy, for a class that is not primitive and under scopes with declared
types, the check of an expression comes to an end and restores scopes and class. It reports nothing if
and only if the expression has a type, which then is the one that is written on it. -/
theorem expr_decides_typing (u : CompilationUnit) (hu : u.Valid) (s : CheckState)
    (hC : u.setting.Checkable s.current) (henv : Env.Declared u.setting.hierarchy s.scopes.resolve?)
    (e : Expr) :
    ∃ e' rs, StateT.run (u.setting.expr e) s = .ok (e', { s with reports := s.reports ++ rs }) ∧
      (rs = [] ↔ ∃ T, HasType u.setting s.current s.scopes.resolve? e T) ∧
      ∀ T, HasType u.setting s.current s.scopes.resolve? e T → e'.ty = some T := by
  have hiff := fun T => Setting.hasType_iff hu.regular hC henv (e := e) (T := T)
  refine ⟨_, _, Setting.expr_gives u.setting s.current s.scopes.resolve? e s rfl rfl, ?_, ?_⟩
  · constructor
    · intro hr
      exact ⟨_, (hiff _).mpr ⟨hr, rfl⟩⟩
    · rintro ⟨T, hT⟩
      exact ((hiff T).mp hT).1
  · intro T hT
    rw [Setting.annotate_ty, ((hiff T).mp hT).2]

/-- A unit with a main class only. -/
def mainUnit : CompilationUnit where
  tables := .initial
  program := ⟨[⟨BasicClass.name .initial .main, BasicClass.name .initial .object,
    SymbolTables.known .initial .main, [], .synthetic⟩], .synthetic⟩

theorem mainUnit_valid : mainUnit.Valid where
  ownFiles := by decide
  valid := by decide +kernel

theorem mainUnit_checkable :
    mainUnit.setting.Checkable (SymbolTables.known .initial .main) where
  contains := by decide +kernel
  notPrimitive := by decide +kernel

/-- A binding of the self type to `self`, whose body is the bound name. -/
def selfLet : Expr :=
  .letIn ⟨BasicClass.name .initial .arg, BasicClass.name .initial .selfType,
      some (.ident (BasicClass.name .initial .self) none), .synthetic⟩
    (.ident (BasicClass.name .initial .arg) none) .synthetic none

theorem mainUnit_hasType_selfLet :
    HasType mainUnit.setting (SymbolTables.known .initial .main) (fun _ => none) selfLet
      .selfType := by
  have hres : mainUnit.setting.signatures.resolve? (SymbolTables.known .initial .selfType) =
      some .selfType := by decide +kernel
  have hne : SymbolTables.known .initial .arg ≠ mainUnit.setting.tables.known .self := by
    decide +kernel
  refine .letInit hres (.self ?_) .self hne (.ident hne ?_)
  · exact (CompilationUnit.known_addClassLiterals _ _).symm
  · rfl

theorem expr_decides_typing_selfLet :
    let s : CheckState := { current := SymbolTables.known .initial .main }
    mainUnit.Valid ∧ mainUnit.setting.Checkable s.current ∧
      Env.Declared mainUnit.setting.hierarchy s.scopes.resolve? ∧
      ∃ e', StateT.run (mainUnit.setting.expr selfLet) s = .ok (e', s) ∧
        e'.ty = some .selfType := by
  intro s
  have henv : Env.Declared mainUnit.setting.hierarchy s.scopes.resolve? :=
    fun n T h => absurd h (by simp [s, Scopes.resolve?, Scopes.toList])
  obtain ⟨e', rs, hrun, hiff, hty⟩ :=
    expr_decides_typing mainUnit mainUnit_valid s mainUnit_checkable henv selfLet
  have hT : HasType mainUnit.setting s.current s.scopes.resolve? selfLet .selfType :=
    mainUnit_hasType_selfLet
  cases hiff.mpr ⟨_, hT⟩
  exact ⟨mainUnit_valid, mainUnit_checkable, henv, e', hrun, hty _ hT⟩

end CoolTypes
