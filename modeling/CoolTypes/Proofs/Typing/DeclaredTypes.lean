import CoolTypes.Proofs.Annotations
import CoolTypes.Proofs.Classes.Acceptance

/-!
# Declared types in tables and in code

The type of a declaration is looked up twice: once for the tables of signatures (`resolvedTy`), which tells
what is wrong with it, and once more where code is checked against it (`Setting.declaredTy`), in silence. The
second look-up takes the type of slots as it is wherever it stands, the first one in the basic file alone. So
both give the same type unless a declaration of another file names the type of slots and no class is called
so (`declaredTy_eq_resolvedTy_iff`, `formalTy_eq_resolvedParam_iff`, `declaredTy_eq_resolvedAttr_iff`), and
there the tables and the code disagree (`tables_agree_with_code_but_for_slots`).
-/

namespace CoolTypes

/-- The name is that of the type of slots, and no class is called so. -/
def StraySlot (t : SymbolTables) (classes : List Class) (n : Symbol) : Prop :=
  n = t.known .primSlot ∧ n ∉ classes.map (·.name.symbol)

variable {t : SymbolTables} {classes : List Class}

/-! ## One name -/

theorem resolvedTy_of_stray {n : Symbol} (hn : StraySlot t classes n) :
    resolvedTy t classes n = .named (t.known .object) := by
  have hself : n ≠ t.known .selfType := by
    rw [hn.1, ne_eq, SymbolTables.known_inj]
    simp
  rw [resolvedTy, if_neg hself, if_neg hn.2]

theorem named_stray_ne {n : Symbol} (hn : StraySlot t classes n) :
    Ty.named n ≠ .named (t.known .object) := by
  rw [hn.1, ne_eq, Ty.named.injEq, SymbolTables.known_inj]
  simp

section WellFormed

variable (hw : WellFormedHierarchy t classes)

include hw

theorem nameTy_eq_resolvedTy (n : Name) :
    (settingOf t classes).nameTy n = resolvedTy t classes n.symbol := by
  have hself : (settingOf t classes).signatures.selfType = t.known .selfType :=
    (Signatures.collects_collect hw).selfType
  have hcontains : (settingOf t classes).signatures.contains n.symbol = true ↔
      n.symbol ∈ classes.map (·.name.symbol) := (Signatures.contains_collect hw).trans hw.contains_iff
  unfold Setting.nameTy Signatures.resolve? resolvedTy
  rw [hself]
  by_cases hn : n.symbol = t.known .selfType
  · rw [if_pos hn, if_pos hn]
    rfl
  · rw [if_neg hn, if_neg hn]
    by_cases hc : n.symbol ∈ classes.map (·.name.symbol)
    · rw [if_pos (hcontains.mpr hc), if_pos hc]
      rfl
    · rw [if_neg (mt hcontains.mp hc), if_neg hc]
      rfl

/-- The name of a declared class stands for that class wherever it is looked up. -/
theorem declaredTy_of_not_stray {n : Name} (hn : ¬ StraySlot t classes n.symbol) :
    (settingOf t classes).declaredTy n = resolvedTy t classes n.symbol := by
  unfold Setting.declaredTy
  split
  · next hslot =>
    have hdeclared : n.symbol ∈ classes.map (·.name.symbol) :=
      Decidable.not_not.mp fun h => hn ⟨hslot, h⟩
    have hself : n.symbol ≠ t.known .selfType := by
      rw [hslot, ne_eq, show (settingOf t classes).tables = t from rfl, SymbolTables.known_inj]
      simp
    rw [resolvedTy, if_neg hself, if_pos hdeclared]
  · exact nameTy_eq_resolvedTy hw n

omit hw in
theorem declaredTy_of_stray {n : Name} (hn : StraySlot t classes n.symbol) :
    (settingOf t classes).declaredTy n = .named n.symbol :=
  if_pos hn.1

theorem declaredTy_eq_resolvedTy_iff (n : Name) :
    (settingOf t classes).declaredTy n = resolvedTy t classes n.symbol ↔
      ¬ StraySlot t classes n.symbol := by
  constructor
  · intro heq hstray
    rw [declaredTy_of_stray hstray, resolvedTy_of_stray hstray] at heq
    exact named_stray_ne hstray heq
  · exact declaredTy_of_not_stray hw

theorem formalTy_eq_resolvedParam_iff (f : Formal) :
    (settingOf t classes).formalTy f = resolvedParam t classes f.typeName.symbol ↔
      ¬ StraySlot t classes f.typeName.symbol := by
  constructor
  · intro heq hstray
    rw [Setting.formalTy, resolvedParam, declaredTy_of_stray hstray, resolvedTy_of_stray hstray] at heq
    exact named_stray_ne hstray heq
  · intro hstray
    rw [Setting.formalTy, declaredTy_of_not_stray hw hstray]
    rfl

/-- The slots of the basic file have the type of slots in their tables too. -/
theorem declaredTy_eq_resolvedAttr_iff (c : Class) (b : Binding) :
    (settingOf t classes).declaredTy b.typeName = (resolvedAttr t classes c b).ty ↔
      ¬ (StraySlot t classes b.typeName.symbol ∧ c.file ≠ t.known .basicFile) := by
  by_cases hslot : IsSlot t c b.typeName.symbol
  · rw [resolvedAttr, if_pos hslot]
    exact iff_of_true (if_pos hslot.2) fun h => h.2 hslot.1
  · rw [resolvedAttr, if_neg hslot, declaredTy_eq_resolvedTy_iff hw]
    have hfile : StraySlot t classes b.typeName.symbol → c.file ≠ t.known .basicFile :=
      fun hstray hfile => hslot ⟨hfile, hstray.1⟩
    exact not_congr ⟨fun h => ⟨h, hfile h⟩, fun h => h.1⟩

/-! ## Tables -/

/-- The first method of its name in a class has the signature that it declares there. -/
theorem method?_of_find? {c : Class} (hc : c ∈ classes) {n : Symbol} {m : Method}
    (hm : c.methods.find? (·.name.symbol == n) = some m) :
    (settingOf t classes).signatures.method? c.name.symbol n = some (resolvedMethod t classes c m) := by
  obtain ⟨above, habove⟩ := Signatures.ancestors_eq_cons hw hc
  refine (Signatures.method?_eq_nearest hw n c hc).trans ?_
  rw [habove, List.findSome?_cons, Signatures.definedMethod?_class hw hc, hm]
  rfl

/-- An attribute that a class has from itself is the first of its name there. -/
theorem exists_binding_of_attr? {c : Class} (hc : c ∈ classes) {n : Symbol} {a : AttrSig}
    (ha : (settingOf t classes).signatures.attr? c.name.symbol n = some a)
    (hown : a.definedIn = c.name.symbol) :
    ∃ b, c.attributes.find? (·.name.symbol == n) = some b ∧ resolvedAttr t classes c b = a := by
  obtain ⟨_, d, hd, _, b, hb, rfl⟩ := Signatures.exists_class_of_attr? hw ha
  obtain rfl := List.inj_on_of_nodup_map hw.names hd hc hown
  exact ⟨b, hb, rfl⟩

end WellFormed

/-! ## Scopes of bodies -/

/-- In the body of a method, a parameter that is not `self` and does not repeat an earlier one has its own
type. -/
theorem Setting.resolve?_of_openMethod {Γ : Setting} {params : List Formal} {s s' : CheckState}
    (hrun : StateT.run (Γ.openMethod params) s = .ok ((), s')) {i : Nat} (hi : i < params.length)
    (hself : params[i].name.symbol ≠ Γ.tables.known .self)
    (hnew : ∀ j (hj : j < i), params[j].name.symbol ≠ params[i].name.symbol) :
    s'.scopes.resolve? params[i].name.symbol = some (Γ.formalTy params[i]) := by
  have hfirst : params.find? (·.name.symbol == params[i].name.symbol) = some params[i] :=
    List.find?_eq_some_iff_getElem.mpr ⟨by simp, i, hi, rfl, fun j hj => by simpa using hnew j hj⟩
  rw [run_openMethod] at hrun
  cases hrun
  simp only [Scopes.resolve?, Scopes.toList, List.findSome?_cons, SymbolMap.get?_empty,
    get?_paramScope, if_neg hself, hfirst, Option.map_some]

/-! ## Units -/

/-- In a symbol-valid unit with a valid hierarchy, whatever else is wrong with it, the first method of each
name in a class is checked against the result type that the tables have for it, its body sees the parameter
types that the tables have, and an attribute that stands in the tables of its own class is checked against
the type that the tables have, which is also the type with which code uses it. This fails exactly where a
declaration names the type of slots though no class is called so, attributes of the basic file apart: there
the tables have the root class, and the code is checked against the type of slots. -/
theorem tables_agree_with_code_but_for_slots (u : CompilationUnit) (hu : u.SymbolValid)
    (hvalid : u.inheritance.isValid = true) (s : Sink) :
    let t := u.installBasicClasses.tables
    let classes := u.installBasicClasses.program.classes
    ∃ a u' s' sigs, u.analyze .typing s = .ok (a, u', s') ∧ a.signatures = some sigs ∧
      ∀ c ∈ classes,
        (∀ n m, c.methods.find? (·.name.symbol == n) = some m →
          ∃ sig, sigs.method? c.name.symbol n = some sig ∧ sig.definedIn = c.name.symbol ∧
            sig.params.length = m.params.length ∧
            (u.setting.declaredTy m.returnType = sig.ret ↔
              ¬ StraySlot t classes m.returnType.symbol) ∧
            ∀ st, ∃ st', StateT.run (u.setting.openMethod m.params) st = .ok ((), st') ∧
              ∀ i (hi : i < m.params.length), m.params[i].name.symbol ≠ t.known .self →
                (∀ j (hj : j < i), m.params[j].name.symbol ≠ m.params[i].name.symbol) →
                  ∃ T, st'.scopes.resolve? m.params[i].name.symbol = some T ∧
                    (sig.params[i]? = some T ↔ ¬ StraySlot t classes m.params[i].typeName.symbol)) ∧
        ∀ n a, sigs.attr? c.name.symbol n = some a → a.definedIn = c.name.symbol →
          (∃ b, c.attributes.find? (·.name.symbol == n) = some b ∧
            (u.setting.declaredTy b.typeName = a.ty ↔
              ¬ (StraySlot t classes b.typeName.symbol ∧ c.file ≠ t.known .basicFile))) ∧
          ∀ st span, sigs.attr? st.current n = some a → st.scopes.resolve? n = none →
            StateT.run (u.setting.identType? ⟨n, span⟩) st = .ok (some a.ty, st) := by
  intro t classes
  have hchecked : u.typesChecked .typing = true := by simp [CompilationUnit.typesChecked, hvalid]
  have hw : WellFormedHierarchy t classes := CompilationUnit.wellFormed_of_typesChecked hchecked
  refine ⟨_, _, _, u.setting.signatures, hu.analyze_eq .typing s,
    CompilationUnit.mem_signatures_analysis.mpr ⟨hchecked, rfl⟩, fun c hc => ⟨fun n m hm => ?_, ?_⟩⟩
  · refine ⟨_, method?_of_find? hw hc hm, rfl, by simp [resolvedMethod],
      declaredTy_eq_resolvedTy_iff hw m.returnType, fun st => ⟨_, Setting.run_openMethod m.params st, ?_⟩⟩
    intro i hi hself hnew
    refine ⟨_, Setting.resolve?_of_openMethod (Setting.run_openMethod m.params st) hi hself hnew, ?_⟩
    rw [← formalTy_eq_resolvedParam_iff hw m.params[i], resolvedMethod, List.getElem?_map,
      List.getElem?_eq_getElem hi, Option.map_some, Option.some.injEq]
    exact eq_comm
  · intro n a ha hown
    refine ⟨?_, fun st span hattr hfree => ?_⟩
    · obtain ⟨b, hb, rfl⟩ := exists_binding_of_attr? hw hc ha hown
      exact ⟨b, hb, declaredTy_eq_resolvedAttr_iff hw c b⟩
    · have hlookup : u.setting.lookup? st.current st.scopes.resolve? ⟨n, span⟩ = some a.ty := by
        rw [Setting.lookup?, hfree, hattr]
        rfl
      have hrun := Setting.gives_identType? (Γ := u.setting) ⟨n, span⟩ st rfl rfl
      rw [hlookup] at hrun
      simpa using hrun

theorem tables_agree_with_code_but_for_slots_mistaken :
    mistakenUnit.SymbolValid ∧ mistakenUnit.inheritance.isValid = true ∧
      ∃ a u s sigs sig, mistakenUnit.analyze .typing {} = .ok (a, u, s) ∧ a.signatures = some sigs ∧
        sigs.method? (SymbolTables.known .initial .main) (SymbolTables.known .initial .abort) = some sig ∧
        mistakenUnit.setting.declaredTy (BasicClass.name .initial .int) = sig.ret := by
  have hvalid : mistakenUnit.inheritance.isValid = true := by decide +kernel
  obtain ⟨a, u, s, sigs, hu, hsigs, hall⟩ :=
    tables_agree_with_code_but_for_slots mistakenUnit mistakenUnit_symbolValid hvalid {}
  have hmain : ∀ c ∈ mistakenUnit.program.classes, c ∈ mistakenUnit.installBasicClasses.program.classes :=
    fun c hc => List.mem_append_right _ hc
  obtain ⟨sig, hsig, _, _, hret, _⟩ := (hall _ (hmain _ (List.mem_singleton.mpr rfl))).1
    (SymbolTables.known .initial .abort) _ rfl
  have hslot : SymbolTables.known .initial .int ≠ mistakenUnit.installBasicClasses.tables.known .primSlot := by
    decide +kernel
  exact ⟨mistakenUnit_symbolValid, hvalid, a, u, s, sigs, sig, hu, hsigs, hsig,
    hret.mpr fun hstray => hslot hstray.1⟩

/-- A main class with an attribute of the type of slots, which has an initial value. -/
def strayUnit : CompilationUnit where
  tables := .initial
  program :=
    let name := BasicClass.name .initial
    ⟨[⟨name .main, name .object, SymbolTables.known .initial .main,
      [.attr ⟨name .val, name .primSlot, some (.new (name .main) .synthetic none), .synthetic⟩],
      .synthetic⟩], .synthetic⟩

/-- The tables have the root class for the attribute. Its initial value is an object of the main class, and
still it is reported for not conforming, after the type name has been reported. -/
theorem tables_disagree_with_code_on_slots :
    strayUnit.SymbolValid ∧ strayUnit.inheritance.isValid = true ∧
      ∃ a ∈ strayUnit.setting.signatures.attr? (SymbolTables.known .initial .main)
          (SymbolTables.known .initial .val),
        a.definedIn = SymbolTables.known .initial .main ∧
        a.ty = .named (SymbolTables.known .initial .object) ∧
        strayUnit.setting.declaredTy (BasicClass.name .initial .primSlot) ≠ a.ty ∧
        strayUnit.told .typing = [⟨.undeclaredType "_prim_slot", .synthetic⟩,
          ⟨.mismatchedTypes "_prim_slot" "Main", .synthetic⟩] := by
  refine ⟨(CompilationUnit.checkSymbols_eq_true_iff (s := {})).mp (by decide +kernel), by decide +kernel,
    ⟨.named (SymbolTables.known .initial .object), SymbolTables.known .initial .main⟩, by decide +kernel,
    rfl, rfl, by decide +kernel, by decide +kernel⟩

end CoolTypes
