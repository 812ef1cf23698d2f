import CoolTypes.Proofs.Typing.Agreement

/-!
# Checks that ignore static types

The check of the inheritance relation and the collection of signatures never look at an expression, and the
check of code writes over the static types that it finds. So an analysis gives the same for a unit without
its static types, and the types that it writes can be erased again (`erase_annotateClass`).
-/

namespace CoolTypes

/-! ## Inheritance -/

theorem checkClasses_erase (t : SymbolTables) (declared earlier : List Symbol) (classes : List Class) :
    checkClasses t declared earlier (classes.map Class.erase) =
      checkClasses t declared earlier classes := by
  induction classes generalizing earlier with
  | nil => rfl
  | cons c rest ih =>
    rw [List.map_cons, checkClasses, checkClasses, Class.name_erase, ih]
    rfl

theorem definedAt_erase (classes : List Class) (name : Symbol) :
    definedAt (classes.map Class.erase) name = definedAt classes name := by
  have hfind : (classes.map Class.erase).find? (·.name.symbol == name) =
      (classes.find? (·.name.symbol == name)).map Class.erase := List.find?_map
  unfold definedAt
  rw [hfind]
  cases classes.find? (·.name.symbol == name) <;> rfl

theorem checkInheritance_erase (t : SymbolTables) (classes : List Class) :
    checkInheritance t (classes.map Class.erase) = checkInheritance t classes := by
  have hnames : (classes.map Class.erase).map (·.name.symbol) = classes.map (·.name.symbol) :=
    List.map_map
  simp only [checkInheritance, hnames, checkClasses_erase, definedAt_erase]

/-! ## Signatures -/

namespace Signatures

theorem addClass_erase (Γ : Ground) (acc : Signatures × List Report) (c : Class) :
    addClass Γ acc c.erase = addClass Γ acc c := by
  simp only [addClass, Class.name_erase, Class.file_erase, Class.attributes_erase,
    Class.methods_erase, List.foldl_map]
  rfl

theorem rootFirst_erase (h : ClassHierarchy) (classes : List Class) :
    rootFirst h (classes.map Class.erase) = (rootFirst h classes).map Class.erase := by
  simp only [rootFirst, List.filter_map, List.map_flatMap]
  rfl

theorem collect_erase (t : SymbolTables) (h : ClassHierarchy) (classes : List Class) :
    collect t h (classes.map Class.erase) = collect t h classes := by
  rw [collect, rootFirst_erase, List.foldl_map]
  exact List.foldl_ext _ _ _ fun acc c _ => addClass_erase ⟨t, h⟩ acc c

end Signatures

theorem settingOf_erase (t : SymbolTables) (classes : List Class) :
    settingOf t (classes.map Class.erase) = settingOf t classes := by
  have hh : hierarchyOf t (classes.map Class.erase) = hierarchyOf t classes := by
    rw [hierarchyOf, checkInheritance_erase]
    rfl
  simp only [settingOf, hh, Signatures.collect_erase]

/-! ## Code -/

/-- Any class is allowed. -/
theorem Env.in_true (env : Env) : env.In fun _ => True := fun _ T _ => by cases T <;> trivial

namespace Setting

variable (Γ : Setting) (env : Env)

theorem within_true : Γ.Within fun _ => True := by
  refine ⟨fun _ => trivial, ⟨trivial, fun _ _ _ => trivial⟩, fun _ _ sig _ => ?_, fun _ _ a _ => ?_⟩
  · refine ⟨fun ty _ => ?_, ?_, trivial⟩
    · cases ty <;> trivial
    · cases sig.ret <;> trivial
  · cases a.ty <;> trivial

theorem programReports_erase (p : Program) : Γ.programReports env p.erase = Γ.programReports env p := by
  rw [programReports, Program.erase, List.flatMap_map]
  exact List.flatMap_congr fun c _ =>
    (AgreesOn.refl Γ).codeReports Γ.within_true env.in_true c.typesIn_true

/-- If all classes have signatures, the static types that a program carries are written over. -/
theorem annotateProgram_erase {p : Program}
    (h : ∀ c ∈ p.classes, Γ.signatures.contains c.name.symbol = true) :
    Γ.annotateProgram env p.erase = Γ.annotateProgram env p := by
  simp only [annotateProgram, Program.erase, List.map_map]
  congr 1
  exact List.map_congr_left fun c hc =>
    (AgreesOn.refl Γ).annotateClass Γ.within_true env.in_true c.typesIn_true (h c hc)

/-! ## Erasing what has been written -/

variable (C : Symbol)

theorem erase_annotateArms {arms : List Arm}
    (h : ∀ arm ∈ arms, ∀ env : Env, (Γ.annotate C env arm.body).erase = arm.body.erase) :
    Expr.eraseArms (Γ.annotateArms C env arms) = Expr.eraseArms arms := by
  induction arms with
  | nil => rfl
  | cons arm rest ih =>
    obtain ⟨n, tn, e, s⟩ := arm
    rw [List.forall_mem_cons] at h
    rw [annotateArms, Expr.eraseArms, Expr.eraseArms, h.1, ih h.2]

variable {Γ env C} in
theorem erase_annotateInit {init : Option Expr}
    (h : ∀ i ∈ init, (Γ.annotate C env i).erase = i.erase) :
    Expr.eraseInit (Γ.annotateInit C env init) = Expr.eraseInit init := by
  cases init with
  | none => rfl
  | some i => rw [annotateInit, Expr.eraseInit, Expr.eraseInit, h i rfl]

variable {Γ env C} in
theorem erase_annotateAll {es : List Expr} (h : ∀ e ∈ es, (Γ.annotate C env e).erase = e.erase) :
    Expr.eraseAll (Γ.annotateAll C env es) = Expr.eraseAll es := by
  rw [annotateAll_eq, Expr.eraseAll_eq, Expr.eraseAll_eq, List.map_map]
  exact List.map_congr_left h

theorem erase_annotate (e : Expr) : (Γ.annotate C env e).erase = e.erase := by
  induction e using Expr.induction generalizing env with
  | assign n e s t ih => rw [annotate, Expr.erase, Expr.erase, ih]
  | call r m args s t iho ihargs =>
    have hobject : Expr.eraseReceiver (Γ.annotateReceiver C env r) = Expr.eraseReceiver r := by
      cases r with
      | implicit => rfl
      | dynamic o => exact congrArg Receiver.dynamic (iho o rfl env)
      | static o n => exact congrArg (Receiver.static · n) (iho o rfl env)
    rw [annotate, Expr.erase, Expr.erase, hobject, erase_annotateAll fun e he => ihargs e he env]
  | cond a b c s t iha ihb ihc => rw [annotate, Expr.erase, Expr.erase, iha, ihb, ihc]
  | loop a b s t iha ihb => rw [annotate, Expr.erase, Expr.erase, iha, ihb]
  | block es s t ih => rw [annotate, Expr.erase, Expr.erase, erase_annotateAll fun e he => ih e he env]
  | letIn b e s t ihi ih =>
    obtain ⟨n, tn, init, bs⟩ := b
    rw [annotate, Expr.erase, Expr.erase, ih, erase_annotateInit fun i hi => ihi i hi env]
  | caseOf e arms s t ih iharms =>
    rw [annotate, Expr.erase, Expr.erase, ih, Γ.erase_annotateArms env C iharms]
  | new | ident | int | string | bool | absent => rfl
  | binary op a b s t iha ihb => rw [annotate, Expr.erase, Expr.erase, iha, ihb]
  | unary op a s t ih => rw [annotate, Expr.erase, Expr.erase, ih]

theorem erase_annotateFeature (f : Feature) : (Γ.annotateFeature C env f).erase = f.erase := by
  cases f with
  | method m => simp only [annotateFeature, annotateMethod, Feature.erase, Method.erase, erase_annotate]
  | attr b =>
    simp only [annotateFeature, annotateAttr, Feature.erase, Binding.erase, ← Expr.eraseInit_eq,
      erase_annotateInit fun i _ => Γ.erase_annotate env C i]

theorem erase_annotateClass (c : Class) : (Γ.annotateClass env c).erase = c.erase := by
  unfold annotateClass
  split
  · simp only [Class.erase, List.map_map]
    congr 1
    exact List.map_congr_left fun f _ => Γ.erase_annotateFeature env _ f
  · rfl

end Setting

/-! ## Code in lists of classes that agree -/

namespace ClassesAgree

variable {S : Symbol → Prop} {t : SymbolTables} {classes classes' : List Class}
  (hs : ClassesAgree S t classes classes') {c : Class} (hc : c ∈ classes)

include hs hc

/-- The code of a class gets the same static types. -/
theorem annotateClass : (CoolTypes.settingOf t classes').annotateClass (fun _ => none) c =
    (CoolTypes.settingOf t classes).annotateClass (fun _ => none) c := by
  have hc' := (hs.mem_iff c (hs.typesIn c hc).name).mpr hc
  -- agreement compares the class with the one without static types, so this is taken as a middle
  have herase := (Setting.AgreesOn.refl (CoolTypes.settingOf t classes')).annotateClass
    (Setting.within_true _) (Env.in_true fun _ => none) c.typesIn_true
    (hs.wellFormed'.contains_signatures hc')
  rw [← herase]
  exact hs.settingOf.annotateClass (settingOf_within hs.builtin hs.typesIn) .none (hs.typesIn c hc)
    (hs.wellFormed.contains_signatures hc)

/-- The same is reported in the code of a class. -/
theorem codeReports : (CoolTypes.settingOf t classes').codeReports (fun _ => none) c =
    (CoolTypes.settingOf t classes).codeReports (fun _ => none) c := by
  have herase := (Setting.AgreesOn.refl (CoolTypes.settingOf t classes')).codeReports
    (Setting.within_true _) (Env.in_true fun _ => none) c.typesIn_true
  rw [← herase]
  exact hs.settingOf.codeReports (settingOf_within hs.builtin hs.typesIn) .none (hs.typesIn c hc)

end ClassesAgree

end CoolTypes
