import CoolTypes.Proofs.Annotations
import CoolTypes.Proofs.Typing.BasicClasses

/-!
# Types after errors

After a report the check goes on with the root class, so it never comes to a class that is not declared.
`Setting.Sound` says this of a state in which an expression is checked; the check begins with sound states
(`Begins.sound`), enters sound ones from sound ones (`Enters.sound`), and the type of an expression that is
checked in one is declared (`Sound.infer_declares`). The one exception is the type of slots, which neither
parameters nor attributes of a program may have here (`recovery_keeps_declared_types`).
-/

namespace CoolTypes

/-! ## Scopes -/

/-- All types to which some scope binds a name are declared. -/
def Scopes.Declared (h : ClassHierarchy) (s : Scopes) : Prop :=
  ∀ scope ∈ s.toList, ∀ n T, scope.get? n = some T → h.Declares T

namespace Scopes.Declared

variable {h : ClassHierarchy} {s : Scopes}

/-- A scope that has just been opened binds nothing. -/
theorem of_empty {n : Symbol} {T : Ty} (hn : (SymbolMap.empty : SymbolMap Ty).get? n = some T) :
    h.Declares T := by
  rw [SymbolMap.get?_empty] at hn
  exact absurd hn (by simp)

theorem push (hs : s.Declared h) : s.push.Declared h :=
  List.forall_mem_cons.mpr ⟨fun _ _ hn => of_empty hn, hs⟩

theorem bind (hs : s.Declared h) (n : Symbol) {T : Ty} (hT : h.Declares T) :
    (s.bind n T).Declared h := by
  obtain ⟨hinner, houter⟩ := List.forall_mem_cons.mp hs
  refine List.forall_mem_cons.mpr ⟨fun m U hm => ?_, houter⟩
  rcases SymbolMap.get?_insert_cases hm with hm | ⟨_, rfl⟩
  · exact hinner m U hm
  · exact hT

theorem env (hs : s.Declared h) : Env.Declared h s.resolve? := by
  intro n T hn
  obtain ⟨scope, hscope, hT⟩ := List.exists_of_findSome?_eq_some hn
  exact hs scope hscope n T hT

end Scopes.Declared

/-! ## Types that are classes -/

/-- Whether the form of an expression alone makes its type a class. -/
def Expr.isClassTyped : Expr → Bool
  | .cond .. | .caseOf .. | .new .. => true
  | _ => false

theorem Ty.orSelf_ne_selfType (T : Ty) (c : Symbol) : T.orSelf (.named c) ≠ .selfType := by
  cases T <;> simp [Ty.orSelf]

namespace Setting

variable {Γ : Setting} {C : Symbol} {env : Env}

theorem formalTy_ne_selfType (f : Formal) : Γ.formalTy f ≠ .selfType :=
  Ty.orSelf_ne_selfType _ _

theorem joinTy_ne_selfType (tys : List Ty) : Γ.joinTy C tys ≠ .selfType := by
  unfold joinTy top
  cases Γ.hierarchy.joinAll? C tys <;> simp

theorem infer_ne_selfType {e : Expr} (he : e.isClassTyped = true) :
    Γ.infer C env e ≠ .selfType := by
  cases e with
  | cond | new => simp [infer]
  | caseOf => exact joinTy_ne_selfType _
  | _ => exact absurd he (by simp [Expr.isClassTyped])

theorem isClassTyped_annotate (e : Expr) :
    (Γ.annotate C env e).isClassTyped = e.isClassTyped := by
  cases e with
  | letIn b _ _ _ => cases b; rfl
  | _ => rfl

/-! ## Sound states -/

/-- The scopes hold declared types, and the code that is checked belongs to a declared class. Code of a
primitive class is missing, so that its slots are not looked up. -/
structure Sound (Γ : Setting) (x : CheckState × Expr) : Prop where
  contains : Γ.hierarchy.contains x.1.current = true
  absent : Γ.tables.IsPrimitive x.1.current → x.2.isAbsent = true
  scopes : x.1.scopes.Declared Γ.hierarchy

/-- The type that the check writes on an expression in a sound state. -/
theorem Sound.infer_declares (hΓ : Γ.Regular) {s : CheckState} {e : Expr} (hx : Γ.Sound (s, e)) :
    Γ.hierarchy.Declares (Γ.infer s.current s.scopes.resolve? e) := by
  by_cases hprim : Γ.tables.IsPrimitive s.current
  · have habsent := hx.absent hprim
    cases e with
    | absent => exact Regular.top_declares Γ
    | _ => exact absurd habsent (by simp [Expr.isAbsent])
  · exact hΓ.infer_declares ⟨hx.contains, hprim⟩ hx.scopes.env e

theorem innerScopes_declared {scopes : Scopes} (hs : scopes.Declared Γ.hierarchy) (n : Name) {T : Ty}
    (hT : Γ.hierarchy.Declares T) : (Γ.innerScopes scopes n T).Declared Γ.hierarchy := by
  unfold innerScopes
  split
  · exact hs.push
  · exact hs.push.bind _ hT

/-- A class with an expression that is not missing is not primitive, so that other states of its code are
sound as soon as their scopes are. -/
theorem Sound.of_current {s s' : CheckState} {e d : Expr} (hx : Γ.Sound (s, e))
    (he : e.isAbsent = false) (hcurrent : s'.current = s.current)
    (hs : s'.scopes.Declared Γ.hierarchy) : Γ.Sound (s', d) where
  contains := hcurrent ▸ hx.contains
  absent hprim := absurd (hx.absent (hcurrent ▸ hprim)) (by simp [he])
  scopes := hs

/-- What the check enters from a sound state is sound. -/
theorem Enters.sound (hΓ : Γ.Regular) {x y : CheckState × Expr} (hstep : Γ.Enters x y)
    (hx : Γ.Sound x) : Γ.Sound y := by
  cases hstep with
  | @part s s' e d hd hplace =>
    have he : e.isAbsent = false := by
      cases e with
      | absent => exact absurd hd List.not_mem_nil
      | _ => rfl
    exact hx.of_current he hplace.current (hplace.scopes ▸ hx.scopes)
  | @letBody _ _ _ b _ _ _ hrun hplace =>
    rw [run_openBinding _ (gives_typeOf _)] at hrun
    cases hrun
    have hinner := innerScopes_declared hx.scopes b.name (hΓ.nameTy_declares b.typeName)
    exact hx.of_current rfl hplace.current (hplace.scopes ▸ hinner)
  | @armBody _ _ _ _ _ _ _ arm _ hrun hplace =>
    rw [run_openBinding _ (gives_classTypeOf _ .caseArm)] at hrun
    cases hrun
    have hinner := innerScopes_declared hx.scopes arm.name (hΓ.armTy_declares arm.typeName)
    exact hx.of_current rfl hplace.current (hplace.scopes ▸ hinner)

/-- Whatever the check comes to from a sound state is sound. -/
theorem sound_of_enters (hΓ : Γ.Regular) {x y : CheckState × Expr}
    (hsteps : Relation.ReflTransGen Γ.Enters x y) (hx : Γ.Sound x) : Γ.Sound y := by
  induction hsteps with
  | refl => exact hx
  | tail _ hstep ih => exact hstep.sound hΓ ih

/-! ## The beginning of code -/

/-- A class whose code can be checked with declared types only: it is declared, its parameters do not have
the type of slots, and it has no code if it is primitive. -/
structure Tame (Γ : Setting) (c : Class) : Prop where
  contains : Γ.hierarchy.contains c.name.symbol = true
  absent : Γ.tables.IsPrimitive c.name.symbol → ∀ f ∈ c.features, ∀ e ∈ f.code, e.isAbsent = true
  params : ∀ m ∈ c.methods, ∀ f ∈ m.params, f.typeName.symbol ≠ Γ.tables.known .primSlot

theorem formalTy_declares (hΓ : Γ.Regular) {f : Formal}
    (hf : f.typeName.symbol ≠ Γ.tables.known .primSlot) : Γ.hierarchy.Declares (Γ.formalTy f) := by
  have hty : Γ.declaredTy f.typeName = Γ.nameTy f.typeName := if_neg hf
  rw [formalTy, hty]
  exact hΓ.armTy_declares f.typeName

theorem paramScope_cases {params : List Formal} {n : Symbol} {T : Ty}
    (h : (Γ.paramScope params).get? n = some T) : ∃ f ∈ params, Γ.formalTy f = T := by
  rw [get?_paramScope] at h
  split at h
  · exact absurd h (by simp)
  · obtain ⟨f, hf, hT⟩ := Option.map_eq_some_iff.mp h
    exact ⟨f, List.mem_of_find?_eq_some hf, hT⟩

/-- The check begins in sound states. -/
theorem Begins.sound (hΓ : Γ.Regular) {p : Program} (hp : ∀ c ∈ p.classes, Γ.Tame c)
    {x : CheckState × Expr} (hbegin : Γ.Begins p x) : Γ.Sound x := by
  have hstart : ∀ {c s}, Γ.InClass c s → s.scopes.Declared Γ.hierarchy := by
    intro c s hin
    rw [hin.scopes]
    exact Scopes.Declared.push (List.forall_mem_singleton.mpr fun _ _ hn =>
      Scopes.Declared.of_empty hn)
  cases hbegin with
  | @body c m s s' hc _ hm hin hrun =>
    have htame := hp c hc
    have hcurrent : s.current = c.name.symbol := hin.current
    rw [run_openMethod] at hrun
    cases hrun
    refine ⟨hcurrent ▸ htame.contains, fun hprim => ?_, ?_⟩
    · exact htame.absent (hcurrent ▸ hprim) _ hm _ (List.mem_singleton.mpr rfl)
    · have hparams : Scopes.Declared Γ.hierarchy ⟨Γ.paramScope m.params, s.scopes.toList⟩ := by
        refine List.forall_mem_cons.mpr ⟨fun n T hn => ?_, hstart hin⟩
        obtain ⟨f, hf, rfl⟩ := paramScope_cases hn
        exact formalTy_declares hΓ (htame.params m (List.mem_filterMap.mpr ⟨_, hm, rfl⟩) f hf)
      exact hparams.push
  | @init c b i s hc _ hb hi hin =>
    have htame := hp c hc
    have hcurrent : s.current = c.name.symbol := hin.current
    refine ⟨hcurrent ▸ htame.contains, fun hprim => ?_, hstart hin⟩
    exact htame.absent (hcurrent ▸ hprim) _ hb i (by simpa [Feature.code] using hi)

theorem Entered.sound (hΓ : Γ.Regular) {p : Program} (hp : ∀ c ∈ p.classes, Γ.Tame c)
    {x : CheckState × Expr} (hx : Γ.Entered p x) : Γ.Sound x := by
  obtain ⟨start, hbegin, hsteps⟩ := hx
  exact sound_of_enters hΓ hsteps (hbegin.sound hΓ hp)

end Setting

/-! ## The basic classes -/

namespace BasicClass

variable {t : SymbolTables} {c : Class} (hc : c ∈ all t)

include hc

theorem isAbsent_of_mem_all : ∀ f ∈ c.features, ∀ e ∈ f.code, e.isAbsent = true := by
  simp only [all, List.mem_cons, List.not_mem_nil, or_false] at hc
  rcases hc with rfl | rfl | rfl | rfl | rfl <;>
    simp [make, method, slot, Feature.code, Expr.isAbsent]

theorem params_of_mem_all :
    ∀ m ∈ c.methods, ∀ f ∈ m.params, f.typeName.symbol ≠ t.known .primSlot := by
  simp only [all, List.mem_cons, List.not_mem_nil, or_false] at hc
  rcases hc with rfl | rfl | rfl | rfl | rfl <;>
    simp [make, method, slot, Class.methods, Feature.method?, formal, name]

end BasicClass

namespace CompilationUnit

variable {u : CompilationUnit}

/-- No class of the unit gives an attribute or a parameter the type of slots. -/
structure UsesNoSlots (u : CompilationUnit) : Prop where
  attrs : ∀ c ∈ u.program.classes, ∀ b ∈ c.attributes, b.typeName.symbol ≠ u.tables.known .primSlot
  params : ∀ c ∈ u.program.classes, ∀ m ∈ c.methods, ∀ f ∈ m.params,
    f.typeName.symbol ≠ u.tables.known .primSlot

/-- The self type, or a class of the unit or a basic one that is not called like the self type. -/
def DeclaresTy (u : CompilationUnit) : Ty → Prop :=
  Ty.In fun c => c ∈ u.installBasicClasses.program.classes.map (·.name.symbol) ∧
    c ≠ u.tables.known .selfType

section WellFormed

variable (hw : WellFormedHierarchy u.installBasicClasses.tables u.installBasicClasses.program.classes)

include hw

theorem declaresTy_of_declares {T : Ty} (hT : u.setting.hierarchy.Declares T) : u.DeclaresTy T := by
  cases T with
  | selfType => trivial
  | named c =>
    have hc := hw.contains_iff.mp hT
    refine ⟨hc, ?_⟩
    obtain ⟨d, hd, rfl⟩ := List.mem_map.mp hc
    rw [← known_addClassLiterals u.tables]
    exact hw.notSelfType d hd

/-- A class with the name of a built-in one is the basic class. -/
theorem mem_basic_of_builtin {c : Class} (hc : c ∈ u.installBasicClasses.program.classes)
    {b : BuiltinClass} (hb : c.name.symbol = b.symbol u.tables) : c ∈ BasicClass.all u.tables := by
  have hmem : b.symbol u.tables ∈ (BasicClass.all u.tables).map (·.name.symbol) := by
    cases b <;> simp [BasicClass.all, BasicClass.make, BasicClass.name, BuiltinClass.wellKnown,
      BuiltinClass.symbol]
  obtain ⟨d, hd, hname⟩ := List.mem_map.mp hmem
  have hdc : d = c := List.inj_on_of_nodup_map hw.names (List.mem_append_left _ hd) hc
    (hname.trans hb.symm)
  exact hdc ▸ hd

theorem mem_basic_of_primitive {c : Class} (hc : c ∈ u.installBasicClasses.program.classes)
    (hprim : u.installBasicClasses.tables.IsPrimitive c.name.symbol) : c ∈ BasicClass.all u.tables := by
  obtain ⟨b, hb⟩ := BuiltinClass.exists_of_isPrimitive hprim
  refine mem_basic_of_builtin hw hc (b := b) (hb.symm.trans ?_)
  exact known_addClassLiterals u.tables b.wellKnown

/-- All classes can be checked with declared types only. -/
theorem tame_of_usesNoSlots (hslots : u.UsesNoSlots) :
    ∀ c ∈ u.installBasicClasses.program.classes, u.setting.Tame c := by
  intro c hc
  refine ⟨hw.contains_iff.mpr (List.mem_map_of_mem hc), fun hprim => ?_, ?_⟩
  · exact BasicClass.isAbsent_of_mem_all (mem_basic_of_primitive hw hc hprim)
  · have hslot : u.setting.tables.known .primSlot = u.tables.known .primSlot :=
      known_addClassLiterals u.tables .primSlot
    rw [hslot]
    rcases List.mem_append.mp hc with hc | hc
    · exact BasicClass.params_of_mem_all hc
    · exact hslots.params c hc

/-- The ancestors of a basic class are basic classes. -/
theorem mem_basic_of_reaches {c d : Class} (hc : c ∈ BasicClass.all u.tables)
    (hd : d ∈ u.installBasicClasses.program.classes)
    (hcd : u.setting.hierarchy.graph.Reaches c.name.symbol d.name.symbol) :
    d ∈ BasicClass.all u.tables := by
  have hobject : ∀ s, u.setting.hierarchy.graph.Edge c.name.symbol s → s = u.tables.known .object := by
    intro s hs
    rw [← BasicClass.all_addClassLiterals] at hc
    rw [setting, classes_installBasicClasses] at hs
    exact (BasicClass.eq_object_of_edge hc hs).trans (known_addClassLiterals u.tables .object)
  rcases Relation.ReflTransGen.cases_head hcd with heq | ⟨s, hs, hreach⟩
  · have hcd : c = d := List.inj_on_of_nodup_map hw.names (List.mem_append_left _ hc) hd heq
    exact hcd ▸ hc
  · -- above the first step is the root, and nothing is above that
    have hroot : s = u.setting.hierarchy.root :=
      (hobject s hs).trans (known_addClassLiterals u.tables .object).symm
    have htop : d.name.symbol = s := by
      rcases Relation.ReflTransGen.cases_head hreach with heq | ⟨r, hr, _⟩
      · exact heq.symm
      · have hnone := hw.rooted_hierarchy.root_top
        rw [show s = (hierarchyOf u.installBasicClasses.tables
          u.installBasicClasses.program.classes).root from hroot] at hr
        exact absurd (hr.symm.trans hnone) (by simp)
    exact mem_basic_of_builtin hw hd (b := .object) (htop.trans (hobject s hs))

/-- The attributes of a primitive class are its slots. -/
theorem slot_of_primitive {c n : Symbol} {a : AttrSig}
    (hprim : u.installBasicClasses.tables.IsPrimitive c)
    (ha : u.setting.signatures.attr? c n = some a) :
    n = u.tables.known .val ∨ n = u.tables.known .strField := by
  simp only [setting, settingOf] at ha
  obtain ⟨hmem, d, hd, hreach, b, hb, _⟩ := Signatures.exists_class_of_attr? hw ha
  obtain ⟨c, hc, rfl⟩ := List.mem_map.mp hmem
  have hbasic := mem_basic_of_reaches hw (mem_basic_of_primitive hw hc hprim) hd hreach
  have hname : b.name.symbol = n := by simpa using List.find?_some hb
  exact hname ▸ BasicClass.attributes_of_mem_all hbasic b (List.mem_of_find?_eq_some hb)

end WellFormed

/-- The setting of a unit without slots of its own is regular. -/
theorem UsesNoSlots.regular
    (hw : WellFormedHierarchy u.installBasicClasses.tables u.installBasicClasses.program.classes)
    (hslots : u.UsesNoSlots) : u.setting.Regular :=
  regular_setting hw fun c hc _ => hslots.attrs c hc

end CompilationUnit

/-- In a symbol-valid unit with a valid hierarchy that gives no attribute and no parameter the type of slots,
whatever else is wrong with it, the types are checked, and the self type and declared classes are the only
types that the check writes, binds and collects, but for the slots of primitive classes. Parameters, in the
signatures and in the scopes, and expressions that make a class never have the self type. -/
theorem recovery_keeps_declared_types (u : CompilationUnit) (hu : u.SymbolValid)
    (hvalid : u.inheritance.isValid = true) (hslots : u.UsesNoSlots) (s : Sink) :
    ∃ a u' s' sigs, u.analyze .typing s = .ok (a, u', s') ∧ a.signatures = some sigs ∧
      (∀ d, u'.program.Holds d → ∃ T, d.ty = some T ∧ u.DeclaresTy T ∧
        (d.isClassTyped = true → T ≠ .selfType) ∧
        ∃ st e st', u.setting.Entered u.installBasicClasses.program (st, e) ∧
          StateT.run (u.setting.expr e) st = .ok (d, st')) ∧
      (∀ st e, u.setting.Entered u.installBasicClasses.program (st, e) →
        ∀ scope ∈ st.scopes.toList, ∀ n T, scope.get? n = some T → u.DeclaresTy T) ∧
      (∀ (params : List Formal) (st st' : CheckState),
        StateT.run (params.forM u.setting.formal) { st with scopes := st.scopes.push } = .ok ((), st') →
          ∀ n T, st'.scopes.local? n = some T → T ≠ .selfType) ∧
      (∀ c n sig, sigs.method? c n = some sig →
        (∀ T ∈ sig.params, u.DeclaresTy T ∧ T ≠ .selfType) ∧ u.DeclaresTy sig.ret) ∧
      ∀ c n a, sigs.attr? c n = some a → u.DeclaresTy a.ty ∨
        u.installBasicClasses.tables.IsPrimitive c ∧
          (n = u.tables.known .val ∨ n = u.tables.known .strField) := by
  have hchecked : u.typesChecked .typing = true := by simp [CompilationUnit.typesChecked, hvalid]
  have hw := CompilationUnit.wellFormed_of_typesChecked hchecked
  have hΓ := hslots.regular hw
  have hsound := fun x => Setting.Entered.sound (x := x) hΓ (CompilationUnit.tame_of_usesNoSlots hw hslots)
  have hdeclared := fun T => CompilationUnit.declaresTy_of_declares (T := T) hw
  refine ⟨_, _, _, u.setting.signatures, hu.analyze_eq .typing s,
    CompilationUnit.mem_signatures_analysis.mpr ⟨hchecked, rfl⟩, fun d hd => ?_, fun st e hst => ?_,
    fun params st st' hrun n T hn => ?_, fun c n sig hsig => ?_, fun c n a ha => ?_⟩
  · -- each expression has been written in a state that the check comes to
    rw [CompilationUnit.analyzed, if_pos hchecked] at hd
    obtain ⟨st, e, st', hst, hrun⟩ :=
      Setting.exists_entered (Γ := u.setting) (fun c hc => hw.contains_signatures hc) hd
    obtain rfl := Setting.eq_annotate_of_run hrun
    refine ⟨_, Setting.annotate_ty .., hdeclared _ ((hsound _ hst).infer_declares hΓ), fun hclass => ?_,
      st, e, st', hst, hrun⟩
    rw [Setting.isClassTyped_annotate] at hclass
    exact Setting.infer_ne_selfType hclass
  · intro scope hscope n T hn
    exact hdeclared T ((hsound _ hst).scopes scope hscope n T hn)
  · rw [Setting.run_formals] at hrun
    cases hrun
    obtain ⟨f, _, rfl⟩ := Setting.paramScope_cases (Γ := u.setting) hn
    exact Setting.formalTy_ne_selfType f
  · have hsig := hΓ.method c n sig hsig
    refine ⟨fun T hT => ?_, hdeclared _ hsig.ret⟩
    obtain ⟨d, rfl, hd⟩ := hsig.params T hT
    exact ⟨hdeclared (.named d) hd, by simp⟩
  · by_cases hprim : u.installBasicClasses.tables.IsPrimitive c
    · exact .inr ⟨hprim, CompilationUnit.slot_of_primitive hw hprim ha⟩
    · exact .inl (hdeclared _ (hΓ.attr c n a hprim ha))

theorem recovery_keeps_declared_types_mistaken :
    mistakenUnit.SymbolValid ∧ mistakenUnit.inheritance.isValid = true ∧ mistakenUnit.UsesNoSlots ∧
      ∃ a u s, mistakenUnit.analyze .typing {} = .ok (a, u, s) ∧ a.success = false ∧
        ∀ d, u.program.Holds d → ∃ T, d.ty = some T ∧ mistakenUnit.DeclaresTy T := by
  have hvalid : mistakenUnit.inheritance.isValid = true := by decide +kernel
  have hslots : mistakenUnit.UsesNoSlots := ⟨by decide +kernel, by decide +kernel⟩
  obtain ⟨a, u, s, _, hu, _, htypes, _⟩ :=
    recovery_keeps_declared_types mistakenUnit mistakenUnit_symbolValid hvalid hslots {}
  refine ⟨mistakenUnit_symbolValid, hvalid, hslots, a, u, s, hu, ?_, fun d hd => ?_⟩
  · rw [(CompilationUnit.eq_of_analyze hu).1]
    decide +kernel
  · obtain ⟨T, hT, hdeclared, _⟩ := htypes d hd
    exact ⟨T, hT, hdeclared⟩

end CoolTypes
