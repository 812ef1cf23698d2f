import Mathlib.Logic.Equiv.Basic
import CoolTypes.Proofs.Renaming.Declarations
import CoolTypes.Proofs.Renaming.Texts
import CoolTypes.Proofs.Typing.Units

/-!
# The analysis of renamed units

The analysis depends on names through comparisons only. Units that differ in how their symbols are numbered,
or in their identifiers by an injective renaming, have corresponding outcomes: graphs, signatures, annotated
programs and diagnostics (`analyze_renamed`).
-/

namespace CoolTypes

/-! ## More literals -/

/-- Every pair of one relation is one of the other. -/
structure SymbolRel.Le (R R' : SymbolRel) : Prop where
  id : ∀ s s', R.id s s' → R'.id s s'
  string : ∀ s s', R.string s s' → R'.string s s'
  int : ∀ s s', R.int s s' → R'.int s s'

section

variable {R R' : SymbolRel} (hle : R.Le R')

include hle

theorem Ty.Related.mono {T T' : Ty} (h : T.Related R T') : T.Related R' T' := by
  cases h with
  | named h => exact .named (hle.id _ _ h)
  | selfType => exact .selfType

theorem Name.Related.mono {n n' : Name} (h : n.Related R n') : n.Related R' n' :=
  ⟨hle.id _ _ h.symbol, h.span⟩

theorem Expr.Related.mono {e e' : Expr} (h : e.Related R e') : e.Related R' e' := by
  have hann : ∀ {t t' : Option Ty}, Option.Rel (Ty.Related R) t t' →
      Option.Rel (Ty.Related R') t t' := by
    rintro _ _ (h | _)
    · exact .some (h.mono hle)
    · exact .none
  induction e using Expr.induction generalizing e' with
  | assign n e s t ih =>
    cases h with | assign hn he ht => exact .assign (hn.mono hle) (ih he) (hann ht)
  | call r m args s t ihr ihargs =>
    cases h with
    | call hr hm hargs ht =>
      refine .call ?_ (hm.mono hle) (forall₂_of_left hargs fun e he _ h => ihargs e he h) (hann ht)
      cases hr with
      | implicit => exact .implicit
      | dynamic ho => exact .dynamic (ihr _ rfl ho)
      | static ho hn => exact .static (ihr _ rfl ho) (hn.mono hle)
  | cond a b c s t iha ihb ihc =>
    cases h with | cond ha hb hc ht => exact .cond (iha ha) (ihb hb) (ihc hc) (hann ht)
  | loop a b s t iha ihb =>
    cases h with | loop ha hb ht => exact .loop (iha ha) (ihb hb) (hann ht)
  | block es s t ih =>
    cases h with
    | block hes ht => exact .block (forall₂_of_left hes fun e he _ h => ih e he h) (hann ht)
  | letIn b e s t ihi ih =>
    cases h with
    | letIn hb he ht =>
      obtain ⟨hn, htn, hi⟩ := hb
      refine .letIn (.mk (hn.mono hle) (htn.mono hle) ?_) (ih he) (hann ht)
      cases hi with
      | none => exact .none
      | some hi => exact .some (ihi _ rfl hi)
  | caseOf e arms s t ih iharms =>
    cases h with
    | caseOf he harms ht =>
      refine .caseOf (ih he) (forall₂_of_left harms fun arm harm _ h => ?_) (hann ht)
      obtain ⟨hn, htn, he⟩ := h
      exact .mk (hn.mono hle) (htn.mono hle) (iharms _ harm he)
  | new n s t => cases h with | new hn ht => exact .new (hn.mono hle) (hann ht)
  | binary op a b s t iha ihb =>
    cases h with | binary ha hb ht => exact .binary (iha ha) (ihb hb) (hann ht)
  | unary op a s t ih => cases h with | unary ha ht => exact .unary (ih ha) (hann ht)
  | ident n t => cases h with | ident hn ht => exact .ident (hn.mono hle) (hann ht)
  | int v s t => cases h with | int hv ht => exact .int (hle.int _ _ hv) (hann ht)
  | string v s t => cases h with | string hv ht => exact .string (hle.string _ _ hv) (hann ht)
  | bool v s t => cases h with | bool ht => exact .bool (hann ht)
  | absent s t => cases h with | absent ht => exact .absent (hann ht)

theorem Feature.Related.mono {f f' : Feature} (h : f.Related R f') : f.Related R' f' := by
  cases h with
  | method hm =>
    refine .method ⟨hm.name.mono hle, hm.params.imp fun _ _ hf => ?_, hm.returnType.mono hle,
      hm.body.mono hle, hm.span⟩
    exact ⟨hf.name.mono hle, hf.typeName.mono hle, hf.span⟩
  | attr hb =>
    obtain ⟨hn, htn, hi⟩ := hb
    refine .attr (.mk (hn.mono hle) (htn.mono hle) ?_)
    cases hi with
    | none => exact .none
    | some hi => exact .some (hi.mono hle)

theorem Class.Related.mono {c c' : Class} (h : c.Related R c') : c.Related R' c' :=
  ⟨h.name.mono hle, h.parent.mono hle, hle.id _ _ h.file, h.features.imp fun _ _ hf => hf.mono hle,
    h.span⟩

end

/-- A text keeps its symbol when string literals are added. -/
theorem SymbolTables.get?_addClassLiterals {t : SymbolTables} {s : Symbol} {text : String}
    (h : t.strings.get? s = some text) : t.addClassLiterals.strings.get? s = some text := by
  have hprefix : t.strings.entries <+: t.addClassLiterals.strings.entries :=
    List.foldlRecOn (motive := fun u : SymbolTables => t.strings.entries <+: u.strings.entries)
      BuiltinClass.literalOrder _ (List.prefix_refl _)
      fun u hu b _ => hu.trans (u.strings.entries_prefix_insert b.name)
  exact Interner.get?_of_prefix hprefix h

theorem SymbolTables.ints_addClassLiterals (t : SymbolTables) : t.addClassLiterals.ints = t.ints :=
  List.foldlRecOn (motive := fun u : SymbolTables => u.ints = t.ints) BuiltinClass.literalOrder _ rfl
    fun _ hu _ _ => hu

theorem renaming_le_addClassLiterals (r : String → String) (t t' : SymbolTables) :
    (t.renaming r t').Le (t.addClassLiterals.renaming r t'.addClassLiterals) := by
  refine ⟨fun s s' h => ?_, fun s s' h => ?_, fun s s' h => ?_⟩
  -- only the string literals grow
  · rw [SymbolTables.renaming, CompilationUnit.ids_addClassLiterals,
      CompilationUnit.ids_addClassLiterals]
    exact h
  · obtain ⟨text, hs, hs'⟩ := h
    exact ⟨text, SymbolTables.get?_addClassLiterals hs, SymbolTables.get?_addClassLiterals hs'⟩
  · rw [SymbolTables.renaming, SymbolTables.ints_addClassLiterals,
      SymbolTables.ints_addClassLiterals]
    exact h

/-! ## The basic classes -/

namespace BasicClass

variable {R : SymbolRel} {t t' : SymbolTables} (hR : R.Faithful t t')

include hR

theorem name_related (w : WellKnown) : (name t w).Related R (name t' w) := ⟨hR.known w, rfl⟩

theorem method_related (n : WellKnown) (params : List (WellKnown × WellKnown)) (ret : WellKnown) :
    (method t n params ret).Related R (method t' n params ret) := by
  have hparams : List.Forall₂ (Formal.Related R) (params.map fun p => formal t p.1 p.2)
      (params.map fun p => formal t' p.1 p.2) := by
    rw [List.forall₂_map_left_iff, List.forall₂_map_right_iff]
    exact List.forall₂_same.mpr fun p _ => ⟨name_related hR p.1, name_related hR p.2, rfl⟩
  exact .method ⟨name_related hR n, hparams, name_related hR ret, .absent .none, rfl⟩

theorem slot_related (n : WellKnown) : (slot t n).Related R (slot t' n) :=
  .attr (.mk (name_related hR n) (name_related hR .primSlot) .none)

theorem make_related (n parent : WellKnown) {features features' : List Feature}
    (h : List.Forall₂ (Feature.Related R) features features') :
    (make t n parent features).Related R (make t' n parent features') :=
  ⟨name_related hR n, name_related hR parent, hR.known .basicFile, h, rfl⟩

theorem all_related : List.Forall₂ (Class.Related R) (all t) (all t') := by
  refine .cons (make_related hR _ _ ?_) (.cons (make_related hR _ _ ?_)
    (.cons (make_related hR _ _ ?_) (.cons (make_related hR _ _ ?_)
      (.cons (make_related hR _ _ ?_) .nil))))
  all_goals
    simp only [List.forall₂_cons, method_related hR, slot_related hR, List.Forall₂.nil, and_self]

end BasicClass

/-! ## Units -/

/-- Read over its own tables, the program of the second unit is that of the first with its identifiers under
a map of texts. Each symbol of the programs has a text. -/
def CompilationUnit.Renamed (r : String → String) (u v : CompilationUnit) : Prop :=
  u.program.Related (u.tables.renaming r v.tables) v.program

/-- Two outcomes with the same success, and with corresponding graphs and signatures. -/
structure Analysis.Related (R : SymbolRel) (a b : Analysis) : Prop where
  success : a.success = b.success
  graph : a.graph.Related R R.id b.graph
  signatures : Option.Rel (Signatures.Related R) a.signatures b.signatures

namespace CompilationUnit.Renamed

variable {r : String → String} (hr : Function.Injective r)
  (hknown : ∀ w : WellKnown, r w.text = w.text) {u v : CompilationUnit} (h : u.Renamed r v)

include hr hknown h

theorem installBasicClasses : u.installBasicClasses.Renamed r v.installBasicClasses := by
  have hfaithful := renaming_faithful hr hknown u.tables.addClassLiterals v.tables.addClassLiterals
  -- the classes are built over the tables as they were, with the names that these know
  refine ⟨List.rel_append (BasicClass.all_related ⟨hfaithful.biUnique, fun w => ?_⟩) ?_, h.span⟩
  · rw [← known_addClassLiterals u.tables, ← known_addClassLiterals v.tables]
    exact hfaithful.known w
  · exact h.classes.imp fun _ _ hc => hc.mono (renaming_le_addClassLiterals r u.tables v.tables)

theorem checkInheritance : (checkInheritance u.tables u.program.classes).Related
    (u.tables.renaming r v.tables) (CoolTypes.checkInheritance v.tables v.program.classes) :=
  checkInheritance_related (renaming_faithful hr hknown u.tables v.tables) h.classes

theorem setting : (settingOf u.tables u.program.classes).Related (u.tables.renaming r v.tables)
    (settingOf v.tables v.program.classes) := by
  have hR := renaming_faithful hr hknown u.tables v.tables
  have hh : (hierarchyOf u.tables u.program.classes).Related (u.tables.renaming r v.tables)
      (hierarchyOf v.tables v.program.classes) :=
    ⟨(h.checkInheritance hr hknown).graph, hR.known .object⟩
  exact ⟨hR, hh, (Signatures.collect_related hR hh h.classes).result⟩

variable {s₀ s₀' s s' : Sink} (hs : Sink.Told r s₀ s₀' s s')

include hs

theorem validate : BothGive
    (fun x y => x.1 = CoolTypes.checkInheritance u.tables u.program.classes ∧
      y.1 = CoolTypes.checkInheritance v.tables v.program.classes ∧ Sink.Told r s₀ s₀' x.2 y.2)
    (u.validate s) (v.validate s') :=
  (inheritance_renamed hknown (h.checkInheritance hr hknown)).bind fun _ _ hes =>
    .pure ⟨rfl, rfl, hs.reportTypeErrors hes⟩

theorem checkTypes : BothGive
    (fun x y => x.1.Related (u.tables.renaming r v.tables) y.1 ∧ x.2.1.tables = u.tables ∧
      y.2.1.tables = v.tables ∧ x.2.1.Renamed r y.2.1 ∧ Sink.Told r s₀ s₀' x.2.2 y.2.2)
    (u.checkTypes (CoolTypes.checkInheritance u.tables u.program.classes).graph s)
    (v.checkTypes (CoolTypes.checkInheritance v.tables v.program.classes).graph s') := by
  have hΓ := h.setting hr hknown
  have henv : Env.Related (u.tables.renaming r v.tables) (fun _ => none) fun _ => none :=
    fun _ _ _ => .none
  have hcollect := Signatures.collect_related hΓ.faithful hΓ.hierarchy h.classes
  rw [checkTypes_eq, checkTypes_eq]
  refine (hs.reportOver hknown hcollect.reports).bind fun t t' ht => ?_
  have hrun : BothGive (fun x y : Program × List Report =>
      x.1.Related (u.tables.renaming r v.tables) y.1 ∧
        ReportsRelated (u.tables.renaming r v.tables) x.2 y.2) _ _ :=
    ⟨_, _, Setting.run_program (settingOf u.tables u.program.classes) u.program,
      Setting.run_program (settingOf v.tables v.program.classes) v.program,
      hΓ.annotateProgram henv h, hΓ.programReports henv h⟩
  refine hrun.bind fun x y hxy => ?_
  exact (ht.reportOver hknown hxy.2).bind fun _ _ ht =>
    .pure ⟨hΓ.signatures, rfl, rfl, hxy.1, ht⟩

end CompilationUnit.Renamed

/-- Two units that are the same up to the numbering of their symbols and an injective renaming of
identifiers, which leaves the well-known names, are analyzed with corresponding outcomes. Both analyses come
to an end, up to either stage, with the same success; their graphs, signatures and programs correspond, table
by table and in the same order; and both sinks are told as many errors, of the same kinds at the same places,
with the names of the second renamed. -/
theorem analyze_renamed {r : String → String} (hr : Function.Injective r)
    (hknown : ∀ w : WellKnown, r w.text = w.text) {u v : CompilationUnit} (h : u.Renamed r v)
    (stage : Stage) (s s' : Sink) :
    ∃ a u' es b v' es',
      u.analyze stage s = .ok (a, u', s.reportTypeErrors es) ∧
      v.analyze stage s' = .ok (b, v', s'.reportTypeErrors es') ∧
      a.Related (u'.tables.renaming r v'.tables) b ∧ u'.Renamed r v' ∧
      List.Forall₂ (TypeError.Renamed r) es es' := by
  have hu := h.installBasicClasses hr hknown
  have hvalid := hu.checkInheritance hr hknown
  have hrun : BothGive (fun x y => x.1.Related (x.2.1.tables.renaming r y.2.1.tables) y.1 ∧
      x.2.1.Renamed r y.2.1 ∧ Sink.Told r s s' x.2.2 y.2.2) (u.analyze stage s)
      (v.analyze stage s') := by
    refine (hu.validate hr hknown (.refl s s')).bind fun (i, t) (i', t') ⟨hi, hi', ht⟩ => ?_
    dsimp only at hi hi' ht ⊢
    subst hi hi'
    rw [hvalid.isValid]
    -- the second part runs in both or in none
    refine rel_ite Iff.rfl ?_ (.pure ⟨⟨ht.count_beq, hvalid.graph, .none⟩, hu, ht⟩)
    refine (hu.checkTypes hr hknown ht).bind fun (sig, w, q) (sig', w', q') hchecked => ?_
    obtain ⟨hsig, hw, hw', hrenamed, hq⟩ := hchecked
    dsimp only at hw hw'
    refine .pure ⟨?_, hrenamed, hq⟩
    dsimp only
    rw [hw, hw']
    exact ⟨hq.count_beq, hvalid.graph, .some hsig⟩
  obtain ⟨⟨a, u', _⟩, ⟨b, v', _⟩, ha, hb, hab, huv, es, es', hes, rfl, rfl⟩ := hrun
  exact ⟨a, u', es, b, v', es', ha, hb, hab, huv, hes⟩

/-- The name with a text, for a table that has it. -/
def Name.ofText (t : SymbolTables) (text : String) : Name := ⟨(t.addId text).1, .synthetic⟩

theorem Name.ofText_related {r : String → String} {t t' : SymbolTables} {text text' : String}
    (htext : r text = text') (h : text ∈ t.ids.entries) (h' : text' ∈ t'.ids.entries) :
    (Name.ofText t text).Related (t.renaming r t') (Name.ofText t' text') := by
  subst htext
  have hsymbol : ∀ {u : SymbolTables} {x : String}, x ∈ u.ids.entries →
      u.ids.get? (Name.ofText u x).symbol = some x := fun hx =>
    Interner.find?_eq_some_iff.mp (if_pos hx)
  exact ⟨⟨text, hsymbol h, hsymbol h'⟩, rfl⟩

theorem Interner.mem_entries_foldl_insert (texts : List String) (t : Interner) (text : String) :
    text ∈ (texts.foldl .insert t).entries ↔ text ∈ t.entries ∨ text ∈ texts := by
  induction texts generalizing t with
  | nil => simp
  | cons x rest ih => rw [List.foldl_cons, ih, mem_entries_insert, List.mem_cons, or_assoc]

/-- Tables with identifiers that are interned in the order of a list. -/
def SymbolTables.interning (texts : List String) : SymbolTables :=
  ofParts (texts.foldl .insert .empty) .empty .empty

theorem SymbolTables.mem_interning {texts : List String} {text : String} (h : text ∈ texts) :
    text ∈ (interning texts).ids.entries :=
  (Interner.entries_prefix_insertAll _ _).subset
    ((Interner.mem_entries_foldl_insert texts .empty text).mpr (.inr h))

/-- A unit over such tables: a main class under a parent class, with an attribute of a class that is
missing. -/
def internedUnit (texts : List String) (parent : String) : CompilationUnit :=
  let t := SymbolTables.interning texts
  let value := Expr.new (.ofText t "Missing") .synthetic none
  let slot := Feature.attr ⟨.ofText t "x", .ofText t parent, some value, .synthetic⟩
  ⟨t, [⟨.ofText t "Main", .ofText t parent, t.known .main, [slot], .synthetic⟩,
    ⟨.ofText t parent, .ofText t "Object", t.known .main, [], .synthetic⟩], .synthetic⟩

/-- Another order of the identifiers and another name of the parent class make a renamed unit. -/
theorem internedUnit_renamed {r : String → String} (hr : Function.Injective r)
    (hknown : ∀ w : WellKnown, r w.text = w.text) {texts texts' : List String} {parent parent' : String}
    (hparent : r parent = parent') (hx : r "x" = "x") (hmissing : r "Missing" = "Missing")
    (h : ∀ text ∈ [parent, "x", "Missing"], text ∈ texts)
    (h' : ∀ text ∈ [parent', "x", "Missing"], text ∈ texts') :
    (internedUnit texts parent).Renamed r (internedUnit texts' parent') := by
  let t := SymbolTables.interning texts
  let t' := SymbolTables.interning texts'
  simp only [List.forall_mem_cons, List.not_mem_nil, false_implies, implies_true, and_true] at h h'
  obtain ⟨hp, hxs, hms⟩ := h
  obtain ⟨hp', hxs', hms'⟩ := h'
  have hnew : ∀ {a b : String}, r a = b → a ∈ texts → b ∈ texts' →
      (Name.ofText t a).Related (t.renaming r t') (Name.ofText t' b) := fun hab ha hb =>
    Name.ofText_related hab (SymbolTables.mem_interning ha) (SymbolTables.mem_interning hb)
  have hwell : ∀ w : WellKnown,
      (Name.ofText t w.text).Related (t.renaming r t') (Name.ofText t' w.text) := fun w =>
    Name.ofText_related (hknown w) (t.complete w) (t'.complete w)
  have hfile := (renaming_faithful hr hknown t t').known .main
  have hvalue := Expr.Related.new (s := .synthetic) (hnew hmissing hms hms') .none
  have hslot := Binding.Related.mk (s := .synthetic) (hnew hx hxs hxs') (hnew hparent hp hp')
    (.some hvalue)
  exact ⟨.cons ⟨hwell .main, hnew hparent hp hp', hfile, .cons (.attr hslot) .nil, rfl⟩
    (.cons ⟨hnew hparent hp hp', hwell .object, hfile, .nil, rfl⟩ .nil), rfl⟩

/-- The map that exchanges two texts. -/
def swapFooBar : String → String := Equiv.swap "Foo" "Bar"

/-- A unit with a class of the first text. -/
def fooUnit : CompilationUnit := internedUnit ["Foo", "x", "Missing", "Main"] "Foo"

/-- The same unit with a class of the second text and another order of the identifiers. -/
def barUnit : CompilationUnit := internedUnit ["spare", "Missing", "Main", "Bar", "x"] "Bar"

theorem analyze_renamed_fooBar :
    Function.Injective swapFooBar ∧ (∀ w : WellKnown, swapFooBar w.text = w.text) ∧
      fooUnit.Renamed swapFooBar barUnit ∧ fooUnit.tables.known .main ≠ barUnit.tables.known .main ∧
      ∃ a u' es b v' es',
        fooUnit.analyze .typing {} = .ok (a, u', Sink.reportTypeErrors {} es) ∧
        barUnit.analyze .typing {} = .ok (b, v', Sink.reportTypeErrors {} es') ∧
        a.Related (u'.tables.renaming swapFooBar v'.tables) b ∧ u'.Renamed swapFooBar v' ∧
        List.Forall₂ (TypeError.Renamed swapFooBar) es es' := by
  have hinjective : Function.Injective swapFooBar := (Equiv.swap "Foo" "Bar").injective
  have hother : ∀ text : String, text ≠ "Foo" → text ≠ "Bar" → swapFooBar text = text := fun _ =>
    Equiv.swap_apply_of_ne_of_ne
  have hknown : ∀ w : WellKnown, swapFooBar w.text = w.text := by
    intro w
    exact hother w.text (by cases w <;> decide) (by cases w <;> decide)
  have hrenamed : fooUnit.Renamed swapFooBar barUnit :=
    internedUnit_renamed hinjective hknown (Equiv.swap_apply_left "Foo" "Bar")
      (hother "x" (by decide) (by decide)) (hother "Missing" (by decide) (by decide))
      (by simp) (by simp)
  refine ⟨hinjective, hknown, hrenamed, ?_, ?_⟩
  · decide +kernel
  · exact analyze_renamed hinjective hknown hrenamed .typing {} {}

end CoolTypes
