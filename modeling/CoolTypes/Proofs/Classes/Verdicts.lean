import Mathlib.Data.List.FinRange
import CoolTypes.Proofs.Classes.Search
import CoolTypes.Proofs.Symbols.Membership

/-!
# Verdicts on classes

The check of the classes one by one knows of each class what stands before it and which names are
declared at all. `checkClass_reports_eq_nil_iff` says when it finds nothing wrong, and
`graph_entries` that the recorded edges are those of the classes with `GetsEdge`, in order.
-/

namespace CoolTypes

/-- The symbol names a class from which nothing may inherit. -/
def SymbolTables.IsPrimitive (t : SymbolTables) (s : Symbol) : Prop :=
  s = t.known .int ∨ s = t.known .bool ∨ s = t.known .string

instance (t : SymbolTables) (s : Symbol) : Decidable (t.IsPrimitive s) :=
  inferInstanceAs (Decidable (_ ∨ _))

namespace BuiltinClass

theorem ofSymbol?_symbol (t : SymbolTables) (b : BuiltinClass) :
    ofSymbol? t (b.symbol t) = some b := by
  cases b <;> simp [ofSymbol?, all, symbol, wellKnown]

theorem symbol_of_ofSymbol? {t : SymbolTables} {s : Symbol} {b : BuiltinClass}
    (h : ofSymbol? t s = some b) : b.symbol t = s := by
  simpa using List.find?_some h

/-- A built-in class can as well be found by the name that a symbol of the table stands for. -/
theorem ofSymbol?_eq_ofName? {t : SymbolTables} {s : Symbol} {text : String}
    (h : t.name s = .ok text) : ofSymbol? t s = ofName? text := by
  have hs : t.ids.get? s = some text := Interner.lookup_eq_ok_iff.mp h
  have hsame : ∀ b : BuiltinClass, (b.symbol t == s) = (b.name == text) := by
    intro b
    have hb : t.ids.get? (b.symbol t) = some b.name := SymbolTables.get?_known t b.wellKnown
    rw [Bool.eq_iff_iff, beq_iff_eq, beq_iff_eq]
    constructor
    · rintro rfl
      exact Option.some.inj (hb.symm.trans hs)
    · rintro rfl
      exact Interner.get?_injective hb hs
  simp only [ofSymbol?, ofName?, hsame]

theorem isPrimitive_symbol_iff (t : SymbolTables) (b : BuiltinClass) :
    t.IsPrimitive (b.symbol t) ↔ b.isPrimitive = true := by
  cases b <;> simp [SymbolTables.IsPrimitive, symbol, wellKnown, isPrimitive]

theorem exists_of_isPrimitive {t : SymbolTables} {s : Symbol} (h : t.IsPrimitive s) :
    ∃ b : BuiltinClass, b.symbol t = s := by
  rcases h with h | h | h
  · exact ⟨.int, h.symm⟩
  · exact ⟨.bool, h.symm⟩
  · exact ⟨.string, h.symm⟩

end BuiltinClass

/-! ## Finding by key -/

/-- Where no two members have one key, each is found under its own. -/
theorem find?_of_nodup_map {α : Type} {key : α → Symbol} {l : List α} (hnodup : (l.map key).Nodup)
    {a : α} (ha : a ∈ l) : l.find? (key · == key a) = some a := by
  cases hfind : l.find? (key · == key a) with
  | none =>
    have hnone := List.find?_eq_none.mp hfind a ha
    simp at hnone
  | some b =>
    have hb := List.mem_of_find?_eq_some hfind
    have hkey : key b = key a := by simpa using List.find?_some hfind
    rw [List.inj_on_of_nodup_map hnodup hb ha hkey]

/-- Where no two members have one key, the place of a member in the list does not matter. -/
theorem find?_eq_some_iff_of_nodup_map {α : Type} {key : α → Symbol} {l : List α}
    (hnodup : (l.map key).Nodup) {n : Symbol} {a : α} :
    l.find? (key · == n) = some a ↔ a ∈ l ∧ key a = n := by
  constructor
  · intro h
    exact ⟨List.mem_of_find?_eq_some h, by simpa using List.find?_some h⟩
  · rintro ⟨ha, rfl⟩
    exact find?_of_nodup_map hnodup ha

/-! ## The rules for a class -/

theorem checkParent_eq_nil_iff {t : SymbolTables} {c : Class} :
    checkParent t c = [] ↔ ¬ t.IsPrimitive c.parent.symbol := by
  unfold checkParent
  cases hb : BuiltinClass.ofSymbol? t c.parent.symbol with
  | none =>
    refine ⟨fun _ hp => ?_, fun _ => rfl⟩
    obtain ⟨b, hs⟩ := BuiltinClass.exists_of_isPrimitive hp
    rw [← hs, BuiltinClass.ofSymbol?_symbol] at hb
    exact absurd hb (by simp)
  | some b =>
    rw [← BuiltinClass.symbol_of_ofSymbol? hb, BuiltinClass.isPrimitive_symbol_iff]
    simp

theorem checkFresh_eq_nil_iff {t : SymbolTables} {earlier : List Symbol} {c : Class} :
    checkFresh t earlier c = [] ↔ c.name.symbol ∉ earlier := by
  unfold checkFresh
  by_cases h : c.name.symbol ∈ earlier
  · rw [if_pos h]
    cases BuiltinClass.ofSymbol? t c.name.symbol <;> simp [h]
  · simp [h]

theorem checkClassName_eq_nil_iff {t : SymbolTables} {c : Class} :
    checkClassName t c = [] ↔ c.name.symbol ≠ t.known .selfType := by
  unfold checkClassName
  by_cases h : c.name.symbol = t.known .selfType <;> simp [h]

theorem checkDeclaredParent_eq_nil_iff {t : SymbolTables} {declared : List Symbol} {c : Class} :
    checkDeclaredParent t declared c = [] ↔
      (c.name.symbol ≠ t.known .object → c.parent.symbol ∈ declared) := by
  unfold checkDeclaredParent
  by_cases h : c.name.symbol = t.known .object <;>
    by_cases hp : c.parent.symbol ∈ declared <;> simp [h, hp]

/-- A class that breaks no rule, after classes named `earlier` and among classes named `declared`. -/
structure ClassOk (t : SymbolTables) (declared earlier : List Symbol) (c : Class) : Prop where
  openParent : ¬ t.IsPrimitive c.parent.symbol
  fresh : c.name.symbol ∉ earlier
  notSelfType : c.name.symbol ≠ t.known .selfType
  declaredParent : c.name.symbol ≠ t.known .object → c.parent.symbol ∈ declared

theorem checkClass_reports_eq_nil_iff {t : SymbolTables} {declared earlier : List Symbol}
    {c : Class} : (checkClass t declared earlier c).reports = [] ↔ ClassOk t declared earlier c := by
  simp only [checkClass, List.append_eq_nil_iff, checkParent_eq_nil_iff, checkFresh_eq_nil_iff,
    checkClassName_eq_nil_iff, checkDeclaredParent_eq_nil_iff]
  constructor
  · rintro ⟨⟨⟨hp, hf⟩, hs⟩, hd⟩
    exact ⟨hp, hf, hs, hd⟩
  · rintro ⟨hp, hf, hs, hd⟩
    exact ⟨⟨⟨hp, hf⟩, hs⟩, hd⟩

theorem checkClass_edge_eq_some_iff {t : SymbolTables} {declared earlier : List Symbol} {c : Class}
    {e : Symbol × Symbol} : (checkClass t declared earlier c).edge = some e ↔
      (ClassOk t declared earlier c ∧ c.name.symbol ≠ t.known .object) ∧
        (c.name.symbol, c.parent.symbol) = e := by
  rw [← checkClass_reports_eq_nil_iff]
  simp only [checkClass, Option.ite_none_right_eq_some, List.isEmpty_iff, Option.some.injEq]

/-- The check of a class asks only whether its name and the name of its parent are among some names. -/
theorem checkClass_congr {t : SymbolTables} {declared declared' earlier earlier' : List Symbol}
    {c : Class} (hdeclared : c.parent.symbol ∈ declared' ↔ c.parent.symbol ∈ declared)
    (hearlier : c.name.symbol ∈ earlier' ↔ c.name.symbol ∈ earlier) :
    checkClass t declared' earlier' c = checkClass t declared earlier c := by
  have hfresh : checkFresh t earlier' c = checkFresh t earlier c := if_congr hearlier rfl rfl
  have hparent : checkDeclaredParent t declared' c = checkDeclaredParent t declared c :=
    if_congr (and_congr Iff.rfl (not_congr hdeclared)) rfl rfl
  simp only [checkClass, hfresh, hparent]

theorem checkClasses_congr {t : SymbolTables} {declared declared' : List Symbol}
    (earlier : List Symbol) {classes : List Class}
    (h : ∀ c ∈ classes, c.parent.symbol ∈ declared' ↔ c.parent.symbol ∈ declared) :
    checkClasses t declared' earlier classes = checkClasses t declared earlier classes := by
  induction classes generalizing earlier with
  | nil => rfl
  | cons c rest ih =>
    rw [List.forall_mem_cons] at h
    rw [checkClasses, checkClasses, checkClass_congr h.1 Iff.rfl, ih _ h.2]

theorem checkClasses_append (t : SymbolTables) (declared earlier : List Symbol)
    (classes classes' : List Class) :
    checkClasses t declared earlier (classes ++ classes') =
      checkClasses t declared earlier classes ++
        checkClasses t declared ((classes.map (·.name.symbol)).reverse ++ earlier) classes' := by
  induction classes generalizing earlier with
  | nil => rfl
  | cons c rest ih =>
    rw [List.cons_append, checkClasses, checkClasses, ih, List.cons_append, List.map_cons,
      List.reverse_cons, List.append_assoc]
    rfl

/-! ## The recorded edges -/

/-- The check goes through the classes in order and knows the names of those that stand before. -/
theorem checkClasses_eq_map (t : SymbolTables) (declared earlier : List Symbol)
    (classes : List Class) :
    checkClasses t declared earlier classes =
      (List.finRange classes.length).map fun i : Fin classes.length =>
        checkClass t declared
          (((classes.take i).map (·.name.symbol)).reverse ++ earlier) classes[i] := by
  induction classes generalizing earlier with
  | nil => rfl
  | cons c rest ih =>
    have hrange : List.finRange (c :: rest).length = 0 :: (List.finRange rest.length).map Fin.succ :=
      List.finRange_succ
    rw [checkClasses, ih, hrange, List.map_cons, List.map_map]
    refine congrArg₂ List.cons (by simp) (List.map_congr_left fun i _ => ?_)
    simp

/-- The class at position `i` is the first of its name, called neither like the root nor like the self
type, and its parent is declared and not primitive. -/
structure GetsEdge (t : SymbolTables) (classes : List Class) (i : Fin classes.length) : Prop where
  first : ∀ j : Fin classes.length, j < i → classes[j].name.symbol ≠ classes[i].name.symbol
  notRoot : classes[i].name.symbol ≠ t.known .object
  notSelfType : classes[i].name.symbol ≠ t.known .selfType
  openParent : ¬ t.IsPrimitive classes[i].parent.symbol
  declaredParent : classes[i].parent.symbol ∈ classes.map (·.name.symbol)

instance (t : SymbolTables) (classes : List Class) : DecidablePred (GetsEdge t classes) := fun i =>
  decidable_of_iff
    ((∀ j : Fin classes.length, j < i → classes[j].name.symbol ≠ classes[i].name.symbol) ∧
      classes[i].name.symbol ≠ t.known .object ∧ classes[i].name.symbol ≠ t.known .selfType ∧
      ¬ t.IsPrimitive classes[i].parent.symbol ∧
      classes[i].parent.symbol ∈ classes.map (·.name.symbol))
    ⟨fun ⟨h1, h2, h3, h4, h5⟩ => ⟨h1, h2, h3, h4, h5⟩, fun ⟨h1, h2, h3, h4, h5⟩ =>
      ⟨h1, h2, h3, h4, h5⟩⟩

/-- A name stands before position `i` exactly if an earlier class has it. -/
theorem mem_names_take_iff {classes : List Class} {i : Fin classes.length} {s : Symbol} :
    s ∈ (classes.take i).map (·.name.symbol) ↔
      ∃ j : Fin classes.length, j < i ∧ classes[j].name.symbol = s := by
  rw [List.mem_map]
  constructor
  · rintro ⟨c, hc, rfl⟩
    obtain ⟨j, hj, rfl⟩ := List.mem_take_iff_getElem.mp hc
    exact ⟨⟨j, by omega⟩, by simp [Fin.lt_def]; omega, rfl⟩
  · rintro ⟨j, hj, rfl⟩
    exact ⟨classes[j], List.mem_take_iff_getElem.mpr ⟨j, by omega, rfl⟩, rfl⟩

theorem getsEdge_iff {t : SymbolTables} {classes : List Class} {i : Fin classes.length} :
    GetsEdge t classes i ↔
      ClassOk t (classes.map (·.name.symbol))
        (((classes.take i).map (·.name.symbol)).reverse ++ []) classes[i] ∧
        classes[i].name.symbol ≠ t.known .object := by
  have hfresh : classes[i].name.symbol ∉ ((classes.take i).map (·.name.symbol)).reverse ++ [] ↔
      ∀ j : Fin classes.length, j < i → classes[j].name.symbol ≠ classes[i].name.symbol := by
    rw [List.append_nil, List.mem_reverse, mem_names_take_iff]
    simp
  constructor
  · rintro ⟨hfirst, hroot, hself, hopen, hdecl⟩
    exact ⟨⟨hopen, hfresh.mpr hfirst, hself, fun _ => hdecl⟩, hroot⟩
  · rintro ⟨⟨hopen, hnew, hself, hdecl⟩, hroot⟩
    exact ⟨hfresh.mp hnew, hroot, hself, hopen, hdecl hroot⟩

/-- The edges that the classes deserve, in order of declaration. -/
def deservedEdges (t : SymbolTables) (classes : List Class) : List (Symbol × Symbol) :=
  ((List.finRange classes.length).filter (GetsEdge t classes ·)).map fun i =>
    (classes[i].name.symbol, classes[i].parent.symbol)

theorem filterMap_edge_checkClasses (t : SymbolTables) (classes : List Class) :
    (checkClasses t (classes.map (·.name.symbol)) [] classes).filterMap (·.edge) =
      deservedEdges t classes := by
  rw [checkClasses_eq_map, List.filterMap_map, deservedEdges, ← List.filterMap_eq_filter,
    List.map_filterMap]
  refine List.filterMap_congr fun i _ => ?_
  by_cases h : GetsEdge t classes i
  · simp only [Function.comp_apply, Option.guard, h, decide_true, if_true, Option.map_some]
    exact checkClass_edge_eq_some_iff.mpr ⟨getsEdge_iff.mp h, rfl⟩
  · simp only [Function.comp_apply, Option.guard, h, decide_false, Bool.false_eq_true, if_false,
      Option.map_none]
    refine Option.eq_none_iff_forall_ne_some.mpr fun e he => h ?_
    exact getsEdge_iff.mpr (checkClass_edge_eq_some_iff.mp he).1

/-- Of classes with one name only the first deserves an edge. -/
theorem nodup_deservedEdges (t : SymbolTables) (classes : List Class) :
    ((deservedEdges t classes).map Prod.fst).Nodup := by
  rw [deservedEdges, List.map_map]
  refine List.Nodup.map_on (fun i hi j hj hij => ?_) ((List.nodup_finRange _).filter _)
  have hi' : GetsEdge t classes i := by simpa using List.of_mem_filter hi
  have hj' : GetsEdge t classes j := by simpa using List.of_mem_filter hj
  rcases lt_trichotomy i j with hlt | heq | hlt
  · exact absurd hij (hj'.first i hlt)
  · exact heq
  · exact absurd hij.symm (hi'.first j hlt)

/-- The graph holds exactly the deserved edges. -/
theorem graph_entries (t : SymbolTables) (classes : List Class) :
    (checkInheritance t classes).graph.entries = deservedEdges t classes := by
  simp only [checkInheritance]
  rw [SymbolMap.entries_ofList, filterMap_edge_checkClasses]
  rw [filterMap_edge_checkClasses]
  exact nodup_deservedEdges t classes

/-- The edges of the graph are those of the verdicts. -/
theorem graph_entries_eq_verdicts (t : SymbolTables) (classes : List Class) :
    (checkInheritance t classes).graph.entries =
      (checkInheritance t classes).verdicts.filterMap (·.edge) :=
  (graph_entries t classes).trans (filterMap_edge_checkClasses t classes).symm

end CoolTypes
