import Mathlib.Data.List.Basic
import CoolTypes.Proofs.Syntax.Nodes

/-!
# Dangling symbols

A node has at most one symbol of its own (`Node.Mentions`), so a symbol in a program is given by its place.
The check of symbols lists the places from left to right and reports those whose symbol is beyond its table:
each of them once, and no other.
-/

namespace CoolTypes

/-- The symbol that a node has itself: the file of a class at the span of the class, the class in the static
type of an expression, a name, or the text of a literal. -/
inductive Node.Mentions : Node → Occurrence → Prop where
  | file (c : Class) : Mentions (.class c) ⟨.ids, c.file, c.span⟩
  | staticType {e : Expr} {C : Symbol} : e.ty = some (.named C) → Mentions (.expr e) ⟨.ids, C, e.span⟩
  | name (n : Name) : Mentions (.name n) ⟨.ids, n.symbol, n.span⟩
  | int (v : Symbol) (s : Span) (ty : Option Ty) : Mentions (.form (.int v s ty)) ⟨.ints, v, s⟩
  | string (v : Symbol) (s : Span) (ty : Option Ty) : Mentions (.form (.string v s ty)) ⟨.strings, v, s⟩

/-- A node of the program at this place has this symbol. -/
def Program.MentionsAt (p : Program) (place : List Nat) (o : Occurrence) : Prop :=
  ∃ d, (Node.program p).At place d ∧ d.Mentions o

/-- What is wrong with a symbol that its table does not have. -/
def Occurrence.dangling (t : SymbolTables) (o : Occurrence) : UnknownSymbol :=
  ⟨o.table, o.symbol.index, (t.table o.table).size, o.span⟩

/-! ## Symbols of nodes -/

theorem Node.mentions_iff {d : Node} {o : Occurrence} :
    d.Mentions o ↔ d.visit.occurrence? = some o := by
  constructor
  · rintro (_ | h | _ | _ | _)
    · rfl
    · rw [visit, h]
      rfl
    all_goals rfl
  · intro h
    cases d with
    | «class» c =>
      cases h
      exact .file c
    | expr e =>
      rw [visit] at h
      cases hty : e.ty with
      | none => simp [hty, Visit.occurrence?] at h
      | some T =>
        cases T with
        | selfType => simp [hty, Visit.occurrence?] at h
        | named C =>
          rw [hty] at h
          cases h
          exact .staticType hty
    | form e =>
      cases e with
      | int v s ty =>
        cases h
        exact .int v s ty
      | string v s ty =>
        cases h
        exact .string v s ty
      | _ => cases h
    | name n =>
      cases h
      exact .name n
    | _ => cases h

/-- The walk over a program lists the symbols of all places from left to right. -/
theorem Program.exists_mentions (p : Program) : ∃ l : List (List Nat × Occurrence),
    (l.Pairwise fun a b => a.1 < b.1) ∧ (∀ place o, (place, o) ∈ l ↔ p.MentionsAt place o) ∧
      l.map (·.2) = p.occurrences := by
  obtain ⟨nodes, hnodes⟩ := (Node.program p).exists_listing
  refine ⟨nodes.filterMap fun a => a.2.visit.occurrence?.map (a.1, ·), ?_, fun place o => ?_, ?_⟩
  · refine List.pairwise_filterMap.mpr (hnodes.sorted.imp fun {a b} hab x hx y hy => ?_)
    obtain ⟨_, -, rfl⟩ := Option.map_eq_some_iff.mp hx
    obtain ⟨_, -, rfl⟩ := Option.map_eq_some_iff.mp hy
    exact hab
  · rw [List.mem_filterMap]
    constructor
    · rintro ⟨⟨place', d⟩, hd, ho⟩
      obtain ⟨o', ho', heq⟩ := Option.map_eq_some_iff.mp ho
      cases heq
      exact ⟨d, (hnodes.mem_iff _ _).mp hd, Node.mentions_iff.mpr ho'⟩
    · rintro ⟨d, hat, hd⟩
      exact ⟨(place, d), (hnodes.mem_iff _ _).mpr hat,
        Option.map_eq_some_iff.mpr ⟨o, Node.mentions_iff.mp hd, rfl⟩⟩
  · have hvisits : nodes.map (fun a => a.2.visit) = p.visits := hnodes.visits
    rw [List.map_filterMap, occurrences, ← hvisits, List.filterMap_map]
    refine List.filterMap_congr fun a _ => ?_
    rw [Option.map_map]
    exact congrFun Option.map_id _

/-! ## The check of symbols -/

variable {t : SymbolTables}

theorem Occurrence.unknown?_eq {o : Occurrence} (h : ¬ t.Has o.table o.symbol) :
    o.unknown? t = some (o.dangling t) := by
  have hnot : (t.table o.table).contains o.symbol = false := decide_eq_false h
  rw [unknown?, hnot]
  rfl

/-- The dangling symbols of a unit are those of its occurrences that a table does not have. -/
theorem CompilationUnit.unknownSymbols_eq (u : CompilationUnit) : u.unknownSymbols =
    (u.program.occurrences.filter fun o => ¬ u.tables.Has o.table o.symbol).map
      (·.dangling u.tables) := by
  rw [unknownSymbols, ← List.filterMap_eq_map, List.filterMap_filter]
  refine List.filterMap_congr fun o _ => ?_
  by_cases h : u.tables.Has o.table o.symbol
  · simp [h, Occurrence.unknown?_eq_none_iff.mpr h]
  · simp [h, Occurrence.unknown?_eq h]

/-- The check of symbols adds one diagnostic for each place of the program whose symbol is beyond its table,
in the order of the places. It succeeds exactly if there is no such place, and it still does over tables
with further entries at the end. -/
theorem dangling_symbols_reported (u : CompilationUnit) (s : Sink) :
    ∃ dangling : List (List Nat × Occurrence),
      (dangling.Pairwise fun a b => a.1 < b.1) ∧
      (∀ place o, (place, o) ∈ dangling ↔
        u.program.MentionsAt place o ∧ ¬ u.tables.Has o.table o.symbol) ∧
      (u.checkSymbols s).2.emitted = s.emitted ++ dangling.map (fun a =>
        ⟨.error, ⟨(a.2.dangling u.tables).message, some a.2.span⟩,
          some (.placed (.unknownSymbol (a.2.dangling u.tables)))⟩) ∧
      ((u.checkSymbols s).1 = true ↔ dangling = []) ∧
      ((u.checkSymbols s).1 = true → ∀ t : SymbolTables,
        (∀ k, (u.tables.table k).entries <+: (t.table k).entries) →
          ∀ s', (CompilationUnit.mk t u.program).checkSymbols s' = (true, s')) := by
  obtain ⟨l, hsorted, hmem, hsymbols⟩ := u.program.exists_mentions
  let dangling := l.filter fun a => ¬ u.tables.Has a.2.table a.2.symbol
  have hunknown : u.unknownSymbols = dangling.map fun a => a.2.dangling u.tables := by
    rw [u.unknownSymbols_eq, ← hsymbols, List.filter_map, List.map_map]
    rfl
  refine ⟨dangling, hsorted.filter _, fun place o => ?_, ?_, ?_, fun hflag t htables s' => ?_⟩
  · simp [dangling, hmem]
  · rw [CompilationUnit.checkSymbols, Sink.emitted_reportAll, hunknown, List.map_map, List.map_map]
    rfl
  · rw [CompilationUnit.checkSymbols, List.isEmpty_iff, hunknown, List.map_eq_nil_iff]
  · have hvalid : u.SymbolValid := CompilationUnit.checkSymbols_eq_true_iff.mp hflag
    have hgrown : (CompilationUnit.mk t u.program).SymbolValid :=
      Program.SymbolValid.mono hvalid (SymbolTables.le_of_prefix htables)
    exact hgrown.checkSymbols_eq s'

/-- A class in an unknown file with an attribute of an unknown type. Its initial value is an unknown text,
which has the static type of an unknown class. -/
def danglingUnit : CompilationUnit where
  tables := .initial
  program :=
    let name := BasicClass.name .initial
    let init : Expr := .string ⟨3⟩ .synthetic (some (.named ⟨80⟩))
    ⟨[⟨name .main, name .object, ⟨90⟩, [.attr ⟨name .val, ⟨⟨70⟩, .synthetic⟩, some init, .synthetic⟩],
      .synthetic⟩], .synthetic⟩

/-- A class with well-known symbols only. -/
def knownUnit : CompilationUnit where
  tables := .initial
  program :=
    let name := BasicClass.name .initial
    ⟨[⟨name .main, name .object, SymbolTables.known .initial .main, [], .synthetic⟩], .synthetic⟩

/-- The file comes first, and the static type before the text that has it. Well-known symbols are found, with
whatever further text. -/
theorem dangling_symbols_reported_attribute :
    let reported : List (List Nat × Occurrence) :=
      [([0], ⟨.ids, ⟨90⟩, .synthetic⟩), ([0, 2, 0, 0, 1, 0], ⟨.ids, ⟨70⟩, .synthetic⟩),
        ([0, 2, 0, 0, 2], ⟨.ids, ⟨80⟩, .synthetic⟩), ([0, 2, 0, 0, 2, 0], ⟨.strings, ⟨3⟩, .synthetic⟩)]
    (danglingUnit.checkSymbols {}).1 = false ∧
      (danglingUnit.checkSymbols {}).2.emitted.map (·.source) =
        reported.map (fun a => some (.placed (.unknownSymbol (a.2.dangling .initial)))) ∧
      (∃ dangling : List (List Nat × Occurrence), (dangling.Pairwise fun a b => a.1 < b.1) ∧
        dangling.length = reported.length ∧ ∀ a ∈ reported, a ∈ dangling) ∧
      (knownUnit.checkSymbols {}).1 = true ∧ ∀ text,
        (CompilationUnit.mk (knownUnit.tables.addId text).2 knownUnit.program).checkSymbols {} =
          (true, {}) := by
  intro reported
  obtain ⟨dangling, hsorted, hmem, hemitted, _⟩ := dangling_symbols_reported danglingUnit {}
  have hcount : (danglingUnit.checkSymbols {}).2.emitted.length = 4 := by decide +kernel
  rw [hemitted, List.nil_append, List.length_map] at hcount
  have hfile : danglingUnit.program.MentionsAt [0] ⟨.ids, ⟨90⟩, .synthetic⟩ :=
    ⟨_, .child rfl .here, .file _⟩
  have htype : danglingUnit.program.MentionsAt [0, 2, 0, 0, 1, 0] ⟨.ids, ⟨70⟩, .synthetic⟩ :=
    ⟨_, .child rfl (.child rfl (.child rfl (.child rfl (.child rfl (.child rfl .here))))), .name _⟩
  have hstatic : danglingUnit.program.MentionsAt [0, 2, 0, 0, 2] ⟨.ids, ⟨80⟩, .synthetic⟩ :=
    ⟨_, .child rfl (.child rfl (.child rfl (.child rfl (.child rfl .here)))), .staticType rfl⟩
  have htext : danglingUnit.program.MentionsAt [0, 2, 0, 0, 2, 0] ⟨.strings, ⟨3⟩, .synthetic⟩ :=
    ⟨_, .child rfl (.child rfl (.child rfl (.child rfl (.child rfl (.child rfl .here))))), .string _ _ _⟩
  have hreported : ∀ a ∈ reported, a ∈ dangling := by
    simp only [reported, List.forall_mem_cons, hmem]
    exact ⟨⟨hfile, by decide⟩, ⟨htype, by decide⟩, ⟨hstatic, by decide⟩, ⟨htext, by decide⟩,
      List.forall_mem_nil _⟩
  obtain ⟨_, _, _, _, _, hgrown⟩ := dangling_symbols_reported knownUnit {}
  have hknown : (knownUnit.checkSymbols {}).1 = true := by decide +kernel
  refine ⟨by decide +kernel, by decide +kernel, ⟨dangling, hsorted, hcount, hreported⟩, hknown,
    fun text => hgrown hknown _ (fun k => ?_) {}⟩
  cases k with
  | ids => exact knownUnit.tables.ids.entries_prefix_insert text
  | strings | ints => exact List.prefix_refl _

end CoolTypes
