import CoolTypes.Proofs.Outcome
import CoolTypes.Proofs.Symbols.Tables

/-!
# Room for the basic classes

An analysis adds nothing to the tables of a unit but the names of the basic classes, as string literals. Where a
symbol has 32 bits, there may be no number for one of them. Otherwise the basic classes are installed as if
symbols had no bound (`CompilationUnit.installNarrow_cases`), and in tables with room they are
(`CompilationUnit.installNarrow_eq`).
-/

namespace CoolTypes

namespace SymbolTables

variable {t u : SymbolTables}

/-- The names of some classes as string literals. -/
abbrev addNames (t : SymbolTables) (bs : List BuiltinClass) : SymbolTables :=
  bs.foldl (fun t b => (t.addString b.name).2) t

/-- The names of some classes as string literals, where a symbol has 32 bits. -/
abbrev addNamesNarrow (t : SymbolTables) (bs : List BuiltinClass) : Except Fault SymbolTables :=
  bs.foldlM (fun t b => return (← t.addStringNarrow b.name).2) t

theorem addNamesNarrow_cons (b : BuiltinClass) (rest : List BuiltinClass) :
    t.addNamesNarrow (b :: rest) = (do
      let (_, strings) ← t.strings.addOrFault b.name
      addNamesNarrow { t with strings := strings } rest) := by
  rw [addNamesNarrow, List.foldlM_cons, addStringNarrow]
  cases t.strings.addOrFault b.name <;> rfl

theorem le_addNames (t : SymbolTables) (bs : List BuiltinClass) : t.Le (t.addNames bs) :=
  List.foldlRecOn (motive := t.Le) bs _ (.refl t) fun u htu b _ => htu.trans (u.le_addString b.name)

theorem size_addNames_le (t : SymbolTables) (bs : List BuiltinClass) :
    (t.addNames bs).strings.size ≤ t.strings.size + bs.length := by
  induction bs generalizing t with
  | nil => exact Nat.le_refl _
  | cons b rest ih =>
    have hone : (t.addString b.name).2.strings.size ≤ t.strings.size + 1 := by
      show (t.strings.insert b.name).size ≤ _
      rw [Interner.size, Interner.entries_insert]
      split
      · exact Nat.le_succ _
      · rw [List.length_append]
        exact Nat.le_refl _
    have hrest := ih (t.addString b.name).2
    rw [List.length_cons]
    show ((t.addString b.name).2.addNames rest).strings.size ≤ _
    omega

/-- Names are added as they would be without a bound, or there is no number for one of them. -/
theorem addNamesNarrow_cases (t : SymbolTables) (bs : List BuiltinClass) :
    t.addNamesNarrow bs = .ok (t.addNames bs) ∨ t.addNamesNarrow bs = .error .tableOverflow := by
  induction bs generalizing t with
  | nil => exact .inl rfl
  | cons b rest ih =>
    rw [addNamesNarrow_cons]
    rcases t.strings.addOrFault_cases b.name with ⟨s, hs⟩ | hfull
    · rw [hs]
      exact ih (t.addString b.name).2
    · rw [hfull]
      exact .inr rfl

/-- If there is room for all names at the end, there is room for each of them on the way. -/
theorem addNamesNarrow_eq {bs : List BuiltinClass}
    (h : (t.addNames bs).strings.size ≤ UInt32.size) : t.addNamesNarrow bs = .ok (t.addNames bs) := by
  induction bs generalizing t with
  | nil => rfl
  | cons b rest ih =>
    have hfirst : (t.strings.insert b.name).size ≤ UInt32.size :=
      Nat.le_trans (le_addNames (t.addString b.name).2 rest .strings) h
    rw [addNamesNarrow_cons, Interner.addOrFault_eq hfirst]
    exact @ih (t.addString b.name).2 h

end SymbolTables

namespace CompilationUnit

variable {u : CompilationUnit}

/-- Tables that are not nearly full have room. -/
theorem hasRoom_of_size_le
    (h : u.tables.strings.size + BuiltinClass.literalOrder.length ≤ UInt32.size) : u.HasRoom :=
  Nat.le_trans (u.tables.size_addNames_le BuiltinClass.literalOrder) h

/-- The basic classes are installed as they would be without a bound, or there is no number for one of their
names. -/
theorem installNarrow_cases (u : CompilationUnit) :
    u.installNarrow = .ok u.installBasicClasses ∨ u.installNarrow = .error .tableOverflow := by
  have hadded : u.tables.addClassLiteralsNarrow = .ok u.tables.addClassLiterals ∨
      u.tables.addClassLiteralsNarrow = .error .tableOverflow :=
    u.tables.addNamesNarrow_cases BuiltinClass.literalOrder
  rw [installNarrow]
  rcases hadded with hadded | hfull
  · rw [hadded]
    exact .inl rfl
  · rw [hfull]
    exact .inr rfl

/-- In tables with room the basic classes are installed. -/
theorem installNarrow_eq (h : u.HasRoom) : u.installNarrow = .ok u.installBasicClasses :=
  bind_eq_ok.mpr ⟨_, SymbolTables.addNamesNarrow_eq h, rfl⟩

/-- Analyses are the ones without a bound, or there is no number for the name of a basic class. -/
theorem analyzeNarrow_cases (u : CompilationUnit) :
    (∀ stage s, u.analyzeNarrow stage s = u.analyze stage s) ∨
      ∀ stage s, u.analyzeNarrow stage s = .error .tableOverflow := by
  rcases u.installNarrow_cases with hinstalled | hfull
  · refine .inl fun stage s => ?_
    rw [analyzeNarrow, hinstalled]
    rfl
  · refine .inr fun stage s => ?_
    rw [analyzeNarrow, hfull]
    rfl

theorem analyzeNarrow_eq (h : u.HasRoom) (stage : Stage) (s : Sink) :
    u.analyzeNarrow stage s = u.analyze stage s := by
  rw [analyzeNarrow, installNarrow_eq h]
  rfl

end CompilationUnit

end CoolTypes
