import CoolTypes.Proofs.Annotations
import CoolTypes.Proofs.Reanalysis
import CoolTypes.Proofs.Renaming.Analysis
import CoolTypes.Syntax.Builder

/-!
# Installing the basic classes

The basic classes can be built like any other classes, out of the texts of their names. Every identifier table
has all of these texts (`BasicClass.wellKnown_written`), so that a builder leaves such tables as they are and
makes the classes over the well-known names (`BasicClass.run_built`). New texts are added to the string
literals only, and only by the first analysis; so no symbol changes its meaning (`analysis_keeps_symbols`).
-/

namespace CoolTypes

/-! ## Builders that are left as they are -/

/-- The call makes `a` and leaves the builder as it is. -/
def Builder.Gives {α : Type} (b : Builder) (x : Build α) (a : α) : Prop := x.run b = (a, b)

namespace Builder.Gives

variable {α β : Type} {b : Builder}

theorem pure (a : α) : b.Gives (Pure.pure a) a := rfl

theorem bind {x : Build α} {f : α → Build β} {a : α} {c : β} (hx : b.Gives x a)
    (hf : b.Gives (f a) c) : b.Gives (x >>= f) c := by
  unfold Gives at *
  rw [StateT.run_bind, hx]
  exact hf

theorem here : b.Gives Builder.here b.span := rfl

theorem mapM {f : β → Build α} {g : β → α} {xs : List β} (h : ∀ x ∈ xs, b.Gives (f x) (g x)) :
    b.Gives (xs.mapM f) (xs.map g) := by
  induction xs with
  | nil => exact pure []
  | cons x rest ih =>
    obtain ⟨hx, hrest⟩ := List.forall_mem_cons.mp h
    rw [List.mapM_cons]
    exact hx.bind ((ih hrest).bind (pure _))

/-- A text that has an entry is a name, and nothing is added. -/
theorem name {text : String} (h : text ∈ b.tables.ids.entries) (hspan : b.span = .synthetic) :
    b.Gives (Builder.name text) (.ofText b.tables text) := by
  have hsymbol : b.Gives (Builder.symbol text) (b.tables.addId text).1 := by
    show ((b.tables.addId text).1, { b with tables := (b.tables.addId text).2 }) = _
    simp only [SymbolTables.addId, Interner.insert_of_mem h]
  rw [Name.ofText, ← hspan]
  exact hsymbol.bind (here.bind (pure _))

end Builder.Gives

/-! ## The basic classes as texts -/

namespace BasicClass

/-- The texts of a member of a basic class. -/
inductive MemberText where
  | method (name : String) (params : List (String × String)) (returnType : String)
  | slot (name typeName : String)

/-- The texts of a basic class. -/
structure ClassText where
  name : String
  parent : String
  members : List MemberText

/-- The basic classes, as they are written. -/
def written : List ClassText :=
  [⟨"Object", "_no_class",
      [.method "abort" [] "Object", .method "type_name" [] "String", .method "copy" [] "SELF_TYPE"]⟩,
    ⟨"IO", "Object",
      [.method "out_string" [("arg", "String")] "SELF_TYPE",
        .method "out_int" [("arg", "Int")] "SELF_TYPE", .method "in_string" [] "String",
        .method "in_int" [] "Int"]⟩,
    ⟨"Int", "Object", [.slot "val" "_prim_slot"]⟩,
    ⟨"Bool", "Object", [.slot "val" "_prim_slot"]⟩,
    ⟨"String", "Object",
      [.slot "val" "_prim_slot", .slot "str_field" "_prim_slot", .method "length" [] "Int",
        .method "concat" [("arg", "String")] "String",
        .method "substr" [("arg", "Int"), ("arg2", "Int")] "String"]⟩]

namespace MemberText

/-- All texts of a member. -/
def texts : MemberText → List String
  | .method n params returnType => n :: returnType :: params.flatMap fun p => [p.1, p.2]
  | .slot n typeName => [n, typeName]

theorem param_mem_texts {n returnType : String} {params : List (String × String)}
    {p : String × String} (hp : p ∈ params) :
    p.1 ∈ texts (.method n params returnType) ∧ p.2 ∈ texts (.method n params returnType) := by
  have hmem : ∀ text ∈ [p.1, p.2], text ∈ texts (.method n params returnType) := fun text htext =>
    List.mem_cons_of_mem _ (List.mem_cons_of_mem _ (List.mem_flatMap.mpr ⟨p, hp, htext⟩))
  exact ⟨hmem p.1 (by simp), hmem p.2 (by simp)⟩

/-- Builds a member. -/
def build : MemberText → Build Feature
  | .method n params returnType => do
    let params ← params.mapM fun p => Builder.formal p.1 p.2
    Builder.method n params returnType (← Builder.absent)
  | .slot n typeName => Builder.attribute n typeName none

/-- The member over the symbols of its texts. -/
def make (t : SymbolTables) : MemberText → Feature
  | .method n params returnType =>
    .method ⟨.ofText t n, params.map fun p => ⟨.ofText t p.1, .ofText t p.2, .synthetic⟩,
      .ofText t returnType, .absent .synthetic none, .synthetic⟩
  | .slot n typeName => .attr ⟨.ofText t n, .ofText t typeName, none, .synthetic⟩

end MemberText

namespace ClassText

/-- All texts of a class. -/
def texts (c : ClassText) : List String := c.name :: c.parent :: c.members.flatMap MemberText.texts

theorem member_mem_texts {c : ClassText} {m : MemberText} (hm : m ∈ c.members) {text : String}
    (htext : text ∈ m.texts) : text ∈ c.texts :=
  List.mem_cons_of_mem _ (List.mem_cons_of_mem _ (List.mem_flatMap.mpr ⟨m, hm, htext⟩))

/-- Builds a class. -/
def build (c : ClassText) : Build Class := do
  Builder.class c.name c.parent (← c.members.mapM MemberText.build)

/-- The class over the symbols of its texts. -/
def make (t : SymbolTables) (c : ClassText) : Class :=
  ⟨.ofText t c.name, .ofText t c.parent, t.known .basicFile, c.members.map (MemberText.make t),
    .synthetic⟩

end ClassText

/-- Builds the basic classes. -/
def built : Build (List Class) := written.mapM ClassText.build

/-- All texts of the basic classes are well-known names. -/
theorem wellKnown_written :
    ∀ c ∈ written, ∀ text ∈ c.texts, text ∈ WellKnown.all.map WellKnown.text := by
  decide

/-- The basic classes are the classes over the symbols of their texts. -/
theorem map_make_written (t : SymbolTables) : written.map (ClassText.make t) = all t := rfl

/-! ## Building them -/

section Building

variable {t : SymbolTables}

/-- The name of the file of the basic classes is there already. -/
theorem start_eq (t : SymbolTables) :
    Builder.start t "<basic class>" = ⟨t, t.known .basicFile, .synthetic⟩ := by
  have hfile : "<basic class>" ∈ t.ids.entries := t.complete .basicFile
  simp only [Builder.start, SymbolTables.addId, Interner.insert_of_mem hfile]
  rfl

variable {b : Builder} (hspan : b.span = .synthetic)

include hspan

theorem MemberText.gives (m : MemberText) (h : ∀ text ∈ m.texts, text ∈ b.tables.ids.entries) :
    b.Gives m.build (m.make b.tables) := by
  have hname : ∀ text ∈ m.texts, b.Gives (Builder.name text) (.ofText b.tables text) :=
    fun text htext => .name (h text htext) hspan
  have hhere : b.Gives Builder.here .synthetic := hspan ▸ .here
  cases m with
  | method n params returnType =>
    have hparams : ∀ p ∈ params, b.Gives (Builder.formal p.1 p.2)
        ⟨.ofText b.tables p.1, .ofText b.tables p.2, .synthetic⟩ := by
      intro p hp
      obtain ⟨hn, htype⟩ := param_mem_texts hp
      exact (hname p.1 hn).bind <| (hname p.2 htype).bind <| hhere.bind (.pure _)
    have hbody : b.Gives Builder.absent (.absent .synthetic none) := hhere.bind (.pure _)
    exact (Builder.Gives.mapM hparams).bind <| hbody.bind <| (hname n (by simp [texts])).bind <|
      (hname returnType (by simp [texts])).bind <| hhere.bind (.pure _)
  | slot n typeName =>
    have hbinding : b.Gives (Builder.binding n typeName none)
        ⟨.ofText b.tables n, .ofText b.tables typeName, none, .synthetic⟩ :=
      (hname n (by simp [texts])).bind <| (hname typeName (by simp [texts])).bind <|
        hhere.bind (.pure _)
    exact hbinding.bind (.pure _)

theorem ClassText.gives (c : ClassText) (hfile : b.file = b.tables.known .basicFile)
    (h : ∀ text ∈ c.texts, text ∈ b.tables.ids.entries) :
    b.Gives c.build (c.make b.tables) := by
  have hmembers : b.Gives (c.members.mapM MemberText.build) (c.members.map (MemberText.make b.tables)) := by
    apply Builder.Gives.mapM
    intro m hm
    exact m.gives hspan fun text htext => h text (member_mem_texts hm htext)
  have hname : ∀ text ∈ c.texts, b.Gives (Builder.name text) (.ofText b.tables text) :=
    fun text htext => .name (h text htext) hspan
  have hget : b.Gives MonadState.get b := rfl
  have hhere : b.Gives Builder.here .synthetic := hspan ▸ .here
  rw [make, ← hfile]
  exact hmembers.bind <| (hname c.name (by simp [texts])).bind <|
    (hname c.parent (by simp [texts])).bind <| hget.bind <| hhere.bind (.pure _)

end Building

/-- The texts of the basic classes add nothing to tables, and make the classes over the well-known names. -/
theorem run_built (t : SymbolTables) : built.run (Builder.start t "<basic class>") =
    (all t, Builder.start t "<basic class>") := by
  rw [start_eq, ← map_make_written]
  -- every text that is looked up on the way is a well-known name, which all tables have
  apply Builder.Gives.mapM
  intro c hc
  refine ClassText.gives rfl c rfl fun text htext => ?_
  obtain ⟨w, -, rfl⟩ := List.mem_map.mp (wellKnown_written c hc text htext)
  exact t.complete w

/-! ## What their symbols stand for -/

/-- The symbol is the one of a well-known name with this text, and stands for it. -/
def Denotes (t : SymbolTables) (text : String) (s : Symbol) : Prop :=
  t.name s = .ok text ∧ ∃ w : WellKnown, w.text = text ∧ t.known w = s

/-- The member has these texts as its names. -/
def MemberText.Spells (t : SymbolTables) : MemberText → Feature → Prop
  | .method n params returnType, .method m => Denotes t n m.name.symbol ∧
      List.Forall₂ (fun p f => Denotes t p.1 f.name.symbol ∧ Denotes t p.2 f.typeName.symbol) params
        m.params ∧ Denotes t returnType m.returnType.symbol
  | .slot n typeName, .attr b => Denotes t n b.name.symbol ∧ Denotes t typeName b.typeName.symbol
  | _, _ => False

/-- The class has these texts as its names. -/
def ClassText.Spells (t : SymbolTables) (c : ClassText) (d : Class) : Prop :=
  Denotes t c.name d.name.symbol ∧ Denotes t c.parent d.parent.symbol ∧
    Denotes t "<basic class>" d.file ∧ List.Forall₂ (MemberText.Spells t) c.members d.features

variable {t : SymbolTables}

theorem denotes_known (w : WellKnown) : Denotes t w.text (t.known w) := ⟨t.name_known w, w, rfl, rfl⟩

theorem denotes_ofText {text : String} (h : text ∈ WellKnown.all.map WellKnown.text) :
    Denotes t text (Name.ofText t text).symbol := by
  obtain ⟨w, -, rfl⟩ := List.mem_map.mp h
  exact denotes_known w

theorem forall₂_map {α β : Type} {R : α → β → Prop} {f : α → β} {xs : List α}
    (h : ∀ x ∈ xs, R x (f x)) : List.Forall₂ R xs (xs.map f) := by
  rw [List.forall₂_map_right_iff, List.forall₂_same]
  exact h

theorem MemberText.spells_make {m : MemberText}
    (h : ∀ text ∈ m.texts, text ∈ WellKnown.all.map WellKnown.text) : m.Spells t (m.make t) := by
  cases m with
  | method n params returnType =>
    refine ⟨denotes_ofText (h n (by simp [texts])), forall₂_map fun p hp => ?_,
      denotes_ofText (h returnType (by simp [texts]))⟩
    obtain ⟨hn, htype⟩ := param_mem_texts hp
    exact ⟨denotes_ofText (h _ hn), denotes_ofText (h _ htype)⟩
  | slot n typeName =>
    exact ⟨denotes_ofText (h n (by simp [texts])), denotes_ofText (h typeName (by simp [texts]))⟩

theorem ClassText.spells_make {c : ClassText}
    (h : ∀ text ∈ c.texts, text ∈ WellKnown.all.map WellKnown.text) : c.Spells t (c.make t) := by
  refine ⟨denotes_ofText (h c.name (by simp [texts])), denotes_ofText (h c.parent (by simp [texts])),
    denotes_known .basicFile, forall₂_map fun m hm => ?_⟩
  exact MemberText.spells_make fun text htext => h text (member_mem_texts hm htext)

theorem spells_all (t : SymbolTables) : List.Forall₂ (ClassText.Spells t) written (all t) := by
  rw [← map_make_written]
  exact forall₂_map fun c hc => ClassText.spells_make (wellKnown_written c hc)

end BasicClass

/-! ## Tables that grow -/

namespace SymbolTables

variable {t u : SymbolTables}

theorem Grows.ids_prefix (h : t.Grows u) : t.ids.entries <+: u.ids.entries := by
  induction h with
  | refl => exact List.prefix_refl _
  | id text _ ih => exact ih.trans (Interner.entries_prefix_insert _ text)
  | string text _ ih => exact ih
  | int text _ ih => exact ih

/-- The symbols of the well-known names stay the same when tables grow. -/
theorem Grows.known_eq (h : t.Grows u) (w : WellKnown) : u.known w = t.known w :=
  Interner.get?_injective (u.get?_known w) (Interner.get?_of_prefix h.ids_prefix (t.get?_known w))

theorem entries_strings_addClassLiterals (t : SymbolTables) : t.addClassLiterals.strings.entries =
    t.strings.entries ++ ["Object", "Bool", "IO", "Int", "String"].filter (· ∉ t.strings.entries) := by
  have hnodup : ["Object", "Bool", "IO", "Int", "String"].Nodup := by decide
  exact Interner.entries_foldl_insert hnodup t.strings

theorem get?_table_addClassLiterals {k : TableKind} {s : Symbol} {text : String}
    (h : (t.table k).get? s = some text) : (t.addClassLiterals.table k).get? s = some text := by
  cases k with
  | ids =>
    rw [table, CompilationUnit.ids_addClassLiterals]
    exact h
  | strings => exact get?_addClassLiterals h
  | ints =>
    rw [table, ints_addClassLiterals]
    exact h

end SymbolTables

/-- Over tables that have grown out of any parts, installing the basic classes leaves the identifiers and
integers and adds the missing names of these classes to the string literals, so every symbol keeps its text.
The classes that are put in front are those that a builder makes of their texts, and it adds nothing to the
tables; each of their symbols stands for its text and is the symbol that the tables had for this well-known
name from the beginning. An analysis, which gives a result for each symbol-valid unit, ends with these tables
and classes, and a second one ends with the same tables. -/
theorem analysis_keeps_symbols {ids strings ints : Interner} {t : SymbolTables}
    (hgrow : (SymbolTables.ofParts ids strings ints).Grows t) (p : Program) :
    let u : CompilationUnit := ⟨t, p⟩
    let t' := u.installBasicClasses.tables
    (t'.ids = t.ids ∧ t'.ints = t.ints ∧ t'.strings.entries =
      t.strings.entries ++ ["Object", "Bool", "IO", "Int", "String"].filter (· ∉ t.strings.entries)) ∧
    (∀ k s text, (t.table k).get? s = some text → (t'.table k).get? s = some text) ∧
    (∃ basic, BasicClass.built.run (.start t "<basic class>") = (basic, .start t "<basic class>") ∧
      (Builder.start t "<basic class>").tables = t ∧
      u.installBasicClasses.program.classes = basic ++ p.classes ∧
      List.Forall₂ (BasicClass.ClassText.Spells t') BasicClass.written basic) ∧
    (∀ w, t'.known w = (SymbolTables.ofParts ids strings ints).known w) ∧
    (∀ stage s a v s', u.analyze stage s = .ok (a, v, s') →
      v.tables = t' ∧ v.program.erase = u.installBasicClasses.program.erase ∧
      ∀ stage₂ s₂ a₂ v₂ s₂', v.analyze stage₂ s₂ = .ok (a₂, v₂, s₂') → v₂.tables = v.tables) ∧
    (u.SymbolValid → ∀ stage s, ∃ a v s', u.analyze stage s = .ok (a, v, s') ∧
      ∀ stage₂ s₂, ∃ a₂ v₂ s₂', v.analyze stage₂ s₂ = .ok (a₂, v₂, s₂')) := by
  intro u t'
  refine ⟨⟨CompilationUnit.ids_addClassLiterals t, t.ints_addClassLiterals,
    t.entries_strings_addClassLiterals⟩, fun k s text => SymbolTables.get?_table_addClassLiterals,
    ⟨BasicClass.all t, BasicClass.run_built t, ?_, rfl, ?_⟩, fun w => ?_, ?_, ?_⟩
  · rw [BasicClass.start_eq]
  · rw [← BasicClass.all_addClassLiterals t]
    exact BasicClass.spells_all t'
  · exact (CompilationUnit.known_addClassLiterals t w).trans (hgrow.known_eq w)
  · intro stage s a v s' hv
    obtain ⟨-, rfl, -⟩ := CompilationUnit.eq_of_analyze hv
    refine ⟨rfl, u.erase_program_analyzed stage, fun stage₂ s₂ a₂ v₂ s₂' hv₂ => ?_⟩
    obtain ⟨-, rfl, -⟩ := CompilationUnit.eq_of_analyze hv₂
    exact t.addClassLiterals_addClassLiterals
  · intro hu stage s
    obtain ⟨a, v, s', hv, hvalid⟩ := hu.analyze stage s
    refine ⟨a, v, s', hv, fun stage₂ s₂ => ?_⟩
    obtain ⟨a₂, v₂, s₂', hv₂, -⟩ := hvalid.analyze stage₂ s₂
    exact ⟨a₂, v₂, s₂', hv₂⟩

/-- Tables with a basic class among the identifiers and one among the string literals from the beginning. -/
def scatteredParts : SymbolTables :=
  .ofParts ((Interner.empty.insert "Foo").insert "IO") (Interner.empty.insert "Int") .empty

/-- A class over such tables, to which an identifier and the name of another basic class have been added. -/
def scatteredUnit : CompilationUnit where
  tables := ((scatteredParts.addId "Bar").2.addString "Bool").2
  program := ⟨[⟨⟨⟨0⟩, .synthetic⟩, ⟨⟨1⟩, .synthetic⟩, ⟨0⟩, [], .synthetic⟩], .synthetic⟩

theorem analysis_keeps_symbols_scattered :
    scatteredParts.Grows scatteredUnit.tables ∧ scatteredUnit.SymbolValid ∧
      scatteredUnit.installBasicClasses.tables.strings.entries =
        ["Int", "Bool", "Object", "IO", "String"] ∧
      scatteredUnit.installBasicClasses.tables.known .io = ⟨1⟩ ∧
      ∃ a v s, scatteredUnit.analyze .typing {} = .ok (a, v, s) ∧ v.tables.ids.get? ⟨0⟩ = some "Foo" ∧
        ∃ a₂ v₂ s₂, v.analyze .typing {} = .ok (a₂, v₂, s₂) ∧ v₂.tables = v.tables := by
  have hgrow : scatteredParts.Grows scatteredUnit.tables := .string "Bool" (.id "Bar" .refl)
  have hvalid : scatteredUnit.SymbolValid :=
    (CompilationUnit.checkSymbols_eq_true_iff (s := {})).mp (by decide +kernel)
  obtain ⟨⟨-, -, hstrings⟩, hkept, -, hknown, hsame, hgives⟩ :=
    analysis_keeps_symbols hgrow scatteredUnit.program
  obtain ⟨a, v, s, hv, hagain⟩ := hgives hvalid .typing {}
  obtain ⟨a₂, v₂, s₂, hv₂⟩ := hagain .typing {}
  obtain ⟨htables, -, hsecond⟩ := hsame .typing {} a v s hv
  refine ⟨hgrow, hvalid, hstrings.trans (by decide +kernel), (hknown .io).trans (by decide +kernel),
    a, v, s, hv, ?_, a₂, v₂, s₂, hv₂, hsecond _ _ _ _ _ hv₂⟩
  rw [htables]
  exact hkept .ids ⟨0⟩ "Foo" (by decide +kernel)

end CoolTypes
