import CoolTypes.Dump.Format
import CoolTypes.Proofs.Symbols.Tables
import CoolTypes.Proofs.Unit.Settling

/-!
# Spellings of a unit

A unit and its tables are records that fail with a reason, so the fields that are read first decide on it.
Apart from the reason they are read like any other record, each field for itself (`unit?_ofFields`,
`tables?_ofFields`), and so a unit is settled like its parts (`CompilationUnit.settles`). It follows that all
the texts that spell a unit are loaded as this unit, and that no text that misspells it is loaded, by any codec
that is as described (`load_spellings`).
-/

namespace CoolTypes

open Notation Notation.Value

namespace Decode

/-! ## Records that fail in their own way -/

theorem toOption_bind {ε α β : Type} (x : Except ε α) (f : α → Except ε β) :
    (x >>= f).toOption = x.toOption.bind fun a => (f a).toOption := by
  cases x <;> rfl

theorem toOption_orMalformed {α : Type} (a : Option α) : (orMalformed a).toOption = a := by
  cases a <;> rfl

/-- Where the fields are those of a record, all of them are read. -/
theorem toOption_readFields {D : Dialect} {σ : Type} (own : List String)
    (step : σ → String × Value → Except LoadError σ) (seen : List String) (done : σ) (gs : Fields) :
    (readFields D own step seen done gs).toOption =
      (require (D.fit own seen gs)).bind fun _ => (gs.foldlM step done).toOption := by
  induction gs generalizing seen done with
  | nil => rfl
  | cons g gs ih =>
    rw [readFields, toOption_bind, toOption_orMalformed, Dialect.fit, List.foldlM_cons, toOption_bind]
    simp only [toOption_bind, ih]
    cases D.goesOn own seen g
    · rfl
    · cases D.fit own (g.1 :: seen) gs <;> cases (step done g).toOption <;> rfl

section Latest

variable {β : Type} (read : Value → Option β) (key : String)

/-- Reads a field, over what has been read for it before. -/
def latest : Option β → Fields → Option (Option β)
  | done, [] => some done
  | done, g :: gs =>
    if g.1 = key then (read g.2).bind fun b => latest (some b) gs else latest done gs

variable {read key}

theorem latest_of_not_mem {gs : Fields} (h : key ∉ gs.map Prod.fst) (done : Option β) :
    latest read key done gs = some done := by
  induction gs with
  | nil => rfl
  | cons g gs ih =>
    rw [List.map_cons, List.mem_cons, not_or] at h
    rw [latest, if_neg (Ne.symm h.1), ih h.2]

/-- A field that is there at most once is read by its key. -/
theorem latest_none {gs : Fields} (h : (gs.map Prod.fst).count key ≤ 1) :
    latest read key none gs = gs.withDefault key none fun v => (read v).map some := by
  induction gs with
  | nil => rfl
  | cons g gs ih =>
    rw [latest, Fields.withDefault, List.lookup_cons]
    by_cases heq : g.1 = key
    · rw [List.map_cons, heq, List.count_cons_self] at h
      have hnot : key ∉ gs.map Prod.fst := List.count_eq_zero.mp (by omega)
      rw [if_pos heq, heq, beq_self_eq_true]
      simp only [latest_of_not_mem hnot, Option.map_eq_bind]
      rfl
    · rw [List.map_cons, List.count_cons_of_ne heq] at h
      rw [if_neg heq, ih h, beq_eq_false_iff_ne.mpr (Ne.symm heq), Fields.withDefault]

end Latest

/-- What is put in the place of a field that has been read. -/
theorem toOption_put {α β : Type} {read : Except LoadError β} {b : Option β}
    (hread : read.toOption = b) (put : β → α) :
    (do return put (← read) : Except LoadError α).toOption = b.map put := by
  subst hread
  cases read <;> rfl

/-- A table, without the reason if it is none. -/
def interner? (v : Value) : Option Interner := (interner v).toOption

/-- Each of the fields of tables is read for itself. -/
theorem foldlM_field (p : TableParts) (gs : Fields) : (gs.foldlM TableParts.field p).toOption =
    some TableParts.mk <*> latest interner? "ids" p.ids gs <*>
      latest interner? "strings" p.strings gs <*> latest interner? "ints" p.ints gs := by
  induction gs generalizing p with
  | nil => rfl
  | cons g gs ih =>
    obtain ⟨key, v⟩ := g
    obtain ⟨ids, strings, ints⟩ := p
    have hv : (interner v).toOption = interner? v := rfl
    rw [List.foldlM_cons, toOption_bind]
    simp only [ih, latest, seq_eq_bind]
    by_cases hids : key = "ids"
    · subst hids
      have hfield : (TableParts.field ⟨ids, strings, ints⟩ ("ids", v)).toOption = _ :=
        toOption_put hv fun t => TableParts.mk (some t) strings ints
      rw [hfield]
      cases interner? v <;> simp
    by_cases hstrings : key = "strings"
    · subst hstrings
      have hfield : (TableParts.field ⟨ids, strings, ints⟩ ("strings", v)).toOption = _ :=
        toOption_put hv fun t => TableParts.mk ids (some t) ints
      rw [hfield]
      cases interner? v <;> simp
    by_cases hints : key = "ints"
    · subst hints
      have hfield : (TableParts.field ⟨ids, strings, ints⟩ ("ints", v)).toOption = _ :=
        toOption_put hv fun t => TableParts.mk ids strings (some t)
      rw [hfield]
      cases interner? v <;> simp
    · have hfield : TableParts.field ⟨ids, strings, ints⟩ (key, v) = .ok ⟨ids, strings, ints⟩ := by
        rw [TableParts.field]
        all_goals simpa
      rw [hfield]
      simp [Except.toOption, hids, hstrings, hints]

/-- Each of the fields of a unit is read for itself. -/
theorem foldlM_parts {D : Dialect} (p : Parts) (gs : Fields) :
    (gs.foldlM (Parts.field D) p).toOption =
      some Parts.mk <*> latest (fun v => (tables D v).toOption) "symbols" p.tables gs <*>
        latest (program? D) "program" p.program gs := by
  induction gs generalizing p with
  | nil => rfl
  | cons g gs ih =>
    obtain ⟨key, v⟩ := g
    obtain ⟨symbols, program⟩ := p
    rw [List.foldlM_cons, toOption_bind]
    simp only [ih, latest, seq_eq_bind]
    by_cases hkey : key = "symbols"
    · subst hkey
      have hfield : (Parts.field D ⟨symbols, program⟩ ("symbols", v)).toOption = _ :=
        toOption_put rfl fun t => Parts.mk (some t) program
      rw [hfield]
      cases (tables D v).toOption <;> simp
    by_cases hkey' : key = "program"
    · subst hkey'
      have hfield : (Parts.field D ⟨symbols, program⟩ ("program", v)).toOption = _ :=
        toOption_put (toOption_orMalformed (program? D v)) fun t => Parts.mk symbols (some t)
      rw [hfield]
      cases program? D v <;> simp
    · have hfield : Parts.field D ⟨symbols, program⟩ (key, v) = .ok ⟨symbols, program⟩ := by
        rw [Parts.field]
        all_goals simpa
      rw [hfield]
      simp [Except.toOption, hkey, hkey']

section Records

variable {D : Dialect} (hD : D.Described)

include hD

theorem tables?_ofFields (gs : Fields) : (tables D (ofFields none gs)).toOption =
    (require (D.fit tableKeys [] gs)).bind fun _ =>
      some SymbolTables.ofParts <*> gs.required "ids" interner? <*>
        gs.withDefault "strings" .empty interner? <*> gs.withDefault "ints" .empty interner? := by
  obtain ⟨h, hrecord⟩ := hD.record "RawSymbolTables" gs
  have htables : (tables D (ofFields none gs)).toOption =
      (readFields D tableKeys TableParts.field [] {} gs).toOption.bind fun p =>
        p.ids.map fun ids => .ofParts ids (p.strings.getD .empty) (p.ints.getD .empty) := by
    rw [tables, hrecord, orMalformed]
    show (readFields D tableKeys TableParts.field [] {} gs >>= _).toOption = _
    rw [toOption_bind]
    congr 1
    funext p
    cases p.ids <;> rfl
  rw [htables, toOption_readFields, foldlM_field]
  cases hfit : D.fit tableKeys [] gs
  · rfl
  have hcount : ∀ key ∈ tableKeys, (gs.map Prod.fst).count key ≤ 1 := fun key hkey =>
    (count_of_fit hD hfit hkey).1
  simp only [require_true, Option.bind_some, seq_eq_bind, latest_none (hcount "ids" (by decide)),
    latest_none (hcount "strings" (by decide)), latest_none (hcount "ints" (by decide)),
    Fields.withDefault, Fields.required]
  cases gs.lookup "ids" <;> cases gs.lookup "strings" <;> cases gs.lookup "ints" <;>
    simp [Option.bind_assoc, Option.map_eq_bind]

theorem unit?_ofFields (gs : Fields) : (unit D (ofFields none gs)).toOption =
    (require (D.fit unitKeys [] gs)).bind fun _ =>
      some CompilationUnit.mk <*> gs.required "symbols" (fun v => (tables D v).toOption) <*>
        gs.required "program" (program? D) := by
  obtain ⟨h, hrecord⟩ := hD.record "CompilationUnit" gs
  have hunit : (unit D (ofFields none gs)).toOption =
      (readFields D unitKeys (Parts.field D) [] {} gs).toOption.bind fun p =>
        p.tables.bind fun tables => p.program.map fun program => ⟨tables, program⟩ := by
    rw [unit, hrecord, orMalformed]
    show (readFields D unitKeys (Parts.field D) [] {} gs >>= _).toOption = _
    rw [toOption_bind]
    congr 1
    funext p
    cases p.tables <;> cases p.program <;> rfl
  rw [hunit, toOption_readFields, foldlM_parts]
  cases hfit : D.fit unitKeys [] gs
  · rfl
  have hcount : ∀ key ∈ unitKeys, (gs.map Prod.fst).count key ≤ 1 := fun key hkey =>
    (count_of_fit hD hfit hkey).1
  simp only [require_true, Option.bind_some, seq_eq_bind, latest_none (hcount "symbols" (by decide)),
    latest_none (hcount "program" (by decide)), Fields.withDefault, Fields.required]
  cases gs.lookup "symbols" <;> cases gs.lookup "program" <;>
    simp [Option.bind_assoc, Option.map_eq_bind]

end Records

end Decode

/-! ## Tables -/

open Decode

theorem Interner.settles (t : Interner) : Settles interner? [] t.toValue t := by
  have hread : interner? = fun v => (items str? v).bind fun texts => (Interner.ofList texts).toOption := by
    funext v
    rw [interner?, interner, toOption_bind, toOption_orMalformed]
    congr 1
    funext texts
    cases Interner.ofList texts <;> rfl
  have htexts : Settles (items str?) [] t.toValue t.entries := .list fun s _ => .str rfl
  rw [hread]
  apply htexts.bind
  rw [Interner.ofList_entries]
  rfl

section Units

variable {D : Dialect} (hD : D.Described)

include hD

theorem SymbolTables.settles (t : SymbolTables) :
    Settles (fun v => (Decode.tables D v).toOption) [] t.toValue t := by
  have hempty : ∀ u : Interner, u.toValue = .list [] → u = .empty := by
    intro u hu
    apply Interner.ext
    simpa [Interner.toValue] using hu
  have hrecord : Settles (fun v => (Decode.tables D v).toOption) [] t.toValue
      (SymbolTables.ofParts t.ids t.strings t.ints) :=
    .record hD (tables?_ofFields hD)
      (.seq (.seq (.seq (.pure SymbolTables.ofParts) (.required t.ids.settles (by decide)))
        (.withDefault t.strings.settles (by decide)
          fun h => hempty t.strings (by simpa [optionalFields] using h)))
        (.withDefault t.ints.settles (by decide)
          fun h => hempty t.ints (by simpa [optionalFields] using h)))
      rfl (by simp) (List.nil_subset _) (by simp)
  rwa [SymbolTables.ofParts_self] at hrecord

/-- A unit is settled as soon as its numbers are within bounds. -/
theorem CompilationUnit.settles {u : CompilationUnit} (h : u.program.Fits) :
    Settles (fun v => (Decode.unit D v).toOption) [] u.toValue u :=
  .record hD (unit?_ofFields hD)
    (.seq (.seq (.pure CompilationUnit.mk) (.required (u.tables.settles hD) (by decide)))
      (.required (h.settles hD) (by decide)))
    rfl (by simp) (List.nil_subset _) (by simp)

end Units

/-! ## Texts -/

/-- A text spells a unit: it is a layout of the tokens of some respelling of its value, whose brackets are not
nested too deep. -/
def CompilationUnit.IsSpelling (c : Codec) (u : CompilationUnit) (text : String) : Prop :=
  ∃ v ts, u.toValue.Respells [] v ∧ v.Writes ts ∧ Layout ts text.toList ∧ v.depth < c.limit

/-- A text misspells a unit: it is a layout of the tokens of some misspelling of its value. -/
def CompilationUnit.IsMisspelling (u : CompilationUnit) (text : String) : Prop :=
  ∃ v ts, u.toValue.Misspells [] v ∧ v.Writes ts ∧ Layout ts text.toList

namespace Notation.Codec

/-- A text from which something is loaded is read to its end. -/
theorem clean_of_load {c : Codec} {text : String} {u : CompilationUnit} (h : c.load text = .ok u) :
    (c.read text).clean = true := by
  rw [load] at h
  cases hclean : (c.read text).clean with
  | true => rfl
  | false =>
    simp only [Decode.whole, hclean, Bool.false_eq_true, if_false] at h
    cases hunit : Decode.unit (c.read text).dialect (c.read text).value <;> rw [hunit] at h <;> cases h

variable {c : Codec} (hc : c.Described) {u : CompilationUnit}

include hc

/-- A unit is dumped if its brackets are not nested too deep. -/
theorem dump_eq_ok (h : u.program.Fits) (hdepth : u.toValue.depth < c.limit) :
    ∃ text, c.dump u = .ok text := by
  obtain ⟨text, htext⟩ := hc.prints (CompilationUnit.printable h) hdepth
  exact ⟨text ++ "\n", by rw [dump, htext]; rfl⟩

/-- What a unit is dumped as is a layout of its tokens. -/
theorem layout_of_dump (h : u.program.Fits) {text : String} (htext : c.dump u = .ok text) :
    Layout u.toValue.tokens text.toList := by
  cases hprint : c.print u.toValue with
  | error e =>
    rw [dump, hprint] at htext
    cases htext
  | ok page =>
    rw [dump, hprint] at htext
    cases htext
    rw [String.toList_append]
    exact (hc.layout (CompilationUnit.printable h) hprint).newLine

section Loads

variable {v : Value} {ts : List Token} {text : String} (hts : v.Writes ts) (hl : Layout ts text.toList)

include hts hl

/-- A layout of the tokens of a value that is read to its end is loaded as the unit that the value is. -/
theorem toOption_load (hclean : (c.read text).clean = true) :
    (c.load text).toOption = (Decode.unit (c.read text).dialect v).toOption := by
  rw [load, toOption_bind, hc.value hts hl hclean]
  simp only [Decode.whole, hclean, if_true]
  exact Option.bind_fun_some _

/-- A layout of the tokens of a respelling is loaded as the unit, if it is loaded at all. -/
theorem eq_of_load (h : u.program.Fits) (hv : u.toValue.Respells [] v) {w : CompilationUnit}
    (hw : c.load text = .ok w) : w = u := by
  have hload := toOption_load hc hts hl (clean_of_load hw)
  rw [hw, (CompilationUnit.settles (hc.dialect hts hl) h).respelled v hv hts.isSound] at hload
  exact Option.some.inj hload

end Loads

theorem load_of_isSpelling (h : u.program.Fits) {text : String} (htext : u.IsSpelling c text) :
    c.load text = .ok u := by
  obtain ⟨v, ts, hv, hts, hl, hdepth⟩ := htext
  have hload := toOption_load hc hts hl (hc.clean hts hl hdepth)
  rw [(CompilationUnit.settles (hc.dialect hts hl) h).respelled v hv hts.isSound] at hload
  cases hresult : c.load text with
  | ok w =>
    rw [hresult] at hload
    exact congrArg Except.ok (Option.some.inj hload)
  | error e =>
    rw [hresult] at hload
    cases hload

theorem load_of_isMisspelling (h : u.program.Fits) {text : String} (htext : u.IsMisspelling text) :
    ∃ e, c.load text = .error e := by
  obtain ⟨v, ts, hv, hts, hl⟩ := htext
  cases hresult : c.load text with
  | error e => exact ⟨e, rfl⟩
  | ok w =>
    have hload := toOption_load hc hts hl (clean_of_load hresult)
    rw [hresult, (CompilationUnit.settles (hc.dialect hts hl) h).misspelled v hv] at hload
    cases hload

/-- What a unit is dumped as spells the unit. -/
theorem isSpelling_of_dump (h : u.program.Fits) (hdepth : u.toValue.depth < c.limit) {text : String}
    (htext : c.dump u = .ok text) : u.IsSpelling c text := by
  have hprint := CompilationUnit.printable h
  exact ⟨u.toValue, u.toValue.tokens, hprint.respells [], hprint.writes, layout_of_dump hc h htext,
    hdepth⟩

end Notation.Codec

/-- With a codec that is as described, a unit whose brackets are not nested too deep is dumped, and the text
spells the unit. Every spelling of a unit is loaded as this very unit, whatever the order of its fields, the
fields left out and added, its blanks, comments and commas. A text in which a field without a default is
missing or a known field stands twice is not loaded at all. -/
theorem load_spellings (c : Codec) (hc : c.Described) (u : CompilationUnit) (h : u.program.Fits) :
    (u.toValue.depth < c.limit →
      ∃ text, u.dump c .loadable = .ok (.ok text) ∧ u.IsSpelling c text) ∧
      (∀ text, u.IsSpelling c text → c.load text = .ok u) ∧
      ∀ text, u.IsMisspelling text → ∃ e, c.load text = .error e := by
  refine ⟨fun hdepth => ?_, ?_, ?_⟩
  · obtain ⟨text, htext⟩ := c.dump_eq_ok hc h hdepth
    exact ⟨text, congrArg Except.ok htext, c.isSpelling_of_dump hc h hdepth htext⟩
  · exact fun text htext => c.load_of_isSpelling hc h htext
  · exact fun text htext => c.load_of_isMisspelling hc h htext

/-- A unit of which much can be left out: no literals, one attribute without initial value, and all of it
but the program at the place that no text has. -/
def sparseUnit : CompilationUnit where
  tables := .initial
  program :=
    let name : Name := ⟨⟨0⟩, .synthetic⟩
    ⟨[⟨name, name, ⟨0⟩, [.attr ⟨name, name, none, .synthetic⟩], .synthetic⟩], .point 2 1⟩

/-- The value of that unit with a field of its own kind in front, the program before the tables, and without
the empty ones of these. -/
def terseValue : Value :=
  .record none
    [("note", .group (some "Some") [.str "*/"]), ("program", sparseUnit.program.toValue),
      ("symbols", .record none [("ids", SymbolTables.initial.ids.toValue)])]

/-- The value of that unit without its program. -/
def tablesOnly : Value := .record none [("symbols", sparseUnit.tables.toValue)]

/-- A page with a line for a comment and a comment inside another one in front. -/
def commented (page : String) : String := "// terse\n/* /* */ */" ++ page

theorem layout_commented {ts : List Token} {page : String} (h : Layout ts page.toList) :
    Layout ts (commented page).toList := by
  have hinner : Scan.Comment 0 [' ', '/', '*', ' ', '*', '/', ' ', '*', '/'] :=
    .char (by simp) (by simp) (.enter (.char (by simp) (by simp) (.leave
      (.char (by simp) (by simp) .close))))
  have hline : '\n' ∉ [' ', 't', 'e', 'r', 's', 'e'] := by decide
  have hfront : "// terse\n/* /* */ */".toList = '/' :: '/' :: ([' ', 't', 'e', 'r', 's', 'e'] ++ '\n' ::
      '/' :: '*' :: [' ', '/', '*', ' ', '*', '/', ' ', '*', '/']) := by
    decide
  have htext : (commented page).toList = "// terse\n/* /* */ */".toList ++ page.toList :=
    String.toList_append
  rw [htext, hfront]
  exact .line hline (.block hinner h)

theorem sparseUnit_fits : sparseUnit.program.Fits := by
  have hzero : Symbol.Fits ⟨0⟩ := by
    show 0 < UInt32.size
    decide
  have hsynthetic : Span.synthetic.Fits := ⟨⟨by decide, by decide⟩, ⟨by decide, by decide⟩⟩
  have hname : Name.Fits ⟨⟨0⟩, .synthetic⟩ := ⟨hzero, hsynthetic⟩
  refine ⟨?_, ⟨by decide, by decide⟩, ⟨by decide, by decide⟩⟩
  intro c hc
  cases List.mem_singleton.mp hc
  refine ⟨hname, hname, hzero, ?_, hsynthetic⟩
  intro f hf
  cases List.mem_singleton.mp hf
  exact ⟨hname, hname, by simp, hsynthetic⟩

theorem terseValue_respells : sparseUnit.toValue.Respells [] terseValue := by
  have hids := (SymbolTables.initial.ids.printable).respells []
  have htables : Respells [] (.record none [("ids", SymbolTables.initial.ids.toValue),
      ("strings", .list []), ("ints", .list [])])
      (ofFields none [("ids", SymbolTables.initial.ids.toValue)]) := by
    refine .record (by simp) (by simp) (by simp [optionalFields]) ?_
    simpa using hids
  have hprogram := sparseUnit_fits.printable.respells []
  have hunit : sparseUnit.toValue.Respells [] (ofFields none [("note", .group (some "Some") [.str "*/"]),
      ("program", sparseUnit.program.toValue),
      ("symbols", ofFields none [("ids", SymbolTables.initial.ids.toValue)])]) := by
    refine .record (by simp) (by simp) (by simp) ?_
    simpa using ⟨htables, hprogram⟩
  exact hunit

theorem terseValue_printable : terseValue.Printable := by
  refine .fields (by simp) (by simp +decide [areKeys]) ⟨?_, sparseUnit_fits.printable, ?_⟩
  · exact .wrap (by decide) .str
  · exact .fields (by simp) (by simp +decide [areKeys]) (Interner.printable _)

theorem terseValue_depth : terseValue.depth < Codec.standard.limit := by
  decide +kernel

theorem load_spellings_sparseUnit : Codec.standard.Described ∧ sparseUnit.program.Fits ∧
    sparseUnit.IsSpelling .standard (commented (terseValue.page 0)) ∧
      CompilationUnit.load (commented (terseValue.page 0)) = .ok sparseUnit ∧
      (∃ text, sparseUnit.dump .standard .loadable = .ok (.ok text) ∧
        sparseUnit.IsSpelling .standard text) ∧
      ∃ e, CompilationUnit.load (commented (tablesOnly.page 0)) = .error e := by
  have hspelling : sparseUnit.IsSpelling .standard (commented (terseValue.page 0)) :=
    ⟨terseValue, terseValue.tokens, terseValue_respells, terseValue_printable.writes,
      layout_commented terseValue_printable.layout, terseValue_depth⟩
  have hprint : tablesOnly.Printable :=
    .fields (by simp) (by simp +decide [areKeys]) sparseUnit.tables.printable
  have hmissing : sparseUnit.toValue.Misspells []
      (ofFields none [("symbols", sparseUnit.tables.toValue)]) :=
    .missing (List.mem_cons_of_mem _ List.mem_cons_self) (by decide) (by simp)
  have hmisspelling : sparseUnit.IsMisspelling (commented (tablesOnly.page 0)) :=
    ⟨tablesOnly, tablesOnly.tokens, hmissing, hprint.writes, layout_commented hprint.layout⟩
  obtain ⟨hdump, hload, hfail⟩ :=
    load_spellings .standard Codec.standard_described sparseUnit sparseUnit_fits
  exact ⟨Codec.standard_described, sparseUnit_fits, hspelling, hload _ hspelling,
    hdump (by decide +kernel), hfail _ hmisspelling⟩

end CoolTypes
