import CoolTypes.CommandLine.Line
import CoolTypes.Proofs.Annotations
import CoolTypes.Proofs.Reanalysis

/-!
# One line for a diagnostic

The line of a diagnostic is made of fixed words, numbers, the path, and names of the program
(`Violation.madeOf_message`). The names are put in as they are, so the line is one line if and only if all of
its names are, and a name with a line break can look like a further diagnostic (`forged_line`). Over
identifiers without line breaks the output has as many lines as there are diagnostics
(`line_breaks_come_from_names`).
-/

namespace CoolTypes

/-! ## Texts made of parts -/

namespace Text

/-- The characters at which a line ends. -/
def lineBreaks : List Char := ['\n', '\x0b', '\x0c', '\r', '\x85', '\u2028', '\u2029']

/-- A text without line breaks. -/
def OneLine (text : String) : Prop := ∀ c ∈ text.toList, c ∉ lineBreaks

instance : DecidablePred OneLine := fun text => List.decidableBAll _ text.toList

theorem OneLine.count_newline {text : String} (h : OneLine text) : text.toList.count '\n' = 0 :=
  List.count_eq_zero.mpr fun hmem => h '\n' hmem (by decide)

/-- The visible characters of ASCII, and the blank. -/
def Graphic (c : Char) : Prop := 32 ≤ c.toNat ∧ c.toNat ≤ 126

instance : DecidablePred Graphic := fun _ => inferInstanceAs (Decidable (_ ∧ _))

/-- A text of such characters only. -/
def AllGraphic (text : String) : Prop := ∀ c ∈ text.toList, Graphic c

instance : DecidablePred AllGraphic := fun text => List.decidableBAll _ text.toList

theorem AllGraphic.append {a b : String} (ha : AllGraphic a) (hb : AllGraphic b) :
    AllGraphic (a ++ b) := by
  intro c hc
  rw [String.toList_append, List.mem_append] at hc
  exact hc.elim (ha c) (hb c)

theorem AllGraphic.ticked {name : String} (h : AllGraphic name) : AllGraphic (ticked name) :=
  ((by decide : AllGraphic "`").append h).append (by decide)

/-- Numbers are written in digits. -/
theorem AllGraphic.number (n : Nat) : AllGraphic (toString n) := by
  intro c hc
  rw [Nat.toString_eq_ofList_toDigits, String.toList_ofList] at hc
  have hdigit : c.isDigit = true := Nat.isDigit_of_mem_toDigits (by decide) (by decide) hc
  have hlow : 48 ≤ c.toNat := (Char.isDigit_iff_toNat.mp hdigit).1
  have hhigh : c.toNat ≤ 57 := (Char.isDigit_iff_toNat.mp hdigit).2
  constructor <;> omega

/-- All characters that are not graphic come from the parts. -/
def MadeOf (text : String) (parts : List String) : Prop :=
  ∀ c, ¬ Graphic c → text.toList.count c = (String.join parts).toList.count c

namespace MadeOf

variable {a b : String} {ps qs : List String}

theorem fixed (h : AllGraphic a) : MadeOf a [] := by
  intro c hc
  exact List.count_eq_zero.mpr fun hmem => hc (h c hmem)

theorem part (a : String) : MadeOf a [a] := by
  intro c _
  rw [String.join_cons, String.join_nil, String.append_empty]

theorem append (ha : MadeOf a ps) (hb : MadeOf b qs) : MadeOf (a ++ b) (ps ++ qs) := by
  intro c hc
  rw [String.toList_append, List.count_append, ha c hc, hb c hc, String.join_append,
    String.toList_append, List.count_append]

/-- A text goes on with a fixed word. -/
theorem word (ha : MadeOf a ps) (hb : AllGraphic b) : MadeOf (a ++ b) ps := by
  simpa using ha.append (fixed hb)

/-- A text goes on with a name. -/
theorem name (ha : MadeOf a ps) (n : String) : MadeOf (a ++ ticked n) (ps ++ [n]) := by
  have hmark : AllGraphic "`" := by decide
  have hticked : MadeOf (ticked n) [n] := ((fixed hmark).append (part n)).word hmark
  exact ha.append hticked

/-- A text is one line if and only if all of its parts are. -/
theorem oneLine_iff (h : MadeOf a ps) : OneLine a ↔ ∀ p ∈ ps, OneLine p := by
  have hbreak : ∀ c ∈ lineBreaks, ¬ Graphic c := by
    simp only [lineBreaks, List.forall_mem_cons, List.not_mem_nil, false_implies, implies_true, and_true]
    decide
  have hcount : ∀ c ∈ lineBreaks, c ∉ a.toList ↔ ∀ p ∈ ps, c ∉ p.toList := by
    intro c hc
    rw [← List.count_eq_zero, h c (hbreak c hc), List.count_eq_zero, String.toList_join, List.mem_flatMap]
    simp only [not_exists, not_and]
  constructor
  · intro ha p hp c hmem hc
    exact (hcount c hc).mp (fun hca => ha c hca hc) p hp hmem
  · intro hps c hca hc
    exact (hcount c hc).mpr (fun p hp hmem => hps p hp c hmem hc) hca

end MadeOf

end Text

open Text

/-! ## Messages -/

/-- The names and types that a violation shows. -/
def Violation.names {ν : Type} : Violation ν ν → List ν
  | illegalParent n _ | multipleClassDefinition n | inheritanceCycle n | undeclaredType n
  | undeclaredIdentifier n | duplicateCaseType n | multipleDefinition _ n => [n]
  | unresolvedParent m n | undeclaredMethod m n | mismatchedTypes m n | invalidOverride m n _ => [m, n]
  | builtinRedefined _ | noMainClass | illegalSelfType _ | argumentCount .. | illegalSelf => []

theorem BuiltinClass.allGraphic_name (b : BuiltinClass) : AllGraphic b.name := by
  cases b <;> decide

theorem allGraphic_plural (n : Nat) : AllGraphic (plural n) := by
  unfold plural
  split <;> decide

theorem Repeated.allGraphic_text (r : Repeated) : AllGraphic r.text := by
  cases r with
  | attr _ => exact (by decide : AllGraphic "attribute")
  | method | parameter => decide

theorem Mismatch.allGraphic_text (d : Mismatch) : AllGraphic d.text := by
  cases d with
  | paramCount e a =>
    have hstart : AllGraphic ("expected " ++ toString e ++ " parameter") :=
      ((by decide : AllGraphic "expected ").append (.number e)).append (by decide)
    exact ((hstart.append (allGraphic_plural e)).append (by decide)).append (.number a)
  | paramType i =>
    exact ((by decide : AllGraphic "the type of parameter #").append (.number (i + 1))).append
      (by decide)
  | returnType => decide

/-- A message is made of fixed words, numbers and the names that it shows. -/
theorem Violation.madeOf_message (v : Violation String String) : MadeOf v.message v.names := by
  -- each message goes on by a word or a name at its end, so the steps stand in the order of the text
  cases v with
  | illegalParent c p =>
    have hname : MadeOf ("class " ++ ticked c ++ " inherits from the built-in class ") [c] :=
      ((MadeOf.fixed (by decide)).name c).word (by decide)
    exact (hname.word p.allGraphic_name.ticked).word (by decide)
  | builtinRedefined b => exact (MadeOf.fixed (by decide)).word b.allGraphic_name.ticked
  | multipleClassDefinition c | inheritanceCycle c | undeclaredType c | duplicateCaseType c =>
    exact ((MadeOf.fixed (by decide)).name c).word (by decide)
  | unresolvedParent c p =>
    exact ((((MadeOf.fixed (by decide)).name c).word (by decide)).name p).word (by decide)
  | noMainClass => exact .fixed (by decide)
  | illegalSelfType p => exact (MadeOf.fixed (by decide)).word (by cases p <;> decide)
  | undeclaredIdentifier n => exact (MadeOf.fixed (by decide)).name n
  | undeclaredMethod c m | mismatchedTypes c m =>
    exact (((MadeOf.fixed (by decide)).name c).word (by decide)).name m
  | argumentCount e s =>
    have htakes : AllGraphic ("this method takes " ++ toString e ++ " argument" ++ plural e) :=
      (((by decide : AllGraphic "this method takes ").append (.number e)).append (by decide)).append
        (allGraphic_plural e)
    have hsupplied : AllGraphic (if s = 1 then " was" else " were") := by
      split <;> decide
    exact .fixed <| (((((htakes.append (by decide)).append (.number s)).append (by decide)).append
      (allGraphic_plural s)).append hsupplied).append (by decide)
  | multipleDefinition r n =>
    have hname : MadeOf ("detected multiple definition: " ++ r.text ++ " " ++ ticked n) [n] :=
      (((MadeOf.fixed (by decide)).word r.allGraphic_text).word (by decide)).name n
    exact (hname.word (by decide)).word (by split <;> decide)
  | invalidOverride m a d =>
    have hnames : MadeOf ("method " ++ ticked m ++ " overrides the one defined in " ++ ticked a) [m, a] :=
      (((MadeOf.fixed (by decide)).name m).word (by decide)).name a
    exact (hnames.word (by decide)).word d.allGraphic_text
  | illegalSelf => exact .fixed (by decide)

theorem UnknownSymbol.madeOf_message (e : UnknownSymbol) : MadeOf e.message [] := by
  have hindex : AllGraphic ("symbol #" ++ toString e.index ++ " is out of range of the ") :=
    ((by decide : AllGraphic "symbol #").append (.number e.index)).append (by decide)
  have htable : AllGraphic e.table.text := by
    cases e.table <;> decide
  exact .fixed <| (((hindex.append htable).append (by decide)).append (.number e.size)).append (by decide)

theorem Span.allGraphic_text (s : Span) : AllGraphic s.text :=
  ((AllGraphic.number s.start.line).append (by decide)).append (.number s.start.col)

/-- Texts of a table are one line if all of its entries are. -/
theorem SymbolTables.oneLine_textOf {t : SymbolTables} (h : ∀ text ∈ t.ids.entries, OneLine text)
    (s : Symbol) : OneLine (t.textOf s) := by
  unfold textOf
  cases htext : t.ids.get? s with
  | none => exact (by decide : OneLine "")
  | some text => exact h text (List.mem_of_getElem? htext)

theorem Ty.oneLine_textOf {t : SymbolTables} (h : ∀ text ∈ t.ids.entries, OneLine text) (ty : Ty) :
    OneLine (ty.textOf t) := by
  cases ty with
  | named c => exact t.oneLine_textOf h c
  | selfType => exact h "SELF_TYPE" (t.complete .selfType)

theorem Violation.oneLine_names {t : SymbolTables} (h : ∀ text ∈ t.ids.entries, OneLine text)
    (v : Violation Symbol Ty) : ∀ n ∈ (v.map t.textOf (Ty.textOf t)).names, OneLine n := by
  have hname := t.oneLine_textOf h
  have htype := Ty.oneLine_textOf h
  cases v <;> simp [Violation.map, Violation.names, hname, htype]

/-! ## Lines -/

namespace PlacedError

/-- The diagnostic that reports an error. -/
def reported (e : PlacedError) : Diagnostic := ⟨.error, ⟨e.message, some e.span⟩, some (.placed e)⟩

/-- The names that an error shows. -/
def names : PlacedError → List String
  | typeError e => e.violation.names
  | unknownSymbol _ => []

theorem madeOf_message (e : PlacedError) : MadeOf e.message e.names := by
  cases e with
  | typeError e => exact e.violation.madeOf_message
  | unknownSymbol e => exact e.madeOf_message

end PlacedError

namespace CommandLine

/-- The text of lines on the standard error. -/
def written (lines : List String) : String := .join (lines.map (· ++ "\n"))

/-- Each line ends once, and may have further ends within. -/
theorem count_written (lines : List String) : (written lines).toList.count '\n' =
    lines.length + (String.join lines).toList.count '\n' := by
  unfold written
  induction lines with
  | nil => rfl
  | cons l rest ih =>
    have hend : "\n".toList.count '\n' = 1 := by decide
    simp only [List.map_cons, String.join_cons, String.toList_append, List.count_append, ih, hend,
      List.length_cons]
    omega

variable (path : Option String) (e : PlacedError)

/-- The line of an error is made of its path and the names that it shows. -/
theorem madeOf_line : MadeOf (line .plain path e.reported) (path.toList ++ e.names) := by
  have h := e.madeOf_message
  have hspan := e.span.allGraphic_text
  cases path with
  | none =>
    have hplace : AllGraphic ("error:" ++ " " ++ (e.span.text ++ ": ")) :=
      (by decide : AllGraphic ("error:" ++ " ")).append (hspan.append (by decide))
    exact (MadeOf.fixed hplace).append h
  | some p =>
    have hplace : MadeOf (p ++ ":" ++ e.span.text ++ ": ") [p] :=
      (((MadeOf.part p).word (by decide)).word hspan).word (by decide)
    have hstart : MadeOf ("error:" ++ " " ++ (p ++ ":" ++ e.span.text ++ ": ")) [p] :=
      (MadeOf.fixed (by decide : AllGraphic ("error:" ++ " "))).append hplace
    exact hstart.append h

/-- Errors are shown as lines that start with the level. Each of them is one line if and only if the names that
it shows are, and the line ends in the names are the only further ones in the output. -/
structure Shown (path : Option String) (es : List PlacedError) : Prop where
  starts : ∀ e ∈ es, ∃ rest, line .plain path e.reported = "error: " ++ rest
  oneLine_iff : ∀ e ∈ es, OneLine (line .plain path e.reported) ↔ ∀ n ∈ e.names, OneLine n
  count : (written (es.map fun e => line .plain path e.reported)).toList.count '\n' =
    es.length + (String.join (es.flatMap PlacedError.names)).toList.count '\n'

/-- Each of the errors is shown as one line, and the output has no further lines. -/
def OneLineEach (path : Option String) (es : List PlacedError) : Prop :=
  (∀ e ∈ es, OneLine (line .plain path e.reported)) ∧
    (written (es.map fun e => line .plain path e.reported)).toList.count '\n' = es.length

variable {path}

theorem shown (hpath : ∀ p ∈ path, OneLine p) (es : List PlacedError) : Shown path es where
  starts e _ := by
    refine ⟨placeText path (some e.span) ++ e.message, ?_⟩
    rw [← String.append_assoc]
    rfl
  oneLine_iff e _ := by
    rw [(madeOf_line path e).oneLine_iff, List.forall_mem_append]
    exact and_iff_right fun p hp => hpath p (Option.mem_toList.mp hp)
  count := by
    have hline : ∀ e : PlacedError, (line .plain path e.reported).toList.count '\n' =
        (String.join e.names).toList.count '\n' := by
      intro e
      have hplace : (String.join path.toList).toList.count '\n' = 0 := by
        cases path with
        | none => rfl
        | some p => simpa using (hpath p rfl).count_newline
      rw [madeOf_line path e '\n' (by decide), String.join_append, String.toList_append,
        List.count_append, hplace, Nat.zero_add]
    rw [count_written, List.length_map]
    congr 1
    -- neither the path nor the fixed words add a line end, so those of the names are counted line by line
    induction es with
    | nil => rfl
    | cons e rest ih =>
      rw [List.map_cons, List.flatMap_cons, String.join_cons, String.join_append, String.toList_append,
        String.toList_append, List.count_append, List.count_append, hline e, ih]

theorem Shown.oneLineEach {es : List PlacedError} (h : Shown path es)
    (hnames : ∀ e ∈ es, ∀ n ∈ e.names, OneLine n) : OneLineEach path es := by
  refine ⟨fun e he => (h.oneLine_iff e he).mpr (hnames e he), ?_⟩
  have hnone : OneLine (String.join (es.flatMap PlacedError.names)) := by
    intro c hc
    rw [String.toList_join, List.mem_flatMap] at hc
    obtain ⟨n, hn, hc⟩ := hc
    obtain ⟨e, he, hn⟩ := List.mem_flatMap.mp hn
    exact hnames e he n hn c hc
  rw [h.count, hnone.count_newline, Nat.add_zero]

end CommandLine

open CommandLine

/-- An analysis shows names of the table only. -/
theorem CompilationUnit.oneLine_told {u : CompilationUnit}
    (h : ∀ text ∈ u.tables.ids.entries, OneLine text) {stage : Stage} :
    ∀ e ∈ u.told stage, ∀ n ∈ e.violation.names, OneLine n := by
  intro e he
  obtain ⟨r, -, rfl⟩ := List.mem_map.mp he
  refine r.violation.oneLine_names fun text htext => h text ?_
  rwa [← ids_addClassLiterals]

/-- Under a path without line breaks, all that the check of symbols and an analysis report about a unit is shown
as lines that start with the level. The check shows no names, so each of its diagnostics is one line. A
diagnostic of an analysis is one line if and only if the names that it shows are, so each is one line if no
identifier has a line break. -/
theorem line_breaks_come_from_names (path : Option String) (hpath : ∀ p ∈ path, OneLine p)
    (u : CompilationUnit) (s : Sink) :
    (∃ es : List PlacedError, (u.checkSymbols s).2.emitted = s.emitted ++ es.map PlacedError.reported ∧
      Shown path es ∧ OneLineEach path es) ∧
    ∀ stage a v s', u.analyze stage s = .ok (a, v, s') →
      ∃ es : List PlacedError, s'.emitted = s.emitted ++ es.map PlacedError.reported ∧ Shown path es ∧
        ((∀ text ∈ u.tables.ids.entries, OneLine text) → OneLineEach path es) := by
  constructor
  · refine ⟨u.unknownSymbols.map .unknownSymbol, Sink.emitted_reportAll _ _, shown hpath _,
      (shown hpath _).oneLineEach fun e he => ?_⟩
    obtain ⟨_, _, rfl⟩ := List.mem_map.mp he
    simp [PlacedError.names]
  · intro stage a v s' hs'
    obtain ⟨-, -, rfl⟩ := CompilationUnit.eq_of_analyze hs'
    refine ⟨(u.told stage).map .typeError, Sink.emitted_reportAll _ _, shown hpath _, fun hids =>
      (shown hpath _).oneLineEach fun e he => ?_⟩
    obtain ⟨d, hd, rfl⟩ := List.mem_map.mp he
    exact CompilationUnit.oneLine_told hids d hd

/-- Without line breaks in identifiers, each of several diagnostics is one line. -/
theorem line_breaks_come_from_names_mistaken :
    OneLine "units/main.ron" ∧ ∃ a v s es, mistakenUnit.analyze .typing {} = .ok (a, v, s) ∧
      s.emitted = es.map PlacedError.reported ∧ es.length = 10 ∧ OneLineEach (some "units/main.ron") es := by
  have hpath : OneLine "units/main.ron" := by decide
  obtain ⟨-, hanalysis⟩ := line_breaks_come_from_names (some "units/main.ron")
    (fun p hp => Option.some.inj hp ▸ hpath) mistakenUnit {}
  have hrun := mistakenUnit_symbolValid.analyze_eq .typing {}
  obtain ⟨es, hes, -, heach⟩ := hanalysis .typing _ _ _ hrun
  refine ⟨hpath, _, _, _, es, hrun, hes, ?_, heach (by decide +kernel)⟩
  have hten : (mistakenUnit.told .typing).length = 10 := by decide +kernel
  have hcount := congrArg List.length hes
  simpa [Sink.reportTypeErrors, Sink.emitted_reportAll, hten] using hcount.symm

/-- A class under a parent class that is not there. The name of the parent class goes on in a second line. -/
def forgedUnit : CompilationUnit where
  tables := .ofParts ((Interner.empty.insert "A\nerror: forged").insert "Main") .empty .empty
  program := ⟨[⟨⟨⟨1⟩, .synthetic⟩, ⟨⟨0⟩, .synthetic⟩, ⟨1⟩, [], .synthetic⟩], .synthetic⟩

/-- A unit that is loaded and passes the check of symbols can make one diagnostic look like two. -/
theorem forged_line : OneLine "u.ron" ∧ ∃ text a v s d, CompilationUnit.load text = .ok forgedUnit ∧
    (forgedUnit.checkSymbols {}).1 = true ∧ forgedUnit.analyze .typing {} = .ok (a, v, s) ∧
    s.emitted = [d] ∧ line .plain (some "u.ron") d =
      "error: u.ron:1:1: class `Main` inherits from a class `A\nerror: forged` that doesn't exist" ∧
    ¬ OneLine (line .plain (some "u.ron") d) ∧
    (written [line .plain (some "u.ron") d]).toList.count '\n' = 2 := by
  have hfits : forgedUnit.program.Fits := by
    refine ⟨fun c hc => ?_, Span.fits_synthetic⟩
    cases List.mem_singleton.mp hc
    have hsmall : ∀ i < 2, (Symbol.mk i).Fits := fun i hi => Nat.lt_trans hi (by decide)
    exact ⟨⟨hsmall 1 (by decide), Span.fits_synthetic⟩, ⟨hsmall 0 (by decide), Span.fits_synthetic⟩,
      hsmall 1 (by decide), by simp, Span.fits_synthetic⟩
  have hcheck : (forgedUnit.checkSymbols {}).1 = true := by decide +kernel
  have hrun := (CompilationUnit.checkSymbols_eq_true_iff.mp hcheck).analyze_eq .typing {}
  have htold : forgedUnit.told .typing =
      [⟨.unresolvedParent "Main" "A\nerror: forged", .synthetic⟩] := by decide +kernel
  refine ⟨by decide, _, _, _, _,
    PlacedError.reported (.typeError ⟨.unresolvedParent "Main" "A\nerror: forged", .synthetic⟩),
    CompilationUnit.load_page hfits (by decide +kernel), hcheck, hrun, ?_, by decide +kernel, by decide +kernel,
    by decide +kernel⟩
  rw [htold]
  rfl

end CoolTypes
