import CoolTypes.Dump.Format
import CoolTypes.Proofs.Unit.Spellings

/-!
# Loading undoes dumping

A unit that is dumped as a text to be loaded is the unit that is loaded from the text (`load_dump`): the
text is one of the spellings of the unit. This holds for every codec that is as described.
-/

namespace CoolTypes

open Notation

/-- What a unit is dumped as is loaded as the unit, if it is loaded at all. -/
theorem Notation.Codec.eq_of_load_dump {c : Codec} (hc : c.Described) {u w : CompilationUnit}
    (h : u.program.Fits) {text : String} (htext : c.dump u = .ok text) (hw : c.load text = .ok w) :
    w = u := by
  have hprint := CompilationUnit.printable h
  exact eq_of_load hc hprint.writes (layout_of_dump hc h htext) h (hprint.respells []) hw

/-- The page of a unit whose brackets are not nested too deep is loaded as the unit. -/
theorem CompilationUnit.load_page {u : CompilationUnit} (h : u.program.Fits)
    (hdepth : u.toValue.depth < Codec.standard.limit) :
    CompilationUnit.load (u.toValue.page 0 ++ "\n") = .ok u := by
  have hprint : Codec.standard.print u.toValue = .ok (u.toValue.page 0) :=
    if_neg (Nat.not_lt.mpr (Nat.le_of_lt hdepth))
  have hdump : Codec.standard.dump u = .ok (u.toValue.page 0 ++ "\n") := by
    rw [Codec.dump, hprint]
    rfl
  exact Codec.load_of_isSpelling Codec.standard_described h
    (Codec.isSpelling_of_dump Codec.standard_described h hdepth hdump)

/-- With a codec that is as described, a unit whose brackets are not nested too deep is dumped to be loaded,
and it is the unit that is loaded, tables and program, and so the loaded unit is dumped as the same text. Its
texts can have any characters, its symbols can lie outside of the tables, and nodes can carry types or not. -/
theorem load_dump (c : Codec) (hc : c.Described) (u : CompilationUnit) (h : u.program.Fits)
    (hdepth : u.toValue.depth < c.limit) :
    ∃ text, u.dump c .loadable = .ok (.ok text) ∧ c.load text = .ok u ∧
      ∀ u', c.load text = .ok u' → u'.dump c .loadable = .ok (.ok text) := by
  obtain ⟨text, htext⟩ := c.dump_eq_ok hc h hdepth
  have hdump : u.dump c .loadable = .ok (.ok text) := congrArg Except.ok htext
  refine ⟨text, hdump, c.load_of_isSpelling hc h (c.isSpelling_of_dump hc h hdepth htext), ?_⟩
  intro u' hu'
  rw [Codec.eq_of_load_dump hc h htext hu']
  exact hdump

/-- The last place of the last line that a position can name. -/
def lastPlace : Span :=
  .point (UInt64.size - 1) (UInt64.size - 1)

/-- A unit at the bounds: a string literal of special characters, symbols that no table has, the last
place of all, an attribute with a static type and one without initial value. -/
def edgeUnit : CompilationUnit where
  tables := (SymbolTables.initial.addString "\"\x27\\\x00\n\t\r\x7f\u0301\u200b\ufeff").2
  program :=
    let last : Name := ⟨⟨UInt32.size - 1⟩, lastPlace⟩
    ⟨[⟨last, BasicClass.name .initial .object, ⟨0⟩,
        [.attr ⟨last, last, some (.string ⟨0⟩ .synthetic (some (.named ⟨UInt32.size - 1⟩))),
            lastPlace⟩,
          .attr ⟨last, last, none, .synthetic⟩],
        lastPlace⟩], lastPlace⟩

theorem load_dump_edgeUnit : Codec.standard.Described ∧ edgeUnit.program.Fits ∧
    edgeUnit.toValue.depth < Codec.standard.limit ∧
      ∃ text, edgeUnit.dump .standard .loadable = .ok (.ok text) ∧
        CompilationUnit.load text = .ok edgeUnit := by
  have hplace : lastPlace.Fits := ⟨⟨by decide, by decide⟩, ⟨by decide, by decide⟩⟩
  have hsynthetic : Span.synthetic.Fits := ⟨⟨by decide, by decide⟩, ⟨by decide, by decide⟩⟩
  have hlast : Name.Fits ⟨⟨UInt32.size - 1⟩, lastPlace⟩ := by
    constructor
    · show UInt32.size - 1 < UInt32.size
      decide
    · exact hplace
  have hobject : (BasicClass.name .initial .object).Fits := by
    constructor
    · show (SymbolTables.known .initial .object).index < UInt32.size
      decide +kernel
    · exact hsynthetic
  have hzero : Symbol.Fits ⟨0⟩ := by
    show 0 < UInt32.size
    decide
  have hinit : Expr.Fits (.string ⟨0⟩ .synthetic (some (.named ⟨UInt32.size - 1⟩))) := by
    apply Expr.Fits.string hzero hsynthetic
    rintro T ⟨⟩
    exact hlast.symbol
  have hfits : edgeUnit.program.Fits := by
    refine ⟨?_, hplace⟩
    intro c hc
    cases List.mem_singleton.mp hc
    refine ⟨hlast, hobject, hzero, ?_, hplace⟩
    intro f hf
    rcases List.mem_cons.mp hf with rfl | hf
    · refine ⟨hlast, hlast, ?_, hplace⟩
      rintro i ⟨⟩
      exact hinit
    · cases List.mem_singleton.mp hf
      exact ⟨hlast, hlast, by simp, hsynthetic⟩
  have hdepth : edgeUnit.toValue.depth < Codec.standard.limit := by decide +kernel
  obtain ⟨text, hdump, hload, _⟩ :=
    load_dump .standard Codec.standard_described edgeUnit hfits hdepth
  exact ⟨Codec.standard_described, hfits, hdepth, text, hdump, hload⟩

end CoolTypes
