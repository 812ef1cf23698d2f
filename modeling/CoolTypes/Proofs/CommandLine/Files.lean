import CoolTypes.CommandLine.Surroundings
import CoolTypes.Proofs.CommandLine.Console
import CoolTypes.Proofs.Reanalysis
import CoolTypes.Proofs.Unit.Loading

/-!
# Runs over several files

A run shares one console among all of its files. Each stage still treats its files one by one: what a run shows
is, file by file and in order, what the stage reports about the file alone, and no stage starts unless all
earlier ones were silent about all files (`files_run_alone`). This holds on every host: whatever the codec reads
and prints, and whatever is logged.
-/

namespace CoolTypes

/-- The listener of a sink is shown every error that is reported. -/
theorem Sink.heard_reportAll {s : Sink} {listener : Diagnostic → String}
    (h : s.listener = some listener) (es : List PlacedError) :
    (s.reportAll es).heard = s.heard ++ (Sink.reportAll {} es).emitted.map listener := by
  have hall : (s.reportAll es).heard = s.heard ++
      es.map fun e => listener ⟨.error, ⟨e.message, some e.span⟩, some (.placed e)⟩ := by
    unfold reportAll
    induction es generalizing s with
    | nil => simp
    | cons e rest ih =>
      rw [List.foldl_cons, ih (s := s.report e) h]
      simp [report, emit, h]
  rw [hall, emitted_reportAll, List.nil_append, List.map_map]
  rfl

/-- Errors that are reported to a listener are shown as it shows what an empty sink would keep. -/
theorem Sink.shows_reportAll (listener : Diagnostic → String) (s : Sink) (es : List PlacedError) :
    s.Shows ((s.listen listener).reportAll es) ((Sink.reportAll {} es).emitted.map listener) := by
  refine ⟨heard_reportAll rfl es, ?_⟩
  simp [count, emitted_reportAll, listen]

/-- In tables with room, the analysis of a symbol-valid unit comes to an end. -/
theorem CompilationUnit.SymbolValid.analyzeNarrow_faultless {u : CompilationUnit}
    (h : u.SymbolValid) (hroom : u.HasRoom) (stage : Stage) :
    Faultless (u.analyzeNarrow stage {}) := by
  rw [u.analyzeNarrow_eq hroom, h.analyze_eq]
  exact .ok _

/-- An analysis that comes to an end is the one without a bound, whatever the sink holds. -/
theorem CompilationUnit.SymbolValid.analyzeNarrow_eq {u : CompilationUnit} (h : u.SymbolValid)
    {stage : Stage} (hrun : Faultless (u.analyzeNarrow stage {})) (s : Sink) :
    u.analyzeNarrow stage s =
      .ok (u.analysis stage, u.analyzed stage, s.reportTypeErrors (u.told stage)) := by
  rcases u.analyzeNarrow_cases with hsame | hfull
  · rw [hsame, h.analyze_eq stage s]
  · obtain ⟨_, hok⟩ := hrun
    cases (hfull stage {}).symm.trans hok

/-- An analysis that does not come to an end finds no number for the name of a basic class. -/
theorem CompilationUnit.SymbolValid.analyzeNarrow_of_not_faultless {u : CompilationUnit}
    (h : u.SymbolValid) {stage : Stage} (hrun : ¬ Faultless (u.analyzeNarrow stage {})) (s : Sink) :
    u.analyzeNarrow stage s = .error .tableOverflow := by
  rcases u.analyzeNarrow_cases with hsame | hfull
  · exact absurd ⟨_, (hsame stage {}).trans (h.analyze_eq stage {})⟩ hrun
  · exact hfull stage s

namespace CommandLine

/-- A line about an error at a place in a file. -/
def Located (style : Style) (path : String) (l : String) : Prop :=
  ∃ span text, l = style.tag .error ++ " " ++ (path ++ ":" ++ Span.text span ++ ": ") ++ text

theorem located_of_mem {style : Style} {path : String} {es : List PlacedError} :
    ∀ l ∈ (Sink.reportAll {} es).emitted.map (line style (some path)), Located style path l := by
  intro l hl
  rw [Sink.emitted_reportAll, List.nil_append, List.map_map] at hl
  obtain ⟨e, _, rfl⟩ := List.mem_map.mp hl
  exact ⟨e.span, e.message, rfl⟩

/-- The unit after its analysis. -/
def LoadedUnit.analyzed (stage : Stage) (u : LoadedUnit) : LoadedUnit :=
  ⟨u.path, u.unit.analyzed stage⟩

namespace Host

variable (h : Host)

/-! ## Loading -/

/-- The unit that a file holds, if it holds one. -/
def loaded? (f : InputFile) : Option LoadedUnit :=
  match f.text with
  | .error _ => none
  | .ok text =>
    match h.codec.load text with
    | .ok u => some ⟨f.path, u⟩
    | .error _ => none

variable {h} in
theorem loaded?_eq_some {f : InputFile} {text : String} {u : CompilationUnit}
    (htext : f.text = .ok text) (hload : h.codec.load text = .ok u) :
    h.loaded? f = some ⟨f.path, u⟩ := by
  unfold loaded?
  rw [htext]
  dsimp only
  rw [hload]

/-- What is shown about a file that holds no unit. Only what has been read is located by its path. -/
def complaint? (f : InputFile) : Option String :=
  match f.text with
  | .error reason => some (line h.style none (unreadable f.path reason))
  | .ok text =>
    match h.codec.load text with
    | .ok _ => none
    | .error e => some (line h.style (some f.path) (malformed h.codec text e))

variable {h} {f : InputFile}

theorem complaint?_eq_none_iff : h.complaint? f = none ↔ h.loaded? f ≠ none := by
  unfold complaint? loaded?
  cases f.text with
  | error reason => simp
  | ok text =>
    dsimp only
    cases h.codec.load text <;> simp

/-- A complaint about a file that has been read is located by the path. -/
theorem located_of_complaint {text l : String} (htext : f.text = .ok text)
    (hl : h.complaint? f = some l) :
    ∃ message, l = h.style.tag .error ++ " " ++ (f.path ++ ": ") ++ message := by
  unfold complaint? at hl
  rw [htext] at hl
  dsimp only at hl
  cases hload : h.codec.load text with
  | ok u =>
    rw [hload] at hl
    cases hl
  | error e =>
    rw [hload] at hl
    cases hl
    exact ⟨_, rfl⟩

open Run (Tells Fails Ends)

variable (h)

theorem loadFile_tells (f : InputFile) :
    Tells none (h.loadFile f) (h.loaded? f) (h.complaint? f).toList := by
  unfold loadFile loaded? complaint?
  cases f.text with
  | error reason => exact (Tells.emit h.style _).bind (.pure none)
  | ok text =>
    dsimp only
    cases h.codec.load text with
    | ok u => exact .pure _
    | error e => exact (Tells.emit h.style _).withPath.bind (.pure none)

theorem loadAll_tells (files : List InputFile) :
    Tells none (h.loadAll files) (files.filterMap h.loaded?) (files.filterMap h.complaint?) := by
  have hall := Tells.mapM fun (f : InputFile) (_ : f ∈ files) => h.loadFile_tells f
  have hunits : (files.map h.loaded?).filterMap id = files.filterMap h.loaded? := by
    rw [List.filterMap_map]
    rfl
  rw [← hunits, List.filterMap_eq_flatMap_toList h.complaint?, ← List.append_nil (List.flatMap _ _)]
  exact hall.bind (.pure _)

/-! ## Checks of single units -/

/-- What the check of symbols shows about a unit alone. -/
def symbolLines (u : LoadedUnit) : List String :=
  (u.unit.checkSymbols {}).2.emitted.map (line h.style (some u.path))

variable {h} in
theorem symbolLines_eq_nil_iff {u : LoadedUnit} : h.symbolLines u = [] ↔ u.unit.SymbolValid := by
  rw [← CompilationUnit.checkSymbols_eq_true_iff (s := {}), symbolLines]
  simp [CompilationUnit.checkSymbols, Sink.emitted_reportAll]

/-- The symbols of all units are checked one by one. -/
theorem checkAll_tells (us : List LoadedUnit) :
    Tells none (h.checkAll us) us (us.flatMap h.symbolLines) := by
  have hall : Tells none (h.checkAll us) (us.map id) (us.flatMap h.symbolLines) := by
    refine Tells.mapM fun u _ => .withPath (.withSink fun s => ?_)
    exact ⟨_, rfl, Sink.shows_reportAll _ s _⟩
  rwa [List.map_id] at hall

/-- What the analysis shows about a unit alone. -/
def analysisLines (stage : Stage) (u : LoadedUnit) : List String :=
  match u.unit.analyzeNarrow stage {} with
  | .ok (_, _, s) => s.emitted.map (line h.style (some u.path))
  | .error _ => []

section

variable {h} {stage : Stage} {u : LoadedUnit} (hvalid : u.unit.SymbolValid)

include hvalid

theorem analysisLines_eq (hrun : Faultless (u.unit.analyzeNarrow stage {})) :
    h.analysisLines stage u = (Sink.reportTypeErrors {} (u.unit.told stage)).emitted.map
      (line h.style (some u.path)) := by
  rw [analysisLines, hvalid.analyzeNarrow_eq hrun]

theorem located_of_mem_analysisLines :
    ∀ l ∈ h.analysisLines stage u, Located h.style u.path l := by
  by_cases hrun : Faultless (u.unit.analyzeNarrow stage {})
  · rw [analysisLines_eq hvalid hrun]
    exact located_of_mem
  · rw [analysisLines, hvalid.analyzeNarrow_of_not_faultless hrun]
    simp

theorem analyzeUnit_tells (hrun : Faultless (u.unit.analyzeNarrow stage {})) :
    Tells none (h.analyzeUnit stage u) (u.analyzed stage) (h.analysisLines stage u) := by
  rw [analysisLines_eq hvalid hrun]
  refine .withPath (.withSink fun s => ⟨_, ?_, Sink.shows_reportAll _ s _⟩)
  exact bind_eq_ok.mpr ⟨_, hvalid.analyzeNarrow_eq hrun _, rfl⟩

theorem analyzeUnit_fails (hrun : ¬ Faultless (u.unit.analyzeNarrow stage {})) :
    Fails none (h.analyzeUnit stage u) .tableOverflow := by
  refine .withPath (.withSink fun s => ?_)
  rw [hvalid.analyzeNarrow_of_not_faultless hrun]
  rfl

end

section

variable {h} {stage : Stage} {us : List LoadedUnit} (hvalid : ∀ u ∈ us, u.unit.SymbolValid)

include hvalid

/-- Units that pass the check of symbols are analysed one by one. -/
theorem analyzeAll_tells (hrun : ∀ u ∈ us, Faultless (u.unit.analyzeNarrow stage {})) :
    Tells none (h.analyzeAll stage us) (us.map (·.analyzed stage))
      (us.flatMap (h.analysisLines stage)) :=
  .mapM fun u hu => analyzeUnit_tells (hvalid u hu) (hrun u hu)

/-- If there is no room for the basic classes in one of the units, the run ends there. -/
theorem analyzeAll_fails (hrun : ∃ u ∈ us, ¬ Faultless (u.unit.analyzeNarrow stage {})) :
    Fails none (h.analyzeAll stage us) .tableOverflow := by
  obtain ⟨v, hv, hrun⟩ := hrun
  refine .mapM (fun u hu => ?_) ⟨v, hv, analyzeUnit_fails (hvalid v hv) hrun⟩
  by_cases hu' : Faultless (u.unit.analyzeNarrow stage {})
  · exact .inl ⟨_, _, analyzeUnit_tells (hvalid u hu) hu'⟩
  · exact .inr (analyzeUnit_fails (hvalid u hu) hu')

end

/-! ## Dumps -/

/-- What is shown about a dump that does not arrive. -/
def lossLine? (d : Dump) : Option String :=
  (d.loss? h.writeError).map fun reason => line h.style (some d.path) (lost reason)

/-- What the analysed units are dumped as. -/
def dumps (stage : Stage) (format : DumpFormat) (us : List LoadedUnit) : Except Fault (List Dump) :=
  us.mapM fun u => do
    let (_, unit, _) ← u.unit.analyzeNarrow stage {}
    return ⟨u.path, ← unit.dump h.codec format⟩

variable {h} in
theorem dumpAll_eq {stage : Stage} {format : DumpFormat} {us : List LoadedUnit} {ds : List Dump}
    (hvalid : ∀ u ∈ us, u.unit.SymbolValid)
    (hrun : ∀ u ∈ us, Faultless (u.unit.analyzeNarrow stage {}))
    (hdumps : h.dumps stage format us = .ok ds) :
    h.dumpAll format (us.map (·.analyzed stage)) = .ok ds := by
  rw [dumps, mapM_eq_ok_iff] at hdumps
  rw [dumpAll, mapM_eq_ok_iff, List.map_map, ← hdumps]
  refine List.map_congr_left fun u hu => ?_
  rw [(hvalid u hu).analyzeNarrow_eq (hrun u hu)]
  rfl

theorem reportLoss_tells (d : Dump) :
    Tells none (h.reportLoss d h.writeError) () (h.lossLine? d).toList := by
  unfold reportLoss lossLine?
  cases d.loss? h.writeError with
  | none => exact .pure ()
  | some reason => exact (Tells.emit h.style _).withPath

theorem conclude_tells (dumps : List Dump) :
    Tells none (h.conclude (dumps.map fun d => (d, h.writeError))) ()
      (dumps.filterMap h.lossLine?) := by
  rw [conclude, List.forM_eq_forM, List.forM_map, List.filterMap_eq_flatMap_toList]
  exact .forM fun d _ => h.reportLoss_tells d

/-! ## Whole runs -/

section

variable {h} {stage : Stage} {format : Option DumpFormat} {files : List InputFile}

/-- The outcome of a run has the lines that have been shown, and tells whether there were any. -/
theorem run_eq {dumps : List Dump} {lines all : List String}
    (hp : Ends (h.prepare stage format files) (.ok (dumps, lines)))
    (heq : lines ++ dumps.filterMap h.lossLine? = all) :
    h.run stage format files =
      .ok ⟨if all = [] then 0 else 1, h.arrived (dumps.filterMap Dump.text?),
        h.withLog all⟩ := by
  obtain ⟨s, hrun, hshows⟩ := hp {} rfl
  obtain ⟨s', hrun', hshows'⟩ := h.conclude_tells dumps s
  have hall := hshows.trans hshows'
  rw [heq] at hall
  have hcode : exitCode s' = if all = [] then 0 else 1 := by
    rw [exitCode, hall.hasErrors]
    cases all <;> rfl
  refine bind_eq_ok.mpr ⟨_, hrun, bind_eq_ok.mpr ⟨_, hrun', ?_⟩⟩
  show Except.ok (Outcome.mk (exitCode s') _ (h.withLog s'.heard)) = _
  rw [hcode, hall.heard]
  rfl

/-- The outcome of a run that dumps nothing. -/
theorem run_eq_of_no_dumps {lines : List String}
    (hp : Ends (h.prepare stage format files) (.ok ([], lines))) :
    h.run stage format files = .ok ⟨if lines = [] then 0 else 1, "", h.withLog lines⟩ := by
  have hnil : h.arrived [] = "" := ite_self _
  rw [run_eq hp (List.append_nil lines), List.filterMap_nil, hnil]

theorem run_eq_error {e : Fault} (hp : Ends (h.prepare stage format files) (.error e)) :
    h.run stage format files = .error e := by
  rw [run, hp {} rfl]
  rfl

/-- A run on files that cannot all be loaded. -/
theorem run_of_not_loaded (hfiles : ∃ f ∈ files, h.loaded? f = none) :
    h.run stage format files = .ok ⟨1, "", h.withLog (files.filterMap h.complaint?)⟩ := by
  have hne : files.filterMap h.complaint? ≠ [] := by
    obtain ⟨f, hf, hnone⟩ := hfiles
    rw [Ne, List.filterMap_eq_nil_iff]
    exact fun hall => complaint?_eq_none_iff.mp (hall f hf) hnone
  rw [run_eq_of_no_dumps ((h.loadAll_tells files).stop hne).ends, if_neg hne]

variable (hloaded : ∀ f ∈ files, h.loaded? f ≠ none)

include hloaded

theorem loadAll_tells_of_loaded :
    Tells none (h.loadAll files) (files.filterMap h.loaded?) [] := by
  have hnil : files.filterMap h.complaint? = [] :=
    List.filterMap_eq_nil_iff.mpr fun f hf => complaint?_eq_none_iff.mpr (hloaded f hf)
  exact hnil ▸ h.loadAll_tells files

/-- A run on loaded units not all of which pass the check of symbols. -/
theorem run_of_not_symbolValid
    (hunits : ∃ u ∈ files.filterMap h.loaded?, ¬ u.unit.SymbolValid) :
    h.run stage format files =
      .ok ⟨1, "", h.withLog ((files.filterMap h.loaded?).flatMap h.symbolLines)⟩ := by
  have hne : (files.filterMap h.loaded?).flatMap h.symbolLines ≠ [] := by
    obtain ⟨u, hu, hinvalid⟩ := hunits
    rw [Ne, List.flatMap_eq_nil_iff]
    exact fun hall => hinvalid (symbolLines_eq_nil_iff.mp (hall u hu))
  have hends : Ends (h.prepare stage format files)
      (.ok ([], (files.filterMap h.loaded?).flatMap h.symbolLines)) :=
    (loadAll_tells_of_loaded hloaded).go ((h.checkAll_tells _).stop hne).ends
  rw [run_eq_of_no_dumps hends, if_neg hne]

variable (hvalid : ∀ u ∈ files.filterMap h.loaded?, u.unit.SymbolValid)

include hvalid

/-- The analyses decide what a run on units comes to that pass the check of symbols. -/
theorem prepare_of_symbolValid {r : Except Fault (List Dump × List String)}
    (hr : Ends (do
      let us ← h.analyzeAll stage (files.filterMap h.loaded?)
      Run.unlessErrors (h.dumpIfAsked format us)) r) : Ends (h.prepare stage format files) r := by
  have hnil : (files.filterMap h.loaded?).flatMap h.symbolLines = [] :=
    List.flatMap_eq_nil_iff.mpr fun u hu => symbolLines_eq_nil_iff.mpr (hvalid u hu)
  have hcheck := h.checkAll_tells (files.filterMap h.loaded?)
  rw [hnil] at hcheck
  exact (loadAll_tells_of_loaded hloaded).go (hcheck.go hr)

/-- If there is no room for the basic classes in one of the units, the run ends in that fault. -/
theorem run_of_overflow
    (hrun : ∃ u ∈ files.filterMap h.loaded?, ¬ Faultless (u.unit.analyzeNarrow stage {})) :
    h.run stage format files = .error .tableOverflow :=
  run_eq_error (prepare_of_symbolValid hloaded hvalid (analyzeAll_fails hvalid hrun).bind.ends)

variable (hrun : ∀ u ∈ files.filterMap h.loaded?, Faultless (u.unit.analyzeNarrow stage {}))

include hrun

/-- A run on units whose analyses report something, or that are not dumped. -/
theorem run_of_not_dumped
    (hstop : (files.filterMap h.loaded?).flatMap (h.analysisLines stage) ≠ [] ∨ format = none) :
    h.run stage format files =
      (let lines := (files.filterMap h.loaded?).flatMap (h.analysisLines stage)
      .ok ⟨if lines = [] then 0 else 1, "", h.withLog lines⟩) := by
  apply run_eq_of_no_dumps
  apply prepare_of_symbolValid hloaded hvalid
  have hanalyze := h.analyzeAll_tells hvalid hrun
  by_cases hne : (files.filterMap h.loaded?).flatMap (h.analysisLines stage) = []
  · obtain rfl := hstop.resolve_left (not_not_intro hne)
    rw [hne] at hanalyze ⊢
    exact hanalyze.go (Tells.pure []).ends
  · exact (hanalyze.stop hne).ends

/-- A run on units whose analyses are silent, and that are dumped. -/
theorem run_of_dumped {f : DumpFormat} {ds : List Dump} {losses : List String}
    (hsilent : (files.filterMap h.loaded?).flatMap (h.analysisLines stage) = [])
    (hdumps : h.dumps stage f (files.filterMap h.loaded?) = .ok ds)
    (hlosses : ds.filterMap h.lossLine? = losses) :
    h.run stage (some f) files =
      .ok ⟨if losses = [] then 0 else 1, h.arrived (ds.filterMap Dump.text?), h.withLog losses⟩ := by
  have hanalyze := h.analyzeAll_tells hvalid hrun
  rw [hsilent] at hanalyze
  have hends : Ends (h.prepare stage (some f) files) (.ok (ds, [])) :=
    prepare_of_symbolValid hloaded hvalid
      (hanalyze.go (Tells.lift (dumpAll_eq hvalid hrun hdumps)).ends)
  exact run_eq hends hlosses

end

variable {h} in
/-- A unit that has been loaded is within bounds, also after its analysis. -/
theorem fits_of_analyzeNarrow {stage : Stage} {files : List InputFile} {u : LoadedUnit}
    (hu : u ∈ files.filterMap h.loaded?) (hsize : u.unit.tables.ids.size ≤ UInt32.size)
    {a : Analysis} {v : CompilationUnit} {s : Sink}
    (hrun : u.unit.analyzeNarrow stage {} = .ok (a, v, s)) : v.program.Fits := by
  have hfits : u.unit.program.Fits := by
    obtain ⟨f, _, hf⟩ := List.mem_filterMap.mp hu
    unfold loaded? at hf
    split at hf
    · cases hf
    · split at hf
      · cases hf
        exact Notation.Codec.fits_of_load ‹_›
      · cases hf
  rcases u.unit.analyzeNarrow_cases with hsame | hfull
  · rw [(CompilationUnit.eq_of_analyze ((hsame stage {}).symm.trans hrun)).2.1]
    exact CompilationUnit.fits_analyzed hfits hsize stage
  · cases (hfull stage {}).symm.trans hrun

theorem dumps_faultless {stage : Stage} {us : List LoadedUnit}
    (hvalid : ∀ u ∈ us, u.unit.SymbolValid)
    (hrun : ∀ u ∈ us, Faultless (u.unit.analyzeNarrow stage {})) (format : DumpFormat) :
    Faultless (h.dumps stage format us) := by
  refine .mapM fun u hu => ?_
  rw [(hvalid u hu).analyzeNarrow_eq (hrun u hu)]
  exact (((hvalid u hu).analyzed stage).dump_faultless h.codec format).bind fun r _ => .pure _

variable {h} in
/-- A dump has a text unless the codec refuses to print the unit. -/
theorem exists_text {stage : Stage} {format : DumpFormat} {us : List LoadedUnit} {dumps : List Dump}
    (hdumps : h.dumps stage format us = .ok dumps)
    (hprinted : format = .loadable → ∀ u ∈ us, ∀ a v s,
      u.unit.analyzeNarrow stage {} = .ok (a, v, s) → ∃ text, h.codec.dump v = .ok text) :
    ∀ d ∈ dumps, ∃ text, d.text = .ok text := by
  intro d hd
  rw [Host.dumps, mapM_eq_ok_iff] at hdumps
  obtain ⟨u, hu, hdump⟩ := List.mem_map.mp (hdumps ▸ List.mem_map_of_mem (f := Except.ok) hd)
  obtain ⟨⟨a, v, s⟩, hrun, hdump⟩ := bind_eq_ok.mp hdump
  obtain ⟨r, hr, hdump⟩ := bind_eq_ok.mp hdump
  cases hdump
  cases format with
  | outline =>
    obtain ⟨text, _, heq⟩ := bind_eq_ok.mp hr
    exact ⟨text, (Except.ok.inj heq).symm⟩
  | listing => exact ⟨_, (Except.ok.inj hr).symm⟩
  | loadable =>
    obtain ⟨text, htext⟩ := hprinted rfl u hu a v s hrun
    exact ⟨text, (Except.ok.inj hr).symm.trans htext⟩

theorem map_text_eq {dumps : List Dump} (htexts : ∀ d ∈ dumps, ∃ text, d.text = .ok text) :
    dumps.map Dump.text = (dumps.filterMap Dump.text?).map .ok := by
  induction dumps with
  | nil => rfl
  | cons d rest ih =>
    rw [List.forall_mem_cons] at htexts
    obtain ⟨⟨text, htext⟩, hrest⟩ := htexts
    have hsome : d.text? = some text := by rw [Dump.text?, htext]; rfl
    rw [List.filterMap_cons_some hsome, List.map_cons, List.map_cons, htext, ih hrest]

variable {h} in
/-- Dumps with a text arrive if nothing fails to be written. -/
theorem losses_eq_nil {dumps : List Dump} (hwrite : h.writeError = none)
    (htexts : ∀ d ∈ dumps, ∃ text, d.text = .ok text) : dumps.filterMap h.lossLine? = [] := by
  refine List.filterMap_eq_nil_iff.mpr fun d hd => ?_
  obtain ⟨text, htext⟩ := htexts d hd
  rw [lossLine?, Dump.loss?, htext, hwrite]
  rfl

end Host

/-- The files of a run are treated one by one, each stage after the last one has been silent about all of
them. A file without unit is shown as one line, which has the path if the file could be read, and if there
is such a file, these lines are all that a run shows. If the units do not all pass the check of symbols, a
run shows what the check says about each unit. Otherwise it shows what the analysis, with a sink of its own,
says about each unit, unless there is no room for the basic classes in one of them. What each analysed unit is
dumped as is written if nothing is said and dumps are asked for. A dump that does not arrive is one more line,
but each of them arrives if it can be written and is not refused by the codec. Lines about a unit have its path,
and the exit code tells whether there are lines. -/
theorem files_run_alone (h : Host) (stage : Stage) (format : Option DumpFormat)
    (files : List InputFile) :
    let run := h.run stage format files
    let us := files.filterMap h.loaded?
    (∀ f ∈ files, ((h.complaint? f).isSome ↔ h.loaded? f = none) ∧
      ∀ text l, f.text = .ok text → h.complaint? f = some l →
        ∃ message, l = h.style.tag .error ++ " " ++ (f.path ++ ": ") ++ message) ∧
    ((∃ f ∈ files, h.loaded? f = none) →
      run = .ok ⟨1, "", h.withLog (files.filterMap h.complaint?)⟩) ∧
    ((∀ f ∈ files, h.loaded? f ≠ none) →
      ((∃ u ∈ us, ¬ u.unit.SymbolValid) →
        run = .ok ⟨1, "", h.withLog (us.flatMap h.symbolLines)⟩ ∧
        ∀ u ∈ us, ∀ l ∈ h.symbolLines u, Located h.style u.path l) ∧
      ((∀ u ∈ us, u.unit.SymbolValid) →
        let lines := us.flatMap (h.analysisLines stage)
        (∀ u ∈ us, (u.unit.HasRoom → Faultless (u.unit.analyzeNarrow stage {})) ∧
          ∀ l ∈ h.analysisLines stage u, Located h.style u.path l) ∧
        ((∃ u ∈ us, ¬ Faultless (u.unit.analyzeNarrow stage {})) → run = .error .tableOverflow) ∧
        ((∀ u ∈ us, Faultless (u.unit.analyzeNarrow stage {})) →
          (lines ≠ [] ∨ format = none →
            run = .ok ⟨if lines = [] then 0 else 1, "", h.withLog lines⟩) ∧
          ∀ f, lines = [] → format = some f → ∃ dumps, h.dumps stage f us = .ok dumps ∧
            (let losses := dumps.filterMap h.lossLine?
            run = .ok ⟨if losses = [] then 0 else 1,
              h.arrived (dumps.filterMap Dump.text?), h.withLog losses⟩) ∧
            (h.writeError = none →
              (f = .loadable → h.codec.Described ∧ ∀ u ∈ us,
                u.unit.tables.ids.size ≤ UInt32.size ∧ ∀ a v s,
                  u.unit.analyzeNarrow stage {} = .ok (a, v, s) → v.toValue.depth < h.codec.limit) →
              ∃ texts, dumps.map Dump.text = texts.map .ok ∧
                run = .ok ⟨0, String.join texts, h.withLog []⟩)))) := by
  intro run us
  refine ⟨fun f _ => ⟨?_, fun _ _ => Host.located_of_complaint⟩, Host.run_of_not_loaded,
    fun hloaded => ⟨fun hinvalid => ?_, fun hvalid => ?_⟩⟩
  · rw [← not_iff_not, Option.not_isSome_iff_eq_none]
    exact Host.complaint?_eq_none_iff
  · exact ⟨Host.run_of_not_symbolValid hloaded hinvalid, fun u _ => located_of_mem⟩
  · intro lines
    refine ⟨fun u hu => ⟨fun hroom => (hvalid u hu).analyzeNarrow_faultless hroom stage,
      Host.located_of_mem_analysisLines (hvalid u hu)⟩, Host.run_of_overflow hloaded hvalid,
      fun hrun => ⟨Host.run_of_not_dumped hloaded hvalid hrun, fun f hsilent hf => ?_⟩⟩
    · obtain ⟨dumps, hdumps⟩ := h.dumps_faultless hvalid hrun f
      subst hf
      have hall {losses : List String} (heq : dumps.filterMap h.lossLine? = losses) :=
        Host.run_of_dumped hloaded hvalid hrun hsilent hdumps heq
      refine ⟨dumps, hdumps, hall rfl, fun hwrite hprinted => ?_⟩
      have htexts := Host.exists_text hdumps fun hf u hu a v s heq => by
        obtain ⟨hdescribed, hall⟩ := hprinted hf
        obtain ⟨hsize, hdepth⟩ := hall u hu
        exact h.codec.dump_eq_ok hdescribed (Host.fits_of_analyzeNarrow hu hsize heq) (hdepth a v s heq)
      have harrived : h.arrived (dumps.filterMap Dump.text?) = String.join (dumps.filterMap Dump.text?) := by
        rw [Host.arrived, hwrite]
        rfl
      exact ⟨_, Host.map_text_eq htexts, harrived ▸ hall (Host.losses_eq_nil hwrite htexts)⟩

/-- A file that cannot be read. -/
def missingFile : InputFile := ⟨"missing.ron", .error "No such file or directory (os error 2)"⟩

/-- A type that no table has. -/
def strayType : Ty := .named ⟨UInt32.size - 1⟩

theorem carryingUnit_strayType : ¬ (carryingUnit (some strayType)).SymbolValid := by
  rw [← CompilationUnit.checkSymbols_eq_true_iff (s := {})]
  decide +kernel

theorem carryingUnit_hasRoom : (carryingUnit none).HasRoom :=
  CompilationUnit.hasRoom_of_size_le (by decide +kernel)

/-- A host without colours and without a log, on which everything is written. -/
def plainHost : Host := .quiet .plain none

theorem exists_loaded?_eq (ty : Option Ty) (h : ∀ T ∈ ty, T.Fits)
    (hdepth : (carryingUnit ty).toValue.depth < Notation.Codec.standard.limit) :
    ∃ f, plainHost.loaded? f = some ⟨"carrying.ron", carryingUnit ty⟩ := by
  have hload := CompilationUnit.load_page (carryingUnit_fits h) hdepth
  exact ⟨⟨"carrying.ron", .ok _⟩, Host.loaded?_eq_some rfl hload⟩

theorem findings_carryingUnit : (carryingUnit none).findings .typing = [] :=
  List.isEmpty_iff.mp (by decide +kernel)

theorem analysisLines_carryingUnit :
    plainHost.analysisLines .typing ⟨"carrying.ron", carryingUnit none⟩ = [] := by
  have hvalid : (carryingUnit none).SymbolValid := carryingUnit_symbolValid (by simp)
  have hrun := hvalid.analyzeNarrow_faultless carryingUnit_hasRoom .typing
  have hlines := Host.analysisLines_eq (h := plainHost) (u := ⟨"carrying.ron", carryingUnit none⟩)
    hvalid hrun
  rw [hlines, CompilationUnit.told, findings_carryingUnit]
  rfl

theorem files_run_alone_carrying : ∃ f g l,
    plainHost.loaded? f = some ⟨"carrying.ron", carryingUnit none⟩ ∧
    plainHost.loaded? g = some ⟨"carrying.ron", carryingUnit (some strayType)⟩ ∧
    plainHost.complaint? missingFile = some l ∧
    plainHost.run .typing none [missingFile, f, missingFile] = .ok ⟨1, "", [l, l]⟩ ∧
    plainHost.run .typing none [g] =
      .ok ⟨1, "", plainHost.symbolLines ⟨"carrying.ron", carryingUnit (some strayType)⟩⟩ ∧
    ∃ texts, plainHost.run .typing (some .loadable) [f, f] = .ok ⟨0, String.join texts, []⟩ := by
  obtain ⟨f, hf⟩ := exists_loaded?_eq none (by simp) (by decide +kernel)
  obtain ⟨g, hg⟩ := exists_loaded?_eq (some strayType) (by
    rintro T ⟨⟩
    show UInt32.size - 1 < UInt32.size
    decide) (by decide +kernel)
  obtain ⟨l, hl⟩ : ∃ l, plainHost.complaint? missingFile = some l := ⟨_, rfl⟩
  refine ⟨f, g, l, hf, hg, hl, ?_, ?_, ?_⟩
  · obtain ⟨hcomplaint, hall, -⟩ := files_run_alone plainHost .typing none [missingFile, f, missingFile]
    have hnone : plainHost.complaint? f = none := by
      simpa [hf] using (hcomplaint f (by simp)).1
    refine (hall ⟨missingFile, List.mem_cons_self, rfl⟩).trans ?_
    simp only [List.filterMap_cons, List.filterMap_nil, hnone, hl]
    rfl
  · obtain ⟨-, -, hall⟩ := files_run_alone plainHost .typing none [g]
    simp only [List.filterMap_cons, List.filterMap_nil, hg] at hall
    obtain ⟨hinvalid, -⟩ := hall (by simp [hg])
    refine (hinvalid ⟨_, List.mem_cons_self, carryingUnit_strayType⟩).1.trans ?_
    rw [List.flatMap_singleton]
    rfl
  · obtain ⟨-, -, hall⟩ := files_run_alone plainHost .typing (some .loadable) [f, f]
    simp only [List.filterMap_cons, List.filterMap_nil, hf] at hall
    have hvalid : (carryingUnit none).SymbolValid := carryingUnit_symbolValid (by simp)
    obtain ⟨-, hall⟩ := hall (by simp [hf])
    obtain ⟨hroom, -, hall⟩ := hall (by simpa using hvalid)
    have hrun := (hroom _ List.mem_cons_self).1 carryingUnit_hasRoom
    obtain ⟨-, hdump⟩ := hall (by simpa using hrun)
    obtain ⟨dumps, -, -, harrive⟩ := hdump .loadable (by simp [analysisLines_carryingUnit]) rfl
    have hunit : (carryingUnit none).tables.ids.size ≤ UInt32.size ∧ ∀ a v s,
        (carryingUnit none).analyzeNarrow .typing {} = .ok (a, v, s) →
          v.toValue.depth < plainHost.codec.limit := by
      refine ⟨by decide +kernel, fun a v s heq => ?_⟩
      rw [CompilationUnit.analyzeNarrow_eq carryingUnit_hasRoom] at heq
      rw [(CompilationUnit.eq_of_analyze heq).2.1]
      decide +kernel
    obtain ⟨texts, -, htexts⟩ :=
      harrive rfl fun _ => ⟨Notation.Codec.standard_described, by simpa using hunit⟩
    exact ⟨texts, htexts⟩

end CommandLine

end CoolTypes
