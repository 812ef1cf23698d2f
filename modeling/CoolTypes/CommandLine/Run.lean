import CoolTypes.Analysis
import CoolTypes.CommandLine.Line
import CoolTypes.Dump.Format
import CoolTypes.Unit.Decode

/-!
# Runs

A run loads all its files, checks the symbols of all units, analyses them and dumps them, and ends
after the first of these stages that finds an error. All stages share a console, on which a file is
current while it is worked on. A line about a diagnostic has the path that is current at that time.

What does not belong to a run is given to it: what its files hold, and, as its `Host`, how levels are
shown, how units are printed and read, what is logged and whether dumps can be written.
-/

namespace CoolTypes.CommandLine

open Notation

/-- A file of a run: its path, and its text or why that cannot be read. -/
structure InputFile where
  path : String
  text : Except String String

/-- A unit and the file it comes from. -/
structure LoadedUnit where
  path : String
  unit : CompilationUnit

/-- A dump: the file that it is about, and its text or why there is none. -/
structure Dump where
  path : String
  text : Except String String

/-- The text of a dump, if there is one. -/
def Dump.text? (d : Dump) : Option String := d.text.toOption

/-- Why a dump does not arrive. It may have no text, or there may be a failure to write it. -/
def Dump.loss? (d : Dump) (failure : Option String) : Option String :=
  match d.text with
  | .ok _ => failure
  | .error reason => some reason

/-- Everything that a run relies on but does not do itself. -/
structure Host where
  style : Style
  codec : Codec
  /-- The standard error, where a log can stand between the lines about diagnostics. -/
  withLog (lines : List String) : List String
  withLog_sublist (lines : List String) : lines.Sublist (withLog lines)
  /-- Why nothing can be written to the standard output, if so. -/
  writeError : Option String := none

/-! ## The console -/

/-- What all stages of a run share. -/
structure Console where
  /-- The file that is worked on. -/
  current : Option String := none
  sink : Sink := {}

/-- A part of a run. -/
abbrev Run := StateT Console (Except Fault)

namespace Run

variable {α : Type}

/-- Works on a file. After that, no file is current. -/
def withPath (path : String) (body : Run α) : Run α := do
  modify fun c => { c with current := some path }
  let a ← body
  modify fun c => { c with current := none }
  return a

/-- Uses the sink. No file becomes current during that, so the listener need not be set again. -/
def withSink (style : Style) (use : Sink → Except Fault (α × Sink)) : Run α := do
  let c ← get
  let (a, sink) ← use (c.sink.listen (line style c.current))
  set { c with sink := sink }
  return a

/-- Emits a diagnostic. -/
def emit (style : Style) (d : Diagnostic) : Run Unit :=
  withSink style fun s => return ((), s.emit d)

/-- Goes on if there are no errors. -/
def unlessErrors (rest : Run (List α)) : Run (List α) := do
  if (← get).sink.hasErrors then return [] else rest

end Run

/-! ## Diagnostics of a run -/

/-- The error for a file that cannot be read. -/
def unreadable (path reason : String) : Diagnostic :=
  ⟨.error, ⟨"could not load file " ++ path, none⟩, some (.system reason)⟩

/-- The error for a text that is no unit. -/
def malformed (codec : Codec) (text : String) (e : LoadError) : Diagnostic :=
  ⟨.error, ⟨"malformed compilation unit: " ++ codec.complaint text e.reason?, none⟩, none⟩

/-- The error for a dump that does not arrive. -/
def lost (reason : String) : Diagnostic :=
  ⟨.fatal, ⟨"could not dump the program to stdout", none⟩, some (.system reason)⟩

/-- The exit code of a run. -/
def exitCode (s : Sink) : Nat := if s.hasErrors then 1 else 0

/-- The exit code for arguments that are refused. -/
def usageExitCode : Nat := 2

open Run

namespace Host

variable (h : Host)

/-! ## Stages -/

/-- Loads a file. It is current only if it has been read and is complained about. -/
def loadFile (f : InputFile) : Run (Option LoadedUnit) :=
  match f.text with
  | .error reason => do
    emit h.style (unreadable f.path reason)
    return none
  | .ok text =>
    match h.codec.load text with
    | .ok u => return some ⟨f.path, u⟩
    | .error e => do
      withPath f.path (emit h.style (malformed h.codec text e))
      return none

/-- Loads all files. -/
def loadAll (files : List InputFile) : Run (List LoadedUnit) :=
  return (← files.mapM h.loadFile).filterMap id

/-- Checks the symbols of a unit. -/
def checkUnit (u : LoadedUnit) : Run LoadedUnit :=
  withPath u.path <| withSink h.style fun s => return (u, (u.unit.checkSymbols s).2)

/-- Checks the symbols of all units. -/
def checkAll (us : List LoadedUnit) : Run (List LoadedUnit) :=
  us.mapM h.checkUnit

/-- Analyses a unit. -/
def analyzeUnit (stage : Stage) (u : LoadedUnit) : Run LoadedUnit :=
  withPath u.path <| withSink h.style fun s => do
    let (_, unit, s) ← u.unit.analyzeNarrow stage s
    return (⟨u.path, unit⟩, s)

/-- Analyses all units. -/
def analyzeAll (stage : Stage) (us : List LoadedUnit) : Run (List LoadedUnit) :=
  us.mapM (h.analyzeUnit stage)

/-- Dumps all units. -/
def dumpAll (format : DumpFormat) (us : List LoadedUnit) : Except Fault (List Dump) :=
  us.mapM fun u => return ⟨u.path, ← u.unit.dump h.codec format⟩

/-- Dumps all units if dumps are asked for. -/
def dumpIfAsked (format : Option DumpFormat) (us : List LoadedUnit) : Run (List Dump) :=
  match format with
  | none => return []
  | some format => do return ← h.dumpAll format us

/-- Does all stages up to the first that finds an error. -/
def prepare (stage : Stage) (format : Option DumpFormat) (files : List InputFile) :
    Run (List Dump) := do
  let us ← h.loadAll files
  unlessErrors do
    let us ← h.checkAll us
    unlessErrors do
      let us ← h.analyzeAll stage us
      unlessErrors (h.dumpIfAsked format us)

/-! ## Whole runs -/

/-- Reports a dump that does not arrive. `failure` tells why it could not be written, if so. -/
def reportLoss (d : Dump) (failure : Option String) : Run Unit :=
  match d.loss? failure with
  | none => return ()
  | some reason => withPath d.path (emit h.style (lost reason))

/-- Reports the dumps that do not arrive. -/
def conclude (dumps : List (Dump × Option String)) : Run Unit :=
  dumps.forM fun (d, failure) => h.reportLoss d failure

/-- What arrives at the standard output. -/
def arrived (texts : List String) : String :=
  if h.writeError.isSome then "" else String.join texts

end Host

/-- What a run leaves behind. -/
structure Outcome where
  exitCode : Nat
  output : String
  /-- What was written to the standard error, line by line. -/
  errors : List String
deriving DecidableEq

/-- A run on files. -/
def Host.run (h : Host) (stage : Stage) (format : Option DumpFormat) (files : List InputFile) :
    Except Fault Outcome := do
  let (dumps, c) ← (h.prepare stage format files).run {}
  let (_, c) ← (h.conclude (dumps.map fun d => (d, h.writeError))).run c
  return ⟨exitCode c.sink, h.arrived (dumps.filterMap Dump.text?), h.withLog c.sink.heard⟩

end CoolTypes.CommandLine
