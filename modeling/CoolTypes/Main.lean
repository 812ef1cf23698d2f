import CoolTypes.CommandLine.Surroundings

/-!
# Entry point

Reads the files that the arguments name, does the run, writes its dumps and its diagnostics.
-/

namespace CoolTypes.CommandLine

/-- The number and the text of an input or output error. Some operations give the number with its
sign changed. -/
def SystemError.ofInputOutput : IO.Error → SystemError
  | .alreadyExists _ c d | .invalidArgument _ c d | .permissionDenied _ c d
  | .resourceExhausted _ c d | .inappropriateType _ c d | .noSuchThing _ c d
  | .noFileOrDirectory _ c d | .interrupted _ c d
  | .otherError c d | .resourceBusy c d | .resourceVanished c d | .unsupportedOperation c d
  | .hardwareFault c d | .unsatisfiedConstraints c d | .illegalOperation c d
  | .protocolError c d | .timeExpired c d =>
    .ofCode (if c ≤ 4095 then c else 0 - c).toNat d
  | .unexpectedEof => ⟨0, "unexpected end of file"⟩
  | .userError d => ⟨0, d⟩

/-- Reads a file. -/
def InputFile.fetch (path : String) : IO InputFile := do
  match ← (IO.FS.readBinFile path).toBaseIO with
  | .ok bytes => return ⟨path, (decodeText bytes).mapError (·.message)⟩
  | .error e => return ⟨path, .error (ReadError.system (.ofInputOutput e)).message⟩

/-- Writes a dump; gives the error if that fails. -/
def Dump.write (d : Dump) : IO (Option String) := do
  match d.text with
  | .error _ => return none
  | .ok text =>
    let output ← IO.getStdout
    match ← (do output.putStr text; output.flush : IO PUnit).toBaseIO with
    | .ok _ => return none
    | .error e => return some (SystemError.ofInputOutput e).message

/-- Does a run on files and writes what it says; gives the exit code. -/
def Host.main (h : Host) (o : Options) : IO UInt32 := do
  let files ← o.paths.mapM InputFile.fetch
  match (h.prepare o.stage o.format files).run {} with
  | .error f =>
    IO.eprintln f.message
    return 101
  | .ok (dumps, c) =>
    let failures ← dumps.mapM Dump.write
    match (h.conclude (dumps.zip failures)).run c with
    | .error f =>
      IO.eprintln f.message
      return 101
    | .ok (_, c) =>
      c.sink.heard.forM IO.eprintln
      return (exitCode c.sink).toUInt32

end CoolTypes.CommandLine

open CoolTypes CommandLine

/-- Does what the arguments ask for; gives the exit code. -/
def main (args : List String) : IO UInt32 := do
  match Request.ofArguments args with
  | .error e =>
    IO.eprintln ("error: " ++ e.message)
    return usageExitCode.toUInt32
  | .ok .help =>
    IO.print usageText
    return 0
  | .ok .version =>
    IO.print versionText
    return 0
  | .ok (.run o) =>
    let forced ← IO.getEnv "FORCE_COLOR"
    let asked ← IO.getEnv "CLICOLOR_FORCE"
    let style := Style.ofEnvironment fun name =>
      if name == "FORCE_COLOR" then forced else if name == "CLICOLOR_FORCE" then asked else none
    (Host.quiet style none).main o
