import CoolTypes.Analysis
import CoolTypes.Dump.Format

/-!
# Command line arguments

The arguments name the files of a run and set its options. They are read from left to right. An
option is written `--stage typeck`, `--stage=typeck`, `-s typeck`, `-stypeck` or `-s=typeck`, stands
anywhere between the files, and is given at most once; after `--` every argument is a file. The
first argument that asks for help or for the version settles the request, unless an earlier one is
refused.
-/

namespace CoolTypes.CommandLine

/-- What a run is asked to do. -/
structure Options where
  paths : List String
  stage : Stage := .typing
  /-- The form in which analysed programs are printed, if they are. -/
  format : Option DumpFormat := none
deriving DecidableEq

/-- What the arguments ask for. -/
inductive Request where
  | help
  | version
  | run (o : Options)
deriving DecidableEq

/-- Why arguments are refused. -/
inductive UsageError where
  | unknownOption (argument : String)
  | missingValue (argument : String)
  | invalidValue (value : String)
  /-- Help and version take no value. -/
  | needlessValue (argument : String)
  | repeatedOption (value : String)
  | noFile
  | emptyPath
deriving DecidableEq

/-- The text of a refusal. -/
def UsageError.message : UsageError → String
  | unknownOption a => "unexpected argument '" ++ a ++ "' found"
  | missingValue a => "a value is required for '" ++ a ++ "' but none was supplied"
  | invalidValue v => "invalid value '" ++ v ++ "'"
  | needlessValue a => "unexpected value for '" ++ a ++ "'"
  | repeatedOption v => "the option with the value '" ++ v ++ "' cannot be used multiple times"
  | noFile => "no file was given"
  | emptyPath => "a file name is empty"

/-! ## Single arguments -/

/-- The options that take a value. -/
inductive Setting where
  | stage | format
deriving DecidableEq

/-- What a single argument says. -/
inductive Argument where
  | path (p : String)
  /-- All that follows is a file. -/
  | onlyPaths
  /-- It settles the request. -/
  | settles (r : Request)
  | setting (s : Setting) (value : Option String)
deriving DecidableEq

namespace Argument

/-- Reads an option by its long name. -/
def long (text name : String) (value : Option String) : Except UsageError Argument :=
  match name, value with
  | "stage", v => .ok (.setting .stage v)
  | "format", v => .ok (.setting .format v)
  | "help", none => .ok (.settles .help)
  | "version", none => .ok (.settles .version)
  | "help", some _ | "version", some _ => .error (.needlessValue text)
  | _, _ => .error (.unknownOption text)

/-- The value that is attached to an option of one letter. -/
def attached : List Char → Option String
  | [] => none
  | '=' :: cs => some (.ofList cs)
  | cs => some (.ofList cs)

/-- Reads an option by its letter. Help and version settle the request, so what follows their letters
has no meaning. -/
def short (text : String) (letter : Char) (rest : List Char) : Except UsageError Argument :=
  match letter with
  | 's' => .ok (.setting .stage (attached rest))
  | 'f' => .ok (.setting .format (attached rest))
  | 'h' => .ok (.settles .help)
  | 'V' => .ok (.settles .version)
  | _ => .error (.unknownOption text)

/-- Reads an argument on its own. A single dash is a file. -/
def ofText (text : String) : Except UsageError Argument :=
  match text.toList with
  | ['-', '-'] => .ok .onlyPaths
  | '-' :: '-' :: cs =>
    let value := (cs.dropWhile (· != '=')).tail?
    long text (.ofList (cs.takeWhile (· != '='))) (value.map .ofList)
  | '-' :: c :: cs => short text c cs
  | _ => .ok (.path text)

end Argument

/-! ## All arguments -/

/-- The stage that a word stands for. -/
def stageOfWord? : String → Option Stage
  | "inheritance" => some .inheritance
  | "typeck" => some .typing
  | _ => none

/-- The form of dumps that a word stands for. -/
def formatOfWord? : String → Option DumpFormat
  | "tree" => some .outline
  | "debug" => some .listing
  | "ron" => some .loadable
  | _ => none

/-- What has been read of the arguments. -/
structure Reading where
  paths : List String := []
  stage : Option Stage := none
  format : Option DumpFormat := none

/-- Sets an option that has not been set. -/
def setOnce {α : Type} (old new : Option α) (word : String) : Except UsageError (Option α) :=
  match old, new with
  | _, none => .error (.invalidValue word)
  | some _, some _ => .error (.repeatedOption word)
  | none, some a => .ok (some a)

namespace Reading

/-- Adds a file. -/
def addPath (r : Reading) (p : String) : Except UsageError Reading :=
  if p.isEmpty then .error .emptyPath else .ok { r with paths := r.paths ++ [p] }

/-- Gives an option its value. -/
def set (r : Reading) (s : Setting) (word : String) : Except UsageError Reading :=
  match s with
  | .stage => return { r with stage := ← setOnce r.stage (stageOfWord? word) word }
  | .format => return { r with format := ← setOnce r.format (formatOfWord? word) word }

/-- The request at the end of the arguments. -/
def finish (r : Reading) : Except UsageError Request :=
  if r.paths.isEmpty then .error .noFile
  else .ok (.run ⟨r.paths, r.stage.getD .typing, r.format⟩)

/-- Whether an argument can be the value of the option before it: it is no option itself. -/
def isValue (text : String) : Bool :=
  text == "-" || text.front? != some '-'

/-- Reads the arguments that are left. -/
def read (r : Reading) : List String → Except UsageError Request
  | [] => r.finish
  | text :: rest =>
    match Argument.ofText text with
    | .error e => .error e
    | .ok (.settles r) => .ok r
    | .ok .onlyPaths => rest.foldlM addPath r >>= finish
    | .ok (.path p) => r.addPath p >>= (read · rest)
    | .ok (.setting s (some v)) => r.set s v >>= (read · rest)
    | .ok (.setting s none) =>
      match rest with
      | [] => .error (.missingValue text)
      | v :: rest => if isValue v then r.set s v >>= (read · rest) else .error (.missingValue text)

end Reading

/-- Reads the arguments of a run. -/
def Request.ofArguments (args : List String) : Except UsageError Request :=
  Reading.read {} args

end CoolTypes.CommandLine
