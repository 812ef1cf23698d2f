import CoolTypes.CommandLine.Arguments
import CoolTypes.CommandLine.Run
import CoolTypes.CommandLine.SystemError
import CoolTypes.Notation.Standard

/-!
# Surroundings of a run

A run from the command line gets its files and its host from its surroundings: the files in the
working directory, the environment, and whether the standard output takes data. Of the directories
above the working directory nothing is known but that they exist, and nothing is logged.
-/

namespace CoolTypes.CommandLine

/-- A file of the working directory. Its name may lead through directories. -/
structure StoredFile where
  name : String
  bytes : ByteArray

/-- All that a run can observe besides its arguments. -/
structure Surroundings where
  files : List StoredFile
  environment : List (String × String) := []
  /-- The error of every attempt to write to the standard output. -/
  writeError : Option SystemError := none

/-! ## Paths -/

/-- Where a path leads. -/
inductive Place where
  | file (bytes : ByteArray)
  /-- A directory, by the names that lead there. -/
  | directory (names : List String)
  /-- A directory above the working directory. -/
  | outside

/-- The names that a path is made of. -/
def pathNames (path : String) : List String := path.splitOn "/"

/-- The greatest number of bytes in a name. -/
def maxNameBytes : Nat := 255

/-- The greatest number of bytes in a path. -/
def maxPathBytes : Nat := 4095

/-- The directories that a path leads through, and its end. An empty name or a dot stays where it
is, and two dots lead back. -/
def way (names : List String) : List String → List (List String)
  | [] => [names]
  | next :: rest =>
    names :: way (if next = "" ∨ next = "." then names
      else if next = ".." then names.dropLast
      else names ++ [next]) rest

/-- The way to a stored file. -/
def StoredFile.way (f : StoredFile) : List (List String) := CommandLine.way [] (pathNames f.name)

namespace Surroundings

/-- What is stored under names in a directory. A later file replaces an earlier one. -/
def stored (s : Surroundings) (names : List String) : Except SystemError Place :=
  match s.files.reverse.find? (fun f => f.way.getLast? == some names) with
  | some f => .ok (.file f.bytes)
  | none =>
    if s.files.any (fun f => f.way.contains names) then .ok (.directory names)
    else .error .noSuchFile

/-- Follows one name of a path. -/
def enter (s : Surroundings) : Place → String → Except SystemError Place
  | .file _, _ => .error .notADirectory
  | p, "" => .ok p
  | p, "." => .ok p
  | .outside, ".." => .ok .outside
  | .directory names, ".." => .ok (if names.isEmpty then .outside else .directory names.dropLast)
  | p, name =>
    if maxNameBytes < name.utf8ByteSize then .error .nameTooLong
    else match p with
      | .directory names => s.stored (names ++ [name])
      | _ => .error .noSuchFile

/-- Follows a path from the working directory, or from above it if the path starts with a slash. -/
def resolve (s : Surroundings) (path : String) : Except SystemError Place :=
  if path.isEmpty then .error .noSuchFile
  else if maxPathBytes < path.utf8ByteSize then .error .nameTooLong
  else
    let start := if path.front? == some '/' then .outside else .directory []
    (pathNames path).foldlM s.enter start

/-- The text of a file. -/
def read (s : Surroundings) (path : String) : Except ReadError String :=
  match s.resolve path with
  | .ok (.file bytes) => decodeText bytes
  | .ok _ => .error (.system .isADirectory)
  | .error e => .error (.system e)

/-- The value of a variable. -/
def valueOf? (s : Surroundings) (name : String) : Option String :=
  (s.environment.reverse.find? (·.1 == name)).map (·.2)

end Surroundings

/-! ## Colours -/

namespace Style

/-- Whether a word is a number and that number is zero. -/
def isZero (word : String) : Bool :=
  let digits := match word.toList with
    | '+' :: ds => ds
    | ds => ds
  !digits.isEmpty && digits.all (· == '0')

/-- Whether the value of `FORCE_COLOR` asks for colours. -/
def forces (word : String) : Bool := word != "false" && !isZero word

/-- The style that the environment asks for, away from a terminal. `FORCE_COLOR` wins over
`CLICOLOR_FORCE`. -/
def ofEnvironment (lookup : String → Option String) : Style :=
  match lookup "FORCE_COLOR", lookup "CLICOLOR_FORCE" with
  | some word, _ => if forces word then coloured else plain
  | none, some word => if word != "0" then coloured else plain
  | none, none => plain

end Style

/-- A host without a log. -/
def Host.quiet (style : Style) (writeError : Option String) : Host where
  style
  codec := .standard
  withLog lines := lines
  withLog_sublist lines := .refl lines
  writeError

/-! ## Runs from the command line -/

/-- The answer to a request for the version. -/
def versionText : String := "coolck 0.1.0\n"

/-- The first line of the answer to a request for help. -/
def usageText : String := "Usage: coolck [OPTIONS] <FILE>...\n"

namespace Surroundings

/-- The host of a run. -/
def host (s : Surroundings) : Host :=
  .quiet (.ofEnvironment s.valueOf?) (s.writeError.map (·.message))

/-- A file of a run. -/
def input (s : Surroundings) (path : String) : InputFile :=
  ⟨path, (s.read path).mapError (·.message)⟩

/-- The outcome of a run with arguments. -/
def run (s : Surroundings) (args : List String) : Except Fault Outcome :=
  match Request.ofArguments args with
  | .error e => .ok ⟨usageExitCode, "", ["error: " ++ e.message]⟩
  | .ok .help => .ok ⟨0, s.host.arrived [usageText], []⟩
  | .ok .version => .ok ⟨0, s.host.arrived [versionText], []⟩
  | .ok (.run o) => s.host.run o.stage o.format (o.paths.map s.input)

end Surroundings

end CoolTypes.CommandLine
