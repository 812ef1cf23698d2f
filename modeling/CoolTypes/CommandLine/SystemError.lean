/-!
# Errors of the operating system

An error of the operating system has a number and a text that belongs to it. A file that can be read
may still be refused because its bytes are no text.
-/

namespace CoolTypes.CommandLine

/-- An error of the operating system. -/
structure SystemError where
  code : Nat
  text : String
deriving DecidableEq

namespace SystemError

/-- The text of the error with its number. -/
def message (e : SystemError) : String :=
  e.text ++ " (os error " ++ toString e.code ++ ")"

/-- Nothing has that name. -/
def noSuchFile : SystemError := ⟨2, "No such file or directory"⟩

/-- The file exists, but not for this user. -/
def permissionDenied : SystemError := ⟨13, "Permission denied"⟩

/-- A file is used as if it held other files. -/
def notADirectory : SystemError := ⟨20, "Not a directory"⟩

/-- A directory is used as if it held text. -/
def isADirectory : SystemError := ⟨21, "Is a directory"⟩

/-- The device takes no more data. -/
def noSpaceLeft : SystemError := ⟨28, "No space left on device"⟩

/-- The reader of the output is gone. -/
def brokenPipe : SystemError := ⟨32, "Broken pipe"⟩

/-- A name has more bytes than names can have. -/
def nameTooLong : SystemError := ⟨36, "File name too long"⟩

/-- The errors that have a text here. -/
def known : List SystemError :=
  [noSuchFile, permissionDenied, notADirectory, isADirectory, noSpaceLeft, brokenPipe, nameTooLong]

/-- The error with a number; `text` describes it if it is none of the known ones. -/
def ofCode (code : Nat) (text : String) : SystemError :=
  (known.find? (·.code == code)).getD ⟨code, text⟩

end SystemError

/-- Why a file could not be read. -/
inductive ReadError where
  | system (e : SystemError)
  /-- The bytes of the file are no text. -/
  | notText
deriving DecidableEq

/-- The text of the error. -/
def ReadError.message : ReadError → String
  | system e => e.message
  | notText => "stream did not contain valid UTF-8"

/-- The text that bytes stand for. -/
def decodeText (bytes : ByteArray) : Except ReadError String :=
  match String.fromUTF8? bytes with
  | some text => .ok text
  | none => .error .notText

end CoolTypes.CommandLine
