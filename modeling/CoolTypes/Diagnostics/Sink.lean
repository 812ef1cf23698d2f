import CoolTypes.Diagnostics.TypeError

/-!
# Diagnostics

A diagnostic has a level, a message that may have a span, and the error it comes from. It is drafted
step by step and emitted into a sink, which keeps every diagnostic in order and shows each one to
the listener that is set at that time.
-/

namespace CoolTypes

/-- How bad a diagnostic is. -/
inductive Level where
  /-- The run cannot produce its output at all. -/
  | fatal
  | error
deriving DecidableEq

/-- The word for a level. -/
def Level.title : Level → String
  | fatal => "Fatal"
  | error => "Error"

/-- What a diagnostic says, and where if that is known. -/
structure Message where
  text : String
  span : Option Span := none
deriving DecidableEq

/-- The tables of a unit. -/
inductive TableKind where
  | ids | strings | ints
deriving DecidableEq

/-- What a table holds, in one word. -/
def TableKind.text : TableKind → String
  | ids => "identifier"
  | strings => "string"
  | ints => "integer"

/-- A symbol that has no entry in the table it refers to. -/
structure UnknownSymbol where
  table : TableKind
  index : Nat
  size : Nat
  span : Span
deriving DecidableEq

/-- The message of an unknown symbol. -/
def UnknownSymbol.message (u : UnknownSymbol) : String :=
  "symbol #" ++ toString u.index ++ " is out of range of the " ++ u.table.text ++ " table (" ++
    toString u.size ++ " entries)"

/-- An error with a place of its own. -/
inductive PlacedError where
  | typeError (error : TypeError String String)
  | unknownSymbol (error : UnknownSymbol)
deriving DecidableEq

/-- The text of the error. -/
def PlacedError.message : PlacedError → String
  | typeError e => e.violation.message
  | unknownSymbol e => e.message

/-- The place of the error. -/
def PlacedError.span : PlacedError → Span
  | typeError e => e.span
  | unknownSymbol e => e.span

/-- The error that a diagnostic comes from. -/
inductive Source where
  | placed (error : PlacedError)
  | duplicateEntry (error : DuplicateEntry)
  | system (text : String)
deriving DecidableEq

/-- The text of the error. -/
def Source.message : Source → String
  | placed e => e.message
  | duplicateEntry e => e.message
  | system text => text

/-- Something to tell the user. -/
structure Diagnostic where
  level : Level
  message : Message
  source : Option Source
deriving DecidableEq

/-- A diagnostic that is being written. -/
structure Draft where
  level : Level
  message : Option Message := none
  source : Option Source := none
deriving DecidableEq

namespace Draft

/-- Sets the message. -/
def withMessage (d : Draft) (m : Message) : Draft := { d with message := some m }

/-- Sets the source. -/
def withSource (d : Draft) (s : Source) : Draft := { d with source := some s }

/-- Makes an error the source, and takes text and span from it if there is no message yet. -/
def withPlacedError (d : Draft) (e : PlacedError) : Draft :=
  { d with
    message := d.message.or (some ⟨e.message, some e.span⟩)
    source := some (.placed e) }

/-- The finished diagnostic. -/
def finish (d : Draft) : Except Fault Diagnostic :=
  match d.message with
  | some m => .ok ⟨d.level, m, d.source⟩
  | none => .error .missingMessage

end Draft

/-- The diagnostics of a run. A listener makes a line of each diagnostic that it is shown. -/
structure Sink where
  emitted : List Diagnostic := []
  listener : Option (Diagnostic → String) := none
  heard : List String := []

namespace Sink

/-- Keeps a diagnostic and shows it to the listener. -/
def emit (s : Sink) (d : Diagnostic) : Sink :=
  { s with
    emitted := s.emitted ++ [d]
    heard := s.heard ++ (s.listener.map fun listener => listener d).toList }

/-- Emits a draft. -/
def emitDraft (s : Sink) (d : Draft) : Except Fault Sink :=
  return s.emit (← d.finish)

/-- Emits an error with a place of its own. -/
def report (s : Sink) (e : PlacedError) : Sink :=
  s.emit ⟨.error, ⟨e.message, some e.span⟩, some (.placed e)⟩

/-- Emits several errors in order. -/
def reportAll (s : Sink) (es : List PlacedError) : Sink :=
  es.foldl report s

/-- Sets the listener. -/
def listen (s : Sink) (listener : Diagnostic → String) : Sink :=
  { s with listener := some listener }

/-- Number of diagnostics. -/
def count (s : Sink) : Nat := s.emitted.length

/-- Whether there is no diagnostic. -/
def isEmpty (s : Sink) : Bool := s.emitted.isEmpty

/-- Whether there is an error; every level is one. -/
def hasErrors (s : Sink) : Bool := !s.emitted.isEmpty

end Sink

end CoolTypes
