import CoolTypes.Diagnostics.Sink

/-!
# Diagnostics as lines

A diagnostic is shown as one line: its level, the place if it is known, and the message. The error
that it comes from follows the message unless it says the same or has a place of its own. The word for
the level can be coloured.
-/

namespace CoolTypes.CommandLine

/-- How the word for a level is shown at the start of a line. -/
structure Style where
  tag (l : Level) : String

namespace Style

/-- Words without colours. -/
def plain : Style where
  tag
    | .fatal => "fatal:"
    | .error => "error:"

/-- Fatal ones are red, others bright red. -/
def coloured : Style where
  tag
    | .fatal => "\x1b[31mfatal:\x1b[39m"
    | .error => "\x1b[91merror:\x1b[39m"

end Style

/-- The place of a diagnostic, as far as it is known. -/
def placeText (path : Option String) (span : Option Span) : String :=
  let parts := path.toList ++ (span.map Span.text).toList
  if parts.isEmpty then "" else ":".intercalate parts ++ ": "

/-- What a line says after the place. -/
def bodyText (d : Diagnostic) : String :=
  match d.message.span, d.source with
  | none, some source =>
    if source.message == d.message.text then d.message.text
    else d.message.text ++ ": " ++ source.message
  | _, _ => d.message.text

/-- A diagnostic about a file as a line. -/
def line (style : Style) (path : Option String) (d : Diagnostic) : String :=
  style.tag d.level ++ " " ++ placeText path d.message.span ++ bodyText d

end CoolTypes.CommandLine
