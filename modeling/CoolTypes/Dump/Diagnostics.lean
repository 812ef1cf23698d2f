import CoolTypes.Diagnostics.Sink
import CoolTypes.Dump.Parts

/-!
# Listings of diagnostics

The structure of errors, diagnostics and of a sink.
-/

namespace CoolTypes

/-- The word for a place of the self type. -/
def SelfTypePlace.title : SelfTypePlace → String
  | className => "ClassName"
  | parameter => "Parameter"
  | staticDispatch => "StaticDispatch"
  | caseArm => "CaseArm"

/-- The word for a table. -/
def TableKind.title : TableKind → String
  | ids => "Identifiers"
  | strings => "Strings"
  | ints => "Ints"

/-- The structure of what is repeated. -/
def Repeated.toListing : Repeated → Listing
  | attr inherited => .record "Attribute" [("inherited", .atom (toString inherited))] false
  | method => .atom "Method"
  | parameter => .atom "Parameter"

/-- The structure of an override mismatch. -/
def Mismatch.toListing : Mismatch → Listing
  | paramCount e a => .record "ParamCount" [("expected", .nat e), ("actual", .nat a)] false
  | paramType i => .record "ParamTy" [("index", .nat i)] false
  | returnType => .atom "ReturnTy"

/-- The structure of a type error. -/
def TypeError.toListing (e : TypeError String String) : Listing :=
  let title := e.violation.title
  let span := ("span", e.span.toListing)
  match e.violation with
  | .illegalParent c p =>
    .record title [("class", .text c), ("parent", .atom p.name), span] false
  | .builtinRedefined b => .record title [("builtin", .atom b.name), span] false
  | .multipleClassDefinition c | .inheritanceCycle c =>
    .record title [("class", .text c), span] false
  | .unresolvedParent c p => .record title [("class", .text c), ("parent", .text p), span] false
  | .noMainClass => .atom title
  | .illegalSelfType p => .record title [("position", .atom p.title), span] false
  | .undeclaredType n | .duplicateCaseType n => .record title [("ty_name", .text n), span] false
  | .undeclaredIdentifier n => .record title [("name", .text n), span] false
  | .undeclaredMethod c m => .record title [("class", .text c), ("method", .text m), span] false
  | .mismatchedTypes x a =>
    .group title [.record title [span, ("expected_ty", .text x), ("actual_ty", .text a)] false]
  | .argumentCount x s =>
    .record title [span, ("expected_count", .nat x), ("supplied_count", .nat s)] false
  | .multipleDefinition r n =>
    .record title [("kind", r.toListing), ("name", .text n), span] false
  | .invalidOverride m a d =>
    .group title [.record title
      [span, ("method", .text m), ("ancestor", .text a), ("mismatch", d.toListing)] false]
  | .illegalSelf => .record title [span] false

/-- The structure of an unknown symbol. -/
def UnknownSymbol.toListing (u : UnknownSymbol) : Listing :=
  .record "UnknownSymbol"
    [("table", .atom u.table.title), ("index", .nat u.index), ("table_len", .nat u.size),
      ("span", u.span.toListing)] false

/-- The structure of the error that a diagnostic comes from. -/
def Source.toListing : Source → Listing
  | placed (.typeError e) => e.toListing
  | placed (.unknownSymbol u) => u.toListing
  | duplicateEntry e => .group "DuplicateEntry" [.text e.text]
  | system text => .atom text

/-- The structure of a diagnostic. -/
def Diagnostic.toListing (d : Diagnostic) : Listing :=
  .record "Diagnostic"
    [("level", .atom d.level.title),
      ("message", .record "DiagnosticMessage"
        [("span", .option (d.message.span.map Span.toListing)), ("message", .text d.message.text)]
        false),
      ("source", .option (d.source.map Source.toListing))] false

/-- The structure of a sink; its listener is not shown. -/
def Sink.toListing (s : Sink) : Listing :=
  .record "Diagnostics" [("diagnostics", .sequence (s.emitted.map Diagnostic.toListing))] true

end CoolTypes
