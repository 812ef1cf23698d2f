import CoolTypes.Analysis
import CoolTypes.Dump.Format
import CoolTypes.Syntax.Equality
import CoolTypes.Syntax.Sketch
import CoolTypes.Unit.Decode

/-!
# Sessions

A session works on one unit step by step. Its sink lives through all steps, and so do the graph and
the signatures of the last analysis, over which single expressions can be checked.
-/

namespace CoolTypes

/-- The classes that a dump shows. -/
inductive Selection where
  | all
  /-- Without the basic classes. -/
  | user
deriving DecidableEq

/-- A step of a session. -/
inductive Step where
  | check
  | install
  | validate
  | analyze (stage : Stage)
  /-- Checks types over a graph with exactly these edges. -/
  | checkOver (edges : List (String × String))
  | signatures
  | find (className name : String)
  | expr (e : SketchExpr)
  | binding (name typeName : String) (init : Option SketchExpr)
  | receiver (r : SketchReceiver)
  | dump (format : DumpFormat) (which : Selection)
  | reload (which : Selection)
  | visit
  | rename (old new : String)
  | annotated
  | tables
  | diagnostics

/-- A node of a walk, with the text of a name. -/
inductive Visited where
  | node (v : Visit)
  | name (span : Span) (text : String)

/-- A class with what can be used in it, over texts. -/
structure ClassSummary where
  className : String
  parent : Option String
  methods : List (String × List String × String × String)
  attrs : List (String × String × String)

/-- What a sink holds, in numbers. -/
structure SinkSummary where
  hasErrors : Bool
  isEmpty : Bool
  count : Nat

/-- A graph over texts. -/
abbrev Edges := List (String × String)

/-- The answer to a step. -/
inductive Answer where
  | checked (ok : Bool) (new : List Diagnostic)
  | installed (classes : List (String × String))
  | validated (ok : Bool) (graph : Edges) (new : List Diagnostic)
  | analyzed (success typed : Bool) (graph : Edges) (new : List Diagnostic)
  | emitted (new : List Diagnostic)
  | signatures (classes : Option (List ClassSummary))
  | found (result : Option (Bool × Option String × Option String))
  | typed (ty : Option String) (new : List Diagnostic)
  | text (s : String)
  | reloaded (same : Bool) (classes : Nat)
  | visited (log : List Visited)
  | count (n : Nat)
  | annotated (total missing : Nat)
  | tables (ids strings ints : List String)
  | diagnostics (s : SinkSummary)

/-- Why a session ends before its last step. -/
inductive SessionError where
  | fault (f : Fault)
  /-- The step needs the signatures of an earlier analysis. -/
  | noSignatures
  | load (e : LoadError)
deriving DecidableEq

/-- The state of a session. -/
structure Session where
  unit : CompilationUnit
  /-- Number of the last node that has been drawn. -/
  count : Nat := 0
  /-- The file to which drawn expressions belong. -/
  file : String
  sink : Sink := {}
  graph : InheritanceGraph := .empty
  signatures : Option Signatures := none

namespace Session

/-- The file of drawn programs, unless another one is given. -/
def defaultFile : String := "test.cl"

/-- A session on a drawn program. -/
def ofSketch (file : String) (classes : List SketchClass) : Session :=
  let (program, canvas) := (Draw.program classes).run { builder := .start .initial file }
  { unit := ⟨canvas.builder.tables, program⟩, count := canvas.count, file := file }

/-- A session on a loaded unit. -/
def ofText (file text : String) : Except LoadError Session :=
  return { unit := ← CompilationUnit.load text, file := file }

/-! ## Parts of answers -/

/-- What can go wrong at an operation, as the end of a session. -/
def orFault {α : Type} : Except Fault α → Except SessionError α
  | .ok a => .ok a
  | .error f => .error (.fault f)

/-- A text that the notation refuses to print, as the end of a session. -/
def orMalformed : Except String String → Except SessionError String
  | .ok text => .ok text
  | .error _ => .error (.load .malformed)

/-- The diagnostics that a sink has after the first ones. -/
def newSince (before : Nat) (s : Sink) : List Diagnostic := s.emitted.drop before

/-- A graph over texts. -/
def edgeTexts (t : SymbolTables) (g : InheritanceGraph) : Except Fault Edges :=
  g.entries.mapM fun e => return (← t.name e.1, ← t.name e.2)

/-- A class over texts. -/
def summary (t : SymbolTables) (e : Symbol × ClassTable) : Except Fault ClassSummary := do
  let className ← t.name e.1
  let parent ← e.2.parent.mapM t.name
  let methods ← e.2.methods.entries.mapM fun (n, sig) =>
    return (← t.name n, ← sig.params.mapM (·.text t), ← sig.ret.text t, ← t.name sig.definedIn)
  let attrs ← e.2.attrs.entries.mapM fun (n, sig) =>
    return (← t.name n, ← sig.ty.text t, ← t.name sig.definedIn)
  return ⟨className, parent, methods, attrs⟩

/-- A node of a walk over texts. -/
def visited (t : SymbolTables) : Visit → Except Fault Visited
  | .name n => return .name n.span (← t.name n.symbol)
  | v => return .node v

/-- The unit with a selection of its classes. -/
def select (u : CompilationUnit) : Selection → CompilationUnit
  | .all => u
  | .user =>
    { u with program := { u.program with
        classes := u.program.classes.filter fun c => c.file != u.tables.known .basicFile } }

/-! ## Steps -/

/-- Adds an identifier. -/
def intern (s : Session) (text : String) : Symbol × Session :=
  let (sym, t) := s.unit.tables.addId text
  (sym, { s with unit := { s.unit with tables := t } })

/-- Draws a part of a program into the tables of the session. -/
def draw {α : Type} (s : Session) (d : Draw α) : α × Session :=
  let (a, canvas) := d.run { builder := .start s.unit.tables s.file, count := s.count }
  (a, { s with unit := { s.unit with tables := canvas.builder.tables }, count := canvas.count })

/-- Draws a part of a program and checks it outside of any class. `typed` picks the expression whose
type is the answer. -/
def checkDrawn {α : Type} (s : Session) (d : Draw α) (check : Setting → α → Check α)
    (typed : α → Option Expr) : Except SessionError (Answer × Session) := do
  let (a, s) := s.draw d
  match s.signatures with
  | none => throw .noSignatures
  | some signatures =>
    let t := s.unit.tables
    let Γ : Setting := ⟨t, .ofGraph t s.graph, signatures⟩
    let (a, reports) ← orFault (Γ.run (check Γ a))
    let sink ← orFault (s.sink.reportOver t reports)
    let ty ← orFault (((typed a).bind (·.ty)).mapM (·.text t))
    return (.typed ty (newSince s.sink.count sink), { s with sink := sink })

/-- The object of a receiver. -/
def objectOf : Receiver → Option Expr
  | .implicit => none
  | .dynamic o => some o
  | .static o _ => some o

/-- Takes a step. -/
def step (s : Session) : Step → Except SessionError (Answer × Session)
  | .check =>
    let (ok, sink) := s.unit.checkSymbols s.sink
    return (.checked ok (newSince s.sink.count sink), { s with sink := sink })
  | .install => do
    let u ← orFault s.unit.installNarrow
    let classes ← orFault (u.program.classes.mapM fun c =>
      return (← u.tables.name c.name.symbol, ← u.tables.name c.file))
    return (.installed classes, { s with unit := u })
  | .validate => do
    let (i, sink) ← orFault (s.unit.validate s.sink)
    let edges ← orFault (edgeTexts s.unit.tables i.graph)
    return (.validated i.isValid edges (newSince s.sink.count sink),
      { s with sink := sink, graph := i.graph })
  | .analyze stage => do
    let (a, u, sink) ← orFault (s.unit.analyzeNarrow stage s.sink)
    let edges ← orFault (edgeTexts u.tables a.graph)
    return (.analyzed a.success a.signatures.isSome edges (newSince s.sink.count sink),
      { s with unit := u, sink := sink, graph := a.graph, signatures := a.signatures })
  | .checkOver edges => do
    let (pairs, s) := edges.foldl
      (fun (pairs, s) (c, p) =>
        let (c, s) := s.intern c
        let (p, s) := s.intern p
        (pairs ++ [(c, p)], s)) (([] : List (Symbol × Symbol)), s)
    let g := SymbolMap.ofList pairs
    let (signatures, u, sink) ← orFault (s.unit.checkTypes g s.sink)
    return (.emitted (newSince s.sink.count sink),
      { s with unit := u, sink := sink, graph := g, signatures := some signatures })
  | .signatures => do
    let classes ← orFault (s.signatures.mapM fun signatures =>
      signatures.classes.entries.mapM (summary s.unit.tables))
    return (.signatures classes, s)
  | .find className name => do
    let (c, s) := s.intern className
    let (n, s) := s.intern name
    let t := s.unit.tables
    let result ← orFault (s.signatures.mapM fun signatures => do
      let method ← (signatures.method? c n).mapM fun sig => t.name sig.definedIn
      let attr ← (signatures.attr? c n).mapM fun sig => t.name sig.definedIn
      return (signatures.contains c, method, attr))
    return (.found result, s)
  | .expr e => s.checkDrawn (Draw.expr e) Setting.expr some
  | .binding n ty init =>
    s.checkDrawn (Draw.letBinding n ty init) Setting.binding (·.init)
  | .receiver r => s.checkDrawn (Draw.receiver r) Setting.receiver objectOf
  | .dump format which => do
    let text ← orFault ((select s.unit which).dump .standard format)
    return (.text (← orMalformed text), s)
  | .reload which => do
    match CompilationUnit.load (← orMalformed (Notation.Codec.standard.dump (select s.unit which))) with
    | .error e => throw (.load e)
    | .ok u =>
      return (.reloaded (u.program == s.unit.program) u.program.classes.length,
        { s with unit := u })
  | .visit => do
    let log ← orFault (s.unit.program.visits.mapM (visited s.unit.tables))
    return (.visited log, s)
  | .rename old new =>
    let (old, s) := s.intern old
    let (new, s) := s.intern new
    let (p, n) := s.unit.program.rename old new
    return (.count n, { s with unit := { s.unit with program := p } })
  | .annotated =>
    let tys := s.unit.program.visits.filterMap fun
      | .expr ty _ => some ty
      | _ => none
    return (.annotated tys.length (tys.filter Option.isNone).length, s)
  | .tables =>
    let t := s.unit.tables
    return (.tables t.ids.entries t.strings.entries t.ints.entries, s)
  | .diagnostics =>
    return (.diagnostics ⟨s.sink.hasErrors, s.sink.isEmpty, s.sink.count⟩, s)

/-- Takes steps until one fails; gives the answers and the failure. -/
def run (s : Session) : List Step → List Answer × Option SessionError
  | [] => ([], none)
  | st :: rest =>
    match s.step st with
    | .error e => ([], some e)
    | .ok (a, s) =>
      let (answers, failure) := run s rest
      (a :: answers, failure)

end Session

end CoolTypes
