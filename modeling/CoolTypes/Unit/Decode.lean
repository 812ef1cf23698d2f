import CoolTypes.Notation.Standard
import CoolTypes.Syntax.Tree

/-!
# Units from values

A unit is read from a value of the object notation. How values stand for records, variants and optional parts
is up to the dialect of the text. Which fields a record has and which of them have a default is said here. The
first fault in the order of the text decides how a text fails.
-/

namespace CoolTypes

open Notation

/-- Why a text is no unit. -/
inductive LoadError where
  | malformed
  | duplicateEntry (error : DuplicateEntry)
deriving DecidableEq

/-- The reason that does not come from the notation. -/
def LoadError.reason? : LoadError → Option String
  | malformed => none
  | duplicateEntry e => some e.message

/-! ## Fields -/

/-- A field, which is smaller than all of them together. -/
def Notation.Fields.part? (key : String) : (fs : Fields) → Option {v : Value // sizeOf v < sizeOf fs}
  | [] => none
  | (k, v) :: rest =>
    if k = key then some ⟨v, by simp +arith⟩
    else match part? key rest with
      | some ⟨w, h⟩ => some ⟨w, by simp at h ⊢; omega⟩
      | none => none

/-- A field that must be there. -/
def Notation.Fields.required {α : Type} (fs : Fields) (key : String) (read : Value → Option α) :
    Option α :=
  (fs.lookup key).bind read

/-- A field with a default. -/
def Notation.Fields.withDefault {α : Type} (fs : Fields) (key : String) (default : α)
    (read : Value → Option α) : Option α :=
  match fs.lookup key with
  | some v => read v
  | none => some default

namespace Decode

variable (D : Dialect)

/-- Goes on only if a condition holds. -/
def require (b : Bool) : Option Unit := if b then some () else none

/-- The fields of a value that is a record of a kind, if they are those of such a record. -/
def record? (title : String) (own : List String) (v : Value) :
    Option {fs : Fields // sizeOf fs < sizeOf v} := do
  let fs ← D.record? title v
  require (D.fit own [] fs.1)
  return fs

/-- The parts of a list. -/
def list? : (v : Value) → Option {vs : List Value // sizeOf vs < sizeOf v}
  | .list vs => some ⟨vs, by simp⟩
  | _ => none

/-! ## Leaves -/

/-- A natural number below a bound. -/
def nat? (bound : Nat) : Value → Option Nat
  | .nat n => if n < bound then some n else none
  | _ => none

/-- A symbol, which has 32 bits. -/
def symbol? (v : Value) : Option Symbol := (nat? UInt32.size v).map Symbol.mk

/-- A text. -/
def str? : Value → Option String
  | .str s => some s
  | _ => none

/-- A truth value. -/
def bool? : Value → Option Bool
  | .word "true" => some true
  | .word "false" => some false
  | _ => none

/-- A position; both numbers have 64 bits. -/
def position? (v : Value) : Option Position := do
  let ⟨fs, _⟩ ← record? D "Position" ["line", "col"] v
  return ⟨← fs.required "line" (nat? UInt64.size), ← fs.required "col" (nat? UInt64.size)⟩

/-- A span. -/
def span? (v : Value) : Option Span := do
  let ⟨fs, _⟩ ← record? D "Span" ["start", "end"] v
  return ⟨← fs.required "start" (position? D), ← fs.required "end" (position? D)⟩

/-- The span of a node, which is the synthetic one if none is given. -/
def spanOf (fs : Fields) : Option Span := fs.withDefault "span" .synthetic (span? D)

/-- A name. -/
def name? (v : Value) : Option Name := do
  let ⟨fs, _⟩ ← record? D "Spanned" ["value", "span"] v
  return ⟨← fs.required "value" symbol?, ← spanOf D fs⟩

/-- A static type. -/
def ty? (joined : Bool) (v : Value) : Option Ty :=
  match D.variant? joined v with
  | some "SelfType" => if D.isUnit v then some .selfType else none
  | some "Class" => (D.content? v).bind fun c => (symbol? c).map .named
  | _ => none

/-- A part that may be absent. -/
def optionOf {α : Type} (read : Bool → Value → Option α) (v : Value) : Option (Option α) :=
  match D.optional? v with
  | none => none
  | some none => some none
  | some (some (joined, w)) => (read joined w).map some

/-- The static type of an expression, if one is given. -/
def tyOf (fs : Fields) : Option (Option Ty) := fs.withDefault "ty" none (optionOf D (ty? D))

/-- A variant that is nothing but its name. -/
def unitVariant? (v : Value) : Option String :=
  if D.isUnit v then D.variant? false v else none

/-- An operator with two operands. -/
def binaryOp? (v : Value) : Option BinaryOp :=
  (unitVariant? D v).bind fun w => BinaryOp.all.find? (·.title == w)

/-- An operator with one operand. -/
def unaryOp? (v : Value) : Option UnaryOp :=
  (unitVariant? D v).bind fun w => UnaryOp.all.find? (·.title == w)

/-! ## Expressions -/

/-- The known fields of the record of an expression. -/
def formKeys : ExprForm → List String
  | .assign => ["name", "expr", "span", "ty"]
  | .call => ["receiver", "method", "args", "span", "ty"]
  | .cond => ["antecedent", "consequent", "alternative", "span", "ty"]
  | .loop => ["condition", "body", "span", "ty"]
  | .block => ["body", "span", "ty"]
  | .letIn => ["binding", "expr", "span", "ty"]
  | .caseOf => ["scrutinee", "arms", "span", "ty"]
  | .new => ["ty_name", "span", "ty"]
  | .binary => ["op", "lhs", "rhs", "span", "ty"]
  | .unary => ["op", "expr", "span", "ty"]
  | .ident => ["name", "ty"]
  | .int => ["value", "span", "ty"]
  | .string => ["value", "span", "ty"]
  | .bool => ["value", "span", "ty"]
  | .absent => ["span", "ty"]

/-- The form of an expression and the fields of its record. -/
def exprRecord? (joined : Bool) (v : Value) :
    Option (ExprForm × {fs : Fields // sizeOf fs < sizeOf v}) := do
  let form ← ExprForm.ofTitle? (← D.variant? joined v)
  let fs ← D.contentRecord? form.recordTitle v
  require (D.fit (formKeys form) [] fs.1)
  return (form, fs)

theorem sizeOf_head_lt (v : Value) (rest : List Value) : sizeOf v < sizeOf (v :: rest) := by
  rw [List.cons.sizeOf_spec]; omega

theorem sizeOf_tail_lt (v : Value) (rest : List Value) : sizeOf rest < sizeOf (v :: rest) := by
  rw [List.cons.sizeOf_spec]; omega

mutual

/-- An expression. -/
def expr? (v : Value) : Option Expr :=
  match exprRecord? D false v with
  | none => none
  | some (form, ⟨fs, _⟩) => exprOf? form fs
termination_by sizeOf v

/-- The expression of a form with the fields of its record. -/
def exprOf? (form : ExprForm) (fs : Fields) : Option Expr :=
  match form with
  | .assign => do
    let ⟨e, _⟩ ← fs.part? "expr"
    return .assign (← fs.required "name" (name? D)) (← expr? e) (← spanOf D fs) (← tyOf D fs)
  | .call => do
    let ⟨r, _⟩ ← fs.part? "receiver"
    let ⟨args, _⟩ ← fs.part? "args"
    let ⟨args, _⟩ ← list? args
    return .call (← receiver? r) (← fs.required "method" (name? D)) (← exprs? args)
      (← spanOf D fs) (← tyOf D fs)
  | .cond => do
    let ⟨a, _⟩ ← fs.part? "antecedent"
    let ⟨b, _⟩ ← fs.part? "consequent"
    let ⟨c, _⟩ ← fs.part? "alternative"
    return .cond (← expr? a) (← expr? b) (← expr? c) (← spanOf D fs) (← tyOf D fs)
  | .loop => do
    let ⟨a, _⟩ ← fs.part? "condition"
    let ⟨b, _⟩ ← fs.part? "body"
    return .loop (← expr? a) (← expr? b) (← spanOf D fs) (← tyOf D fs)
  | .block => do
    let ⟨es, _⟩ ← fs.part? "body"
    let ⟨es, _⟩ ← list? es
    return .block (← exprs? es) (← spanOf D fs) (← tyOf D fs)
  | .letIn => do
    let ⟨b, _⟩ ← fs.part? "binding"
    let ⟨e, _⟩ ← fs.part? "expr"
    return .letIn (← binding? b) (← expr? e) (← spanOf D fs) (← tyOf D fs)
  | .caseOf => do
    let ⟨e, _⟩ ← fs.part? "scrutinee"
    let ⟨as, _⟩ ← fs.part? "arms"
    let ⟨as, _⟩ ← list? as
    return .caseOf (← expr? e) (← arms? as) (← spanOf D fs) (← tyOf D fs)
  | .new => do return .new (← fs.required "ty_name" (name? D)) (← spanOf D fs) (← tyOf D fs)
  | .binary => do
    let ⟨a, _⟩ ← fs.part? "lhs"
    let ⟨b, _⟩ ← fs.part? "rhs"
    return .binary (← fs.required "op" (binaryOp? D)) (← expr? a) (← expr? b) (← spanOf D fs)
      (← tyOf D fs)
  | .unary => do
    let ⟨a, _⟩ ← fs.part? "expr"
    return .unary (← fs.required "op" (unaryOp? D)) (← expr? a) (← spanOf D fs) (← tyOf D fs)
  | .ident => do return .ident (← fs.required "name" (name? D)) (← tyOf D fs)
  | .int => do return .int (← fs.required "value" symbol?) (← spanOf D fs) (← tyOf D fs)
  | .string => do return .string (← fs.required "value" symbol?) (← spanOf D fs) (← tyOf D fs)
  | .bool => do return .bool (← fs.required "value" bool?) (← spanOf D fs) (← tyOf D fs)
  | .absent => do return .absent (← spanOf D fs) (← tyOf D fs)
termination_by sizeOf fs

/-- Expressions. -/
def exprs? (vs : List Value) : Option (List Expr) :=
  match vs with
  | [] => some []
  | v :: rest => do return (← expr? v) :: (← exprs? rest)
termination_by sizeOf vs
decreasing_by
  · exact sizeOf_head_lt v rest
  · exact sizeOf_tail_lt v rest

/-- A receiver. -/
def receiver? (v : Value) : Option Receiver :=
  match D.variant? false v with
  | some "Implicit" => if D.isUnit v then some .implicit else none
  | some "Dynamic" =>
    match D.content? v with
    | none => none
    | some ⟨o, _⟩ => (expr? o).map .dynamic
  | some "Static" =>
    match D.fields? v with
    | none => none
    | some ⟨fs, _⟩ => do
      require (D.fit ["object", "ty_name"] [] fs)
      let ⟨o, _⟩ ← fs.part? "object"
      return .static (← expr? o) (← fs.required "ty_name" (name? D))
  | _ => none
termination_by sizeOf v

/-- A binding. -/
def binding? (v : Value) : Option Binding :=
  match record? D "Binding" ["name", "ty_name", "init", "span"] v with
  | none => none
  | some ⟨fs, _⟩ => do
    let init ← match fs.part? "init" with
      | none => some none
      | some ⟨i, _⟩ =>
        match D.optional? i with
        | none => none
        | some none => some none
        | some (some (joined, ⟨e, _⟩)) =>
          match exprRecord? D joined e with
          | none => none
          | some (form, ⟨fs, _⟩) => (exprOf? form fs).map some
    return ⟨← fs.required "name" (name? D), ← fs.required "ty_name" (name? D), init, ← spanOf D fs⟩
termination_by sizeOf v

/-- Case branches. -/
def arms? (vs : List Value) : Option (List Arm) :=
  match vs with
  | [] => some []
  | v :: rest =>
    match record? D "CaseArm" ["name", "ty_name", "expr", "span"] v with
    | none => none
    | some ⟨fs, _⟩ => do
      let ⟨e, _⟩ ← fs.part? "expr"
      let arm : Arm :=
        ⟨← fs.required "name" (name? D), ← fs.required "ty_name" (name? D), ← expr? e,
          ← spanOf D fs⟩
      return arm :: (← arms? rest)
termination_by sizeOf vs
decreasing_by
  · exact Nat.lt_trans (Nat.lt_trans ‹sizeOf e < sizeOf fs› ‹sizeOf fs < sizeOf v›)
      (sizeOf_head_lt v rest)
  · exact sizeOf_tail_lt v rest

end

/-! ## Declarations -/

/-- A parameter. -/
def formal? (v : Value) : Option Formal := do
  let ⟨fs, _⟩ ← record? D "Formal" ["name", "ty_name", "span"] v
  return ⟨← fs.required "name" (name? D), ← fs.required "ty_name" (name? D), ← spanOf D fs⟩

/-- The parts of a list, one by one. -/
def items {α : Type} (read : Value → Option α) (v : Value) : Option (List α) := do
  let ⟨vs, _⟩ ← list? v
  vs.mapM read

/-- The fields of a method. -/
def method? (fs : Fields) : Option Method := do
  require (D.fit ["name", "params", "return_ty", "body", "span"] [] fs)
  return ⟨← fs.required "name" (name? D), ← fs.required "params" (items (formal? D)),
    ← fs.required "return_ty" (name? D), ← fs.required "body" (expr? D), ← spanOf D fs⟩

/-- A feature. An attribute is a wrapper around its binding. -/
def feature? (v : Value) : Option Feature :=
  match D.variant? false v with
  | some "Attribute" => do
    let ⟨inner, _⟩ ← D.content? v
    let ⟨w, _⟩ ← D.wrapped? "Attribute" inner
    return .attr (← binding? D w)
  | some "Method" => do
    let ⟨fs, _⟩ ← D.contentRecord? "Method" v
    return .method (← method? D fs)
  | _ => none

/-- A class. -/
def class? (v : Value) : Option Class := do
  let ⟨fs, _⟩ ← record? D "Class" ["name", "parent", "file", "features", "span"] v
  return ⟨← fs.required "name" (name? D), ← fs.required "parent" (name? D),
    ← fs.required "file" symbol?, ← fs.required "features" (items (feature? D)), ← spanOf D fs⟩

/-- A program. -/
def program? (v : Value) : Option Program := do
  let ⟨fs, _⟩ ← record? D "Program" ["classes", "span"] v
  return ⟨← fs.required "classes" (items (class? D)), ← spanOf D fs⟩

/-! ## Tables and units -/

/-- A result, or the failure of a text that is not well formed. -/
def orMalformed {α : Type} : Option α → Except LoadError α
  | some a => .ok a
  | none => .error .malformed

/-- Reads the fields of a record that fails in its own way, one by one, after fields of the names `seen`. -/
def readFields {σ : Type} (own : List String) (step : σ → String × Value → Except LoadError σ) :
    List String → σ → Fields → Except LoadError σ
  | _, done, [] => .ok done
  | seen, done, f :: fs => do
    orMalformed (require (D.goesOn own seen f))
    readFields own step (f.1 :: seen) (← step done f) fs

/-- A table. -/
def interner (v : Value) : Except LoadError Interner := do
  match Interner.ofList (← orMalformed (items str? v)) with
  | .ok t => return t
  | .error e => throw (.duplicateEntry e)

/-- What has been read of the tables of a unit. -/
structure TableParts where
  ids : Option Interner := none
  strings : Option Interner := none
  ints : Option Interner := none

/-- The known fields of the tables. -/
def tableKeys : List String := ["ids", "strings", "ints"]

/-- Reads a field of the tables. -/
def TableParts.field (p : TableParts) : String × Value → Except LoadError TableParts
  | ("ids", v) => return { p with ids := some (← interner v) }
  | ("strings", v) => return { p with strings := some (← interner v) }
  | ("ints", v) => return { p with ints := some (← interner v) }
  | _ => .ok p

/-- The tables of a unit. -/
def tables (v : Value) : Except LoadError SymbolTables := do
  let ⟨fs, _⟩ ← orMalformed (D.record? "RawSymbolTables" v)
  let p ← readFields D tableKeys TableParts.field [] {} fs
  return .ofParts (← orMalformed p.ids) (p.strings.getD .empty) (p.ints.getD .empty)

/-- What has been read of a unit. -/
structure Parts where
  tables : Option SymbolTables := none
  program : Option Program := none

/-- The known fields of a unit. -/
def unitKeys : List String := ["symbols", "program"]

/-- Reads a field of a unit. -/
def Parts.field (p : Parts) : String × Value → Except LoadError Parts
  | ("symbols", v) => return { p with tables := some (← Decode.tables D v) }
  | ("program", v) => return { p with program := some (← orMalformed (program? D v)) }
  | _ => .ok p

/-- A unit. -/
def unit (v : Value) : Except LoadError CompilationUnit := do
  let ⟨fs, _⟩ ← orMalformed (D.record? "CompilationUnit" v)
  let p ← readFields D unitKeys (Parts.field D) [] {} fs
  return ⟨← orMalformed p.tables, ← orMalformed p.program⟩

/-- Nothing may follow the value of a text. -/
def whole {α : Type} (d : Document) (a : α) : Except LoadError α :=
  if d.clean then .ok a else .error .malformed

end Decode

/-- Loads the tables of a unit from a text. -/
def Notation.Codec.loadTables (c : Codec) (text : String) : Except LoadError SymbolTables := do
  let d := c.read text
  Decode.whole d (← Decode.tables d.dialect d.value)

/-- Loads a unit from a text. -/
def Notation.Codec.load (c : Codec) (text : String) : Except LoadError CompilationUnit := do
  let d := c.read text
  Decode.whole d (← Decode.unit d.dialect d.value)

/-- Loads the tables of a unit from a text of the standard notation. -/
def SymbolTables.load (text : String) : Except LoadError SymbolTables := Codec.standard.loadTables text

/-- Loads a unit from a text of the standard notation. -/
def CompilationUnit.load (text : String) : Except LoadError CompilationUnit := Codec.standard.load text

end CoolTypes
