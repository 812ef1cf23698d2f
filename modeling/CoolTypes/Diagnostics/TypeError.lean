import CoolTypes.Source.Span
import CoolTypes.Syntax.Ty

/-!
# Type errors

A violation is a rule of the language that a program breaks. The analysis finds violations over the
symbols and types of a program; a reader is shown them over texts. `TypeError.spell` goes from the
first form to the second and looks symbols up in the order in which the violation needs them.
-/

namespace CoolTypes

/-- Where the self type has no meaning. -/
inductive SelfTypePlace where
  | className | parameter | staticDispatch | caseArm
deriving DecidableEq

/-- What is defined a second time. -/
inductive Repeated where
  | attr (inherited : Bool)
  | method
  | parameter
deriving DecidableEq

/-- How a method differs from the one that it overrides. -/
inductive Mismatch where
  | paramCount (expected actual : Nat)
  | paramType (index : Nat)
  | returnType
deriving DecidableEq

/-- A broken rule, over names of type `ν` and types of type `τ`. -/
inductive Violation (ν τ : Type) where
  | illegalParent (className : ν) (parent : BuiltinClass)
  | builtinRedefined (builtin : BuiltinClass)
  | multipleClassDefinition (className : ν)
  | unresolvedParent (className parent : ν)
  | noMainClass
  | inheritanceCycle (className : ν)
  | illegalSelfType (place : SelfTypePlace)
  | undeclaredType (typeName : ν)
  | undeclaredIdentifier (name : ν)
  | undeclaredMethod (className method : ν)
  | mismatchedTypes (expected actual : τ)
  | argumentCount (expected supplied : Nat)
  | duplicateCaseType (typeName : ν)
  | multipleDefinition (repeated : Repeated) (name : ν)
  | invalidOverride (method ancestor : ν) (mismatch : Mismatch)
  | illegalSelf
deriving DecidableEq

/-- A broken rule and where it is broken. -/
structure TypeError (ν τ : Type) where
  violation : Violation ν τ
  span : Span
deriving DecidableEq

/-- A type error over the symbols of a program. -/
abbrev Report := TypeError Symbol Ty

/-- Puts a violation at its place. That no main class exists has no place of its own. -/
def Violation.place {ν τ : Type} (v : Violation ν τ) (span : Span) : TypeError ν τ :=
  match v with
  | .noMainClass => ⟨.noMainClass, .synthetic⟩
  | v => ⟨v, span⟩

/-! ## From symbols to texts -/

/-- The violation over texts. -/
def Violation.spell (t : SymbolTables) :
    Violation Symbol Ty → Except Fault (Violation String String)
  | illegalParent c p => return .illegalParent (← t.name c) p
  | builtinRedefined b => return .builtinRedefined b
  | multipleClassDefinition c => return .multipleClassDefinition (← t.name c)
  | unresolvedParent c p => return .unresolvedParent (← t.name c) (← t.name p)
  | noMainClass => return .noMainClass
  | inheritanceCycle c => return .inheritanceCycle (← t.name c)
  | illegalSelfType p => return .illegalSelfType p
  | undeclaredType n => return .undeclaredType (← t.name n)
  | undeclaredIdentifier n => return .undeclaredIdentifier (← t.name n)
  | undeclaredMethod c m => return .undeclaredMethod (← t.name c) (← t.name m)
  | mismatchedTypes e a => return .mismatchedTypes (← e.text t) (← a.text t)
  | argumentCount e s => return .argumentCount e s
  | duplicateCaseType n => return .duplicateCaseType (← t.name n)
  | multipleDefinition r n => return .multipleDefinition r (← t.name n)
  | invalidOverride m a d => do
    -- the ancestor is named before the method
    let ancestor ← t.name a
    return .invalidOverride (← t.name m) ancestor d
  | illegalSelf => return .illegalSelf

/-- The type error over texts. -/
def TypeError.spell (t : SymbolTables) (r : Report) : Except Fault (TypeError String String) :=
  return ⟨← r.violation.spell t, r.span⟩

/-! ## Texts -/

/-- Completes `cannot occur in`. -/
def SelfTypePlace.text : SelfTypePlace → String
  | className => "a class name position"
  | parameter => "a method parameter"
  | staticDispatch => "a static dispatch type specifier"
  | caseArm => "a case arm"

/-- What is repeated, in one word. -/
def Repeated.text : Repeated → String
  | attr _ => "attribute"
  | method => "method"
  | parameter => "parameter"

/-- The ending of a noun that is counted. -/
def plural (n : Nat) : String := if n = 1 then "" else "s"

/-- A name between grave accents. -/
def ticked (name : String) : String := "`" ++ name ++ "`"

/-- The difference in words. -/
def Mismatch.text : Mismatch → String
  | paramCount e a =>
    "expected " ++ toString e ++ " parameter" ++ plural e ++ ", found " ++ toString a
  | paramType i => "the type of parameter #" ++ toString (i + 1) ++ " differs"
  | returnType => "the return type differs"

/-- The message of a violation. -/
def Violation.message : Violation String String → String
  | illegalParent c p =>
    "class " ++ ticked c ++ " inherits from the built-in class " ++ ticked p.name ++
      ", which is forbidden"
  | builtinRedefined b => "redefinition of the built-in class " ++ ticked b.name
  | multipleClassDefinition c => "class " ++ ticked c ++ " has multiple definitions"
  | unresolvedParent c p =>
    "class " ++ ticked c ++ " inherits from a class " ++ ticked p ++ " that doesn't exist"
  | noMainClass => "no " ++ ticked "Main" ++ " class found"
  | inheritanceCycle c =>
    "an inheritance cycle containing " ++ ticked c ++ " has been detected"
  | illegalSelfType p => ticked "SELF_TYPE" ++ " cannot occur in " ++ p.text
  | undeclaredType n => "the type name " ++ ticked n ++ " is not declared"
  | undeclaredIdentifier n => "undeclared identifier " ++ ticked n
  | undeclaredMethod c m =>
    "class " ++ ticked c ++ " does not have a method named " ++ ticked m
  | mismatchedTypes e a => "mismatched types: expected " ++ ticked e ++ ", found " ++ ticked a
  | argumentCount e s =>
    "this method takes " ++ toString e ++ " argument" ++ plural e ++ " but " ++ toString s ++
      " argument" ++ plural s ++ (if s = 1 then " was" else " were") ++ " supplied"
  | duplicateCaseType n =>
    "the type " ++ ticked n ++ " is matched by more than one case branch"
  | multipleDefinition r n =>
    "detected multiple definition: " ++ r.text ++ " " ++ ticked n ++ " is already defined" ++
      (if r = .attr true then " in a superclass" else "")
  | invalidOverride m a d =>
    "method " ++ ticked m ++ " overrides the one defined in " ++ ticked a ++
      " with a different signature: " ++ d.text
  | illegalSelf => ticked "self" ++ " cannot be used here"

/-- The title of a violation. -/
def Violation.title {ν τ : Type} : Violation ν τ → String
  | illegalParent .. => "IllegalParent"
  | builtinRedefined _ => "BuiltinRedefined"
  | multipleClassDefinition _ => "MultipleClassDefinition"
  | unresolvedParent .. => "UnresolvedParent"
  | noMainClass => "NoMainClass"
  | inheritanceCycle _ => "InheritanceCycle"
  | illegalSelfType _ => "IllegalSelfType"
  | undeclaredType _ => "UndeclaredType"
  | undeclaredIdentifier _ => "UndeclaredIdentifier"
  | undeclaredMethod .. => "UndeclaredMethod"
  | mismatchedTypes .. => "MismatchedTypes"
  | argumentCount .. => "InvalidNumberOfArguments"
  | duplicateCaseType _ => "DuplicateCaseBranchType"
  | multipleDefinition .. => "MultipleDefinition"
  | invalidOverride .. => "InvalidOverride"
  | illegalSelf => "IllegalSelf"

end CoolTypes
