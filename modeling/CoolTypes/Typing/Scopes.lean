import CoolTypes.Fault
import CoolTypes.Symbol.Map
import CoolTypes.Syntax.Ty

/-!
# Scopes

Names are bound to types in a stack of scopes. A name stands for its type in the innermost scope
that binds it, and the outermost scope cannot be closed.
-/

namespace CoolTypes

/-- A stack of at least one scope, the innermost one first. -/
structure Scopes where
  inner : SymbolMap Ty := .empty
  outer : List (SymbolMap Ty) := []

namespace Scopes

/-- Number of open scopes. -/
def depth (s : Scopes) : Nat := s.outer.length + 1

/-- All scopes, the innermost one first. -/
def toList (s : Scopes) : List (SymbolMap Ty) := s.inner :: s.outer

/-- The type of a name. -/
def resolve? (s : Scopes) (name : Symbol) : Option Ty :=
  s.toList.findSome? (·.get? name)

/-- The type of a name in the innermost scope. -/
def local? (s : Scopes) (name : Symbol) : Option Ty := s.inner.get? name

/-- Binds a name in the innermost scope. -/
def bind (s : Scopes) (name : Symbol) (ty : Ty) : Scopes :=
  { s with inner := s.inner.insert name ty }

/-- Opens a scope. -/
def push (s : Scopes) : Scopes := ⟨.empty, s.toList⟩

/-- Closes the innermost scope. -/
def pop (s : Scopes) : Except Fault Scopes :=
  match s.outer with
  | inner :: outer => .ok ⟨inner, outer⟩
  | [] => .error .outermostScope

@[simp] theorem pop_push (s : Scopes) : s.push.pop = .ok s := rfl

theorem resolve?_push (s : Scopes) (name : Symbol) : s.push.resolve? name = s.resolve? name := rfl

theorem resolve?_bind (s : Scopes) (name other : Symbol) (ty : Ty) :
    (s.bind name ty).resolve? other = if other = name then some ty else s.resolve? other := by
  unfold resolve? toList bind
  simp only [List.findSome?_cons, SymbolMap.get?_insert]
  by_cases h : other = name <;> simp [h]

end Scopes

end CoolTypes
