import CoolTypes.Syntax.Tree

/-!
# Equality of programs

Two programs are equal if they agree node by node, spans and static types included.
-/

namespace CoolTypes

mutual

/-- Whether two expressions are equal. -/
def Expr.beq : Expr → Expr → Bool
  | .assign n e s t, .assign n' e' s' t' => n == n' && e.beq e' && s == s' && t == t'
  | .call .implicit m args s t, .call .implicit m' args' s' t' =>
    m == m' && beqAll args args' && s == s' && t == t'
  | .call (.dynamic o) m args s t, .call (.dynamic o') m' args' s' t' =>
    o.beq o' && m == m' && beqAll args args' && s == s' && t == t'
  | .call (.static o n) m args s t, .call (.static o' n') m' args' s' t' =>
    o.beq o' && n == n' && m == m' && beqAll args args' && s == s' && t == t'
  | .cond a b c s t, .cond a' b' c' s' t' =>
    a.beq a' && b.beq b' && c.beq c' && s == s' && t == t'
  | .loop a b s t, .loop a' b' s' t' => a.beq a' && b.beq b' && s == s' && t == t'
  | .block es s t, .block es' s' t' => beqAll es es' && s == s' && t == t'
  | .letIn ⟨n, ty, none, bs⟩ e s t, .letIn ⟨n', ty', none, bs'⟩ e' s' t' =>
    n == n' && ty == ty' && bs == bs' && e.beq e' && s == s' && t == t'
  | .letIn ⟨n, ty, some i, bs⟩ e s t, .letIn ⟨n', ty', some i', bs'⟩ e' s' t' =>
    n == n' && ty == ty' && i.beq i' && bs == bs' && e.beq e' && s == s' && t == t'
  | .caseOf e arms s t, .caseOf e' arms' s' t' =>
    e.beq e' && beqArms arms arms' && s == s' && t == t'
  | .new n s t, .new n' s' t' => n == n' && s == s' && t == t'
  | .binary op a b s t, .binary op' a' b' s' t' =>
    op == op' && a.beq a' && b.beq b' && s == s' && t == t'
  | .unary op a s t, .unary op' a' s' t' => op == op' && a.beq a' && s == s' && t == t'
  | .ident n t, .ident n' t' => n == n' && t == t'
  | .int v s t, .int v' s' t' => v == v' && s == s' && t == t'
  | .string v s t, .string v' s' t' => v == v' && s == s' && t == t'
  | .bool v s t, .bool v' s' t' => v == v' && s == s' && t == t'
  | .absent s t, .absent s' t' => s == s' && t == t'
  | _, _ => false

/-- Whether two lists of expressions are equal. -/
def Expr.beqAll : List Expr → List Expr → Bool
  | [], [] => true
  | e :: es, e' :: es' => e.beq e' && beqAll es es'
  | _, _ => false

/-- Whether two lists of case branches are equal. -/
def Expr.beqArms : List Arm → List Arm → Bool
  | [], [] => true
  | ⟨n, ty, e, s⟩ :: as, ⟨n', ty', e', s'⟩ :: as' =>
    n == n' && ty == ty' && e.beq e' && s == s' && beqArms as as'
  | _, _ => false

end

instance : BEq Expr := ⟨Expr.beq⟩

instance : BEq Binding :=
  ⟨fun b b' => b.name == b'.name && b.typeName == b'.typeName && b.init == b'.init &&
    b.span == b'.span⟩

instance : BEq Method :=
  ⟨fun m m' => m.name == m'.name && m.params == m'.params && m.returnType == m'.returnType &&
    m.body == m'.body && m.span == m'.span⟩

instance : BEq Feature where
  beq
    | .method m, .method m' => m == m'
    | .attr b, .attr b' => b == b'
    | _, _ => false

instance : BEq Class :=
  ⟨fun c c' => c.name == c'.name && c.parent == c'.parent && c.file == c'.file &&
    c.features == c'.features && c.span == c'.span⟩

instance : BEq Program := ⟨fun p p' => p.classes == p'.classes && p.span == p'.span⟩

end CoolTypes
