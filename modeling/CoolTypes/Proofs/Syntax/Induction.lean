import CoolTypes.Syntax.Tree

/-!
# Induction on expressions

`Expr.induction` has one case for each form of expression and gives the hypothesis for each expression
that stands directly inside of it, be it in a receiver, a list, a binding or a branch.
-/

namespace CoolTypes

/-- The object that a receiver writes down, if it does. -/
def Receiver.object? : Receiver → Option Expr
  | .implicit => none
  | .dynamic o | .static o _ => some o

@[elab_as_elim]
theorem Expr.induction {P : Expr → Prop}
    (assign : ∀ n e s t, P e → P (.assign n e s t))
    (call : ∀ r m args s t, (∀ o ∈ r.object?, P o) → (∀ e ∈ args, P e) → P (.call r m args s t))
    (cond : ∀ a b c s t, P a → P b → P c → P (.cond a b c s t))
    (loop : ∀ a b s t, P a → P b → P (.loop a b s t))
    (block : ∀ es s t, (∀ e ∈ es, P e) → P (.block es s t))
    (letIn : ∀ b e s t, (∀ i ∈ b.init, P i) → P e → P (.letIn b e s t))
    (caseOf : ∀ e arms s t, P e → (∀ arm ∈ arms, P arm.body) → P (.caseOf e arms s t))
    (new : ∀ n s t, P (.new n s t))
    (binary : ∀ op a b s t, P a → P b → P (.binary op a b s t))
    (unary : ∀ op a s t, P a → P (.unary op a s t))
    (ident : ∀ n t, P (.ident n t))
    (int : ∀ v s t, P (.int v s t))
    (string : ∀ v s t, P (.string v s t))
    (bool : ∀ v s t, P (.bool v s t))
    (absent : ∀ s t, P (.absent s t))
    (e : Expr) : P e :=
  @Expr.rec P (fun r => ∀ o ∈ r.object?, P o) (fun b => ∀ i ∈ b.init, P i) (fun arm => P arm.body)
    (fun es => ∀ e ∈ es, P e) (fun arms => ∀ arm ∈ arms, P arm.body) (fun i => ∀ e ∈ i, P e)
    assign call cond loop block letIn caseOf new binary unary ident int string bool absent
    (fun _ h => by simp [Receiver.object?] at h)
    (fun o ho => by simpa [Receiver.object?] using ho)
    (fun o _ ho => by simpa [Receiver.object?] using ho)
    (fun _ _ _ _ h => h) (fun _ _ _ _ h => h)
    (fun _ h => absurd h List.not_mem_nil) (fun _ _ he hes => List.forall_mem_cons.mpr ⟨he, hes⟩)
    (fun _ h => absurd h List.not_mem_nil) (fun _ _ ha has => List.forall_mem_cons.mpr ⟨ha, has⟩)
    (fun _ h => absurd h (by simp)) (fun _ he => by simpa using he) e

end CoolTypes
