import CoolTypes.Proofs.Diagnostics.Spelling
import CoolTypes.Proofs.Syntax.Induction

/-!
# Symbol-valid programs

A program is symbol-valid if each symbol in it, static types included, belongs to its own table. This
is said form by form, whether a walk reaches a node or not. Tables that grow keep it.
-/

namespace CoolTypes

/-- The symbol of a name belongs to the identifier table. -/
def Name.SymbolValid (t : SymbolTables) (n : Name) : Prop := t.Has .ids n.symbol

/-- The name of the class that a receiver is seen as, if one is written. -/
def Receiver.typeName? : Receiver → Option Name
  | .implicit | .dynamic _ => none
  | .static _ n => some n

/-- All symbols of an expression belong to their tables. -/
inductive Expr.SymbolValid (t : SymbolTables) : Expr → Prop where
  | assign {n e s ty} : n.SymbolValid t → SymbolValid t e → (∀ T ∈ ty, T.SymbolValid t) →
      SymbolValid t (.assign n e s ty)
  | call {r m args s ty} : (∀ o ∈ r.object?, SymbolValid t o) →
      (∀ n ∈ r.typeName?, n.SymbolValid t) → m.SymbolValid t → (∀ e ∈ args, SymbolValid t e) →
      (∀ T ∈ ty, T.SymbolValid t) → SymbolValid t (.call r m args s ty)
  | cond {a b c s ty} : SymbolValid t a → SymbolValid t b → SymbolValid t c →
      (∀ T ∈ ty, T.SymbolValid t) → SymbolValid t (.cond a b c s ty)
  | loop {a b s ty} : SymbolValid t a → SymbolValid t b → (∀ T ∈ ty, T.SymbolValid t) →
      SymbolValid t (.loop a b s ty)
  | block {es s ty} : (∀ e ∈ es, SymbolValid t e) → (∀ T ∈ ty, T.SymbolValid t) →
      SymbolValid t (.block es s ty)
  | letIn {b e s ty} : b.name.SymbolValid t → b.typeName.SymbolValid t →
      (∀ i ∈ b.init, SymbolValid t i) → SymbolValid t e → (∀ T ∈ ty, T.SymbolValid t) →
      SymbolValid t (.letIn b e s ty)
  | caseOf {e arms s ty} : SymbolValid t e → (∀ arm ∈ arms, arm.name.SymbolValid t) →
      (∀ arm ∈ arms, arm.typeName.SymbolValid t) → (∀ arm ∈ arms, SymbolValid t arm.body) →
      (∀ T ∈ ty, T.SymbolValid t) → SymbolValid t (.caseOf e arms s ty)
  | new {n s ty} : n.SymbolValid t → (∀ T ∈ ty, T.SymbolValid t) → SymbolValid t (.new n s ty)
  | binary {op a b s ty} : SymbolValid t a → SymbolValid t b → (∀ T ∈ ty, T.SymbolValid t) →
      SymbolValid t (.binary op a b s ty)
  | unary {op a s ty} : SymbolValid t a → (∀ T ∈ ty, T.SymbolValid t) →
      SymbolValid t (.unary op a s ty)
  | ident {n ty} : n.SymbolValid t → (∀ T ∈ ty, T.SymbolValid t) → SymbolValid t (.ident n ty)
  | int {v s ty} : t.Has .ints v → (∀ T ∈ ty, T.SymbolValid t) → SymbolValid t (.int v s ty)
  | string {v s ty} : t.Has .strings v → (∀ T ∈ ty, T.SymbolValid t) →
      SymbolValid t (.string v s ty)
  | bool {v s ty} : (∀ T ∈ ty, T.SymbolValid t) → SymbolValid t (.bool v s ty)
  | absent {s ty} : (∀ T ∈ ty, T.SymbolValid t) → SymbolValid t (.absent s ty)

/-- All symbols of a binding belong to their tables. -/
structure Binding.SymbolValid (t : SymbolTables) (b : Binding) : Prop where
  name : b.name.SymbolValid t
  typeName : b.typeName.SymbolValid t
  init : ∀ i ∈ b.init, i.SymbolValid t

/-- All symbols of a case branch belong to their tables. -/
structure Arm.SymbolValid (t : SymbolTables) (arm : Arm) : Prop where
  name : arm.name.SymbolValid t
  typeName : arm.typeName.SymbolValid t
  body : arm.body.SymbolValid t

/-- All symbols of a parameter belong to the identifier table. -/
structure Formal.SymbolValid (t : SymbolTables) (f : Formal) : Prop where
  name : f.name.SymbolValid t
  typeName : f.typeName.SymbolValid t

/-- All symbols of a method belong to their tables. -/
structure Method.SymbolValid (t : SymbolTables) (m : Method) : Prop where
  name : m.name.SymbolValid t
  params : ∀ f ∈ m.params, f.SymbolValid t
  returnType : m.returnType.SymbolValid t
  body : m.body.SymbolValid t

/-- All symbols of a feature belong to their tables. -/
def Feature.SymbolValid (t : SymbolTables) : Feature → Prop
  | method m => m.SymbolValid t
  | attr b => b.SymbolValid t

/-- All symbols of a class belong to their tables, its file included. -/
structure Class.SymbolValid (t : SymbolTables) (c : Class) : Prop where
  name : c.name.SymbolValid t
  parent : c.parent.SymbolValid t
  file : t.Has .ids c.file
  features : ∀ f ∈ c.features, f.SymbolValid t

/-- All symbols of a program belong to their tables. -/
def Program.SymbolValid (t : SymbolTables) (p : Program) : Prop := ∀ c ∈ p.classes, c.SymbolValid t

/-- All symbols of the program of a unit belong to the tables of the unit. -/
def CompilationUnit.SymbolValid (u : CompilationUnit) : Prop := u.program.SymbolValid u.tables

/-! ## Tables that grow -/

section Mono

variable {t u : SymbolTables}

theorem Ty.SymbolValid.mono {T : Ty} (h : T.SymbolValid t) (htu : t.Le u) : T.SymbolValid u := by
  cases T with
  | named c => exact SymbolTables.Has.mono h htu
  | selfType => trivial

theorem Name.SymbolValid.mono {n : Name} (h : n.SymbolValid t) (htu : t.Le u) :
    n.SymbolValid u :=
  SymbolTables.Has.mono h htu

theorem Expr.SymbolValid.mono {e : Expr} (h : e.SymbolValid t) (htu : t.Le u) :
    e.SymbolValid u := by
  have hann : ∀ {ty : Option Ty}, (∀ T ∈ ty, T.SymbolValid t) → ∀ T ∈ ty, T.SymbolValid u :=
    fun hty T hT => (hty T hT).mono htu
  induction h with
  | assign hn _ hty ih => exact .assign (hn.mono htu) ih (hann hty)
  | call _ hn hm _ hty iho ihargs =>
    exact .call iho (fun n h => (hn n h).mono htu) (hm.mono htu) ihargs (hann hty)
  | cond _ _ _ hty iha ihb ihc => exact .cond iha ihb ihc (hann hty)
  | loop _ _ hty iha ihb => exact .loop iha ihb (hann hty)
  | block _ hty ih => exact .block ih (hann hty)
  | letIn hn htn _ _ hty ihi ih => exact .letIn (hn.mono htu) (htn.mono htu) ihi ih (hann hty)
  | caseOf _ hn htn _ hty ih iharms =>
    exact .caseOf ih (fun arm h => (hn arm h).mono htu) (fun arm h => (htn arm h).mono htu) iharms
      (hann hty)
  | new hn hty => exact .new (hn.mono htu) (hann hty)
  | binary _ _ hty iha ihb => exact .binary iha ihb (hann hty)
  | unary _ hty ih => exact .unary ih (hann hty)
  | ident hn hty => exact .ident (hn.mono htu) (hann hty)
  | int hv hty => exact .int (hv.mono htu) (hann hty)
  | string hv hty => exact .string (hv.mono htu) (hann hty)
  | bool hty => exact .bool (hann hty)
  | absent hty => exact .absent (hann hty)

theorem Binding.SymbolValid.mono {b : Binding} (h : b.SymbolValid t) (htu : t.Le u) :
    b.SymbolValid u :=
  ⟨h.name.mono htu, h.typeName.mono htu, fun i hi => (h.init i hi).mono htu⟩

theorem Arm.SymbolValid.mono {arm : Arm} (h : arm.SymbolValid t) (htu : t.Le u) :
    arm.SymbolValid u :=
  ⟨h.name.mono htu, h.typeName.mono htu, h.body.mono htu⟩

theorem Formal.SymbolValid.mono {f : Formal} (h : f.SymbolValid t) (htu : t.Le u) :
    f.SymbolValid u :=
  ⟨h.name.mono htu, h.typeName.mono htu⟩

theorem Feature.SymbolValid.mono {f : Feature} (h : f.SymbolValid t) (htu : t.Le u) :
    f.SymbolValid u := by
  cases f with
  | method m =>
    exact ⟨Name.SymbolValid.mono h.name htu, fun f hf => (h.params f hf).mono htu,
      h.returnType.mono htu, h.body.mono htu⟩
  | attr b => exact Binding.SymbolValid.mono h htu

theorem Class.SymbolValid.mono {c : Class} (h : c.SymbolValid t) (htu : t.Le u) :
    c.SymbolValid u :=
  ⟨h.name.mono htu, h.parent.mono htu, h.file.mono htu, fun f hf => (h.features f hf).mono htu⟩

theorem Program.SymbolValid.mono {p : Program} (h : p.SymbolValid t) (htu : t.Le u) :
    p.SymbolValid u :=
  fun c hc => (h c hc).mono htu

end Mono

end CoolTypes
