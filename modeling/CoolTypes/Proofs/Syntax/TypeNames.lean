import CoolTypes.Proofs.Syntax.Validity

/-!
# Names in type positions

The type names of a program stand in its declarations, in bindings and case branches, behind `new` and in
static dispatch; a class adds its own name and that of its parent. The static types that nodes carry are no
type names. `TypesIn` says of a piece of syntax that all of its type names are among some names.
-/

namespace CoolTypes

variable {S : Symbol → Prop}

/-- The class that a type names, if it names one, is among some classes. -/
def Ty.In (S : Symbol → Prop) : Ty → Prop
  | named c => S c
  | selfType => True

/-- All type names of an expression are among some names. -/
inductive Expr.TypesIn (S : Symbol → Prop) : Expr → Prop where
  | assign {n e s ty} : TypesIn S e → TypesIn S (.assign n e s ty)
  | call {r m args s ty} : (∀ o ∈ r.object?, TypesIn S o) → (∀ n ∈ r.typeName?, S n.symbol) →
      (∀ e ∈ args, TypesIn S e) → TypesIn S (.call r m args s ty)
  | cond {a b c s ty} : TypesIn S a → TypesIn S b → TypesIn S c → TypesIn S (.cond a b c s ty)
  | loop {a b s ty} : TypesIn S a → TypesIn S b → TypesIn S (.loop a b s ty)
  | block {es s ty} : (∀ e ∈ es, TypesIn S e) → TypesIn S (.block es s ty)
  | letIn {b e s ty} : S b.typeName.symbol → (∀ i ∈ b.init, TypesIn S i) → TypesIn S e →
      TypesIn S (.letIn b e s ty)
  | caseOf {e arms s ty} : TypesIn S e → (∀ arm ∈ arms, S arm.typeName.symbol) →
      (∀ arm ∈ arms, TypesIn S arm.body) → TypesIn S (.caseOf e arms s ty)
  | new {n s ty} : S n.symbol → TypesIn S (.new n s ty)
  | binary {op a b s ty} : TypesIn S a → TypesIn S b → TypesIn S (.binary op a b s ty)
  | unary {op a s ty} : TypesIn S a → TypesIn S (.unary op a s ty)
  | ident {n ty} : TypesIn S (.ident n ty)
  | int {v s ty} : TypesIn S (.int v s ty)
  | string {v s ty} : TypesIn S (.string v s ty)
  | bool {v s ty} : TypesIn S (.bool v s ty)
  | absent {s ty} : TypesIn S (.absent s ty)

/-- All type names of a binding are among some names. -/
structure Binding.TypesIn (S : Symbol → Prop) (b : Binding) : Prop where
  typeName : S b.typeName.symbol
  init : ∀ i ∈ b.init, i.TypesIn S

/-- All type names of a method are among some names. -/
structure Method.TypesIn (S : Symbol → Prop) (m : Method) : Prop where
  params : ∀ f ∈ m.params, S f.typeName.symbol
  returnType : S m.returnType.symbol
  body : m.body.TypesIn S

/-- All type names of a feature are among some names. -/
def Feature.TypesIn (S : Symbol → Prop) : Feature → Prop
  | method m => m.TypesIn S
  | attr b => b.TypesIn S

/-- All type names of a class are among some names, its own name and that of its parent included. -/
structure Class.TypesIn (S : Symbol → Prop) (c : Class) : Prop where
  name : S c.name.symbol
  parent : S c.parent.symbol
  features : ∀ f ∈ c.features, f.TypesIn S

/-! ## Members of a class -/

theorem Class.TypesIn.attributes {c : Class} (h : c.TypesIn S) : ∀ b ∈ c.attributes, b.TypesIn S :=
  fun _ hb => h.features _ (feature_of_mem_attributes hb)

theorem Class.TypesIn.methods {c : Class} (h : c.TypesIn S) : ∀ m ∈ c.methods, m.TypesIn S :=
  fun _ hm => h.features _ (feature_of_mem_methods hm)

/-! ## Programs that fulfil it -/

/-- If every name is allowed, every program fulfils it. -/
theorem Expr.typesIn_true (e : Expr) : e.TypesIn fun _ => True := by
  induction e using Expr.induction with
  | assign _ _ _ _ h => exact .assign h
  | call _ _ _ _ _ ho hargs => exact .call ho (fun _ _ => trivial) hargs
  | cond _ _ _ _ _ ha hb hc => exact .cond ha hb hc
  | loop _ _ _ _ ha hb => exact .loop ha hb
  | block _ _ _ h => exact .block h
  | letIn _ _ _ _ hi h => exact .letIn trivial hi h
  | caseOf _ _ _ _ h harms => exact .caseOf h (fun _ _ => trivial) harms
  | new => exact .new trivial
  | binary _ _ _ _ _ ha hb => exact .binary ha hb
  | unary _ _ _ _ h => exact .unary h
  | ident => exact .ident
  | int => exact .int
  | string => exact .string
  | bool => exact .bool
  | absent => exact .absent

theorem Class.typesIn_true (c : Class) : c.TypesIn fun _ => True := by
  refine ⟨trivial, trivial, fun f _ => ?_⟩
  cases f with
  | method m => exact ⟨fun _ _ => trivial, trivial, m.body.typesIn_true⟩
  | attr b => exact ⟨trivial, fun i _ => i.typesIn_true⟩

/-- The type names of a symbol-valid expression belong to the identifier table. -/
theorem Expr.SymbolValid.typesIn {t : SymbolTables} {e : Expr} (h : e.SymbolValid t) :
    e.TypesIn (t.Has .ids) := by
  induction h with
  | assign _ _ _ ih => exact .assign ih
  | call _ hn _ _ _ iho ihargs => exact .call iho hn ihargs
  | cond _ _ _ _ iha ihb ihc => exact .cond iha ihb ihc
  | loop _ _ _ iha ihb => exact .loop iha ihb
  | block _ _ ih => exact .block ih
  | letIn _ htn _ _ _ ihi ih => exact .letIn htn ihi ih
  | caseOf _ _ htn _ _ ih iharms => exact .caseOf ih htn iharms
  | new hn _ => exact .new hn
  | binary _ _ _ iha ihb => exact .binary iha ihb
  | unary _ _ ih => exact .unary ih
  | ident => exact .ident
  | int => exact .int
  | string => exact .string
  | bool => exact .bool
  | absent => exact .absent

theorem Class.SymbolValid.typesIn {t : SymbolTables} {c : Class} (h : c.SymbolValid t) :
    c.TypesIn (t.Has .ids) := by
  refine ⟨h.name, h.parent, fun f hf => ?_⟩
  have hvalid := h.features f hf
  cases f with
  | method m =>
    have hm : m.SymbolValid t := hvalid
    exact ⟨fun f hf => (hm.params f hf).typeName, hm.returnType, hm.body.typesIn⟩
  | attr b =>
    have hb : b.SymbolValid t := hvalid
    exact ⟨hb.typeName, fun i hi => (hb.init i hi).typesIn⟩

end CoolTypes
