import CoolTypes.Proofs.Syntax.TypeNames

/-!
# Programs without static types

`erase` takes the static types off all expressions of a program and leaves everything else. Two programs
with the same erasure differ in these annotations only.
-/

namespace CoolTypes

mutual

/-- The expression without static types. -/
def Expr.erase : Expr → Expr
  | .assign n e s _ => .assign n e.erase s none
  | .call r m args s _ => .call (eraseReceiver r) m (eraseAll args) s none
  | .cond a b c s _ => .cond a.erase b.erase c.erase s none
  | .loop a b s _ => .loop a.erase b.erase s none
  | .block es s _ => .block (eraseAll es) s none
  | .letIn ⟨n, tn, init, bs⟩ e s _ => .letIn ⟨n, tn, eraseInit init, bs⟩ e.erase s none
  | .caseOf e arms s _ => .caseOf e.erase (eraseArms arms) s none
  | .new n s _ => .new n s none
  | .binary op a b s _ => .binary op a.erase b.erase s none
  | .unary op a s _ => .unary op a.erase s none
  | .ident n _ => .ident n none
  | .int v s _ => .int v s none
  | .string v s _ => .string v s none
  | .bool v s _ => .bool v s none
  | .absent s _ => .absent s none

/-- The receiver without static types. -/
def Expr.eraseReceiver : Receiver → Receiver
  | .implicit => .implicit
  | .dynamic o => .dynamic o.erase
  | .static o n => .static o.erase n

/-- The initial value without static types, if there is one. -/
def Expr.eraseInit : Option Expr → Option Expr
  | none => none
  | some i => some i.erase

/-- The expressions without static types. -/
def Expr.eraseAll : List Expr → List Expr
  | [] => []
  | e :: rest => e.erase :: eraseAll rest

/-- The case branches without static types. -/
def Expr.eraseArms : List Arm → List Arm
  | [] => []
  | ⟨n, tn, e, s⟩ :: rest => ⟨n, tn, e.erase, s⟩ :: eraseArms rest

end

/-- The binding without static types. -/
def Binding.erase (b : Binding) : Binding := { b with init := b.init.map Expr.erase }

/-- The method without static types. -/
def Method.erase (m : Method) : Method := { m with body := m.body.erase }

/-- The feature without static types. -/
def Feature.erase : Feature → Feature
  | method m => .method m.erase
  | attr b => .attr b.erase

/-- The class without static types. -/
def Class.erase (c : Class) : Class := { c with features := c.features.map Feature.erase }

/-- The program without static types. -/
def Program.erase (p : Program) : Program := { p with classes := p.classes.map Class.erase }

/-- The unit without static types. -/
def CompilationUnit.erase (u : CompilationUnit) : CompilationUnit := { u with program := u.program.erase }

/-! ## What stays -/

theorem Expr.eraseInit_eq (init : Option Expr) : eraseInit init = init.map erase := by
  cases init <;> rfl

theorem Expr.eraseAll_eq (es : List Expr) : eraseAll es = es.map erase := by
  induction es with
  | nil => rfl
  | cons e rest ih => rw [eraseAll, ih, List.map_cons]

@[simp] theorem Expr.span_erase (e : Expr) : e.erase.span = e.span := by
  cases e with
  | letIn b _ _ _ => cases b; rfl
  | _ => rfl

@[simp] theorem Expr.isAbsent_erase (e : Expr) : e.erase.isAbsent = e.isAbsent := by
  cases e with
  | letIn b _ _ _ => cases b; rfl
  | _ => rfl

@[simp] theorem Class.name_erase (c : Class) : c.erase.name = c.name := rfl

@[simp] theorem Class.file_erase (c : Class) : c.erase.file = c.file := rfl

@[simp] theorem Class.attributes_erase (c : Class) :
    c.erase.attributes = c.attributes.map Binding.erase := by
  simp only [attributes, erase, List.filterMap_map, List.map_filterMap]
  congr 1
  funext f
  cases f <;> rfl

@[simp] theorem Class.methods_erase (c : Class) : c.erase.methods = c.methods.map Method.erase := by
  simp only [methods, erase, List.filterMap_map, List.map_filterMap]
  congr 1
  funext f
  cases f <;> rfl

end CoolTypes
