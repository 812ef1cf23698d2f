import CoolTypes.Dump.Format
import CoolTypes.Proofs.Diagnostics.Texts
import CoolTypes.Proofs.Dump.Branches
import CoolTypes.Proofs.Syntax.Validity

/-!
# Outlines of symbol-valid programs

The outline looks up the texts of names, literals and static types. In a symbol-valid program each of them
has one, and the lines are those of a forest that has a branch for each node (`Outline.program_eq`). So a
dump in any form comes to an end without a fault (`dump_faultless`).
-/

namespace CoolTypes

/-! ## Texts of symbols -/

namespace SymbolTables

variable (t : SymbolTables)

/-- The text of a symbol of a table, empty if it has none. -/
def textIn (k : TableKind) (s : Symbol) : String := ((t.table k).get? s).getD ""

variable {t} {k : TableKind} {s s' : Symbol}

theorem Has.get?_eq (h : t.Has k s) : (t.table k).get? s = some (t.textIn k s) := by
  obtain ⟨text, hs⟩ := Interner.exists_get?_iff.mpr h
  rw [textIn, hs, Option.getD_some]

theorem Has.lookup_eq (h : t.Has k s) : (t.table k).lookup s = .ok (t.textIn k s) :=
  Interner.lookup_eq_ok_iff.mpr h.get?_eq

/-- Symbols of a table that have the same text are the same. -/
theorem Has.eq_of_textIn_eq (h : t.Has k s) (h' : t.Has k s') (heq : t.textIn k s = t.textIn k s') :
    s = s' :=
  Interner.get?_injective h.get?_eq (heq ▸ h'.get?_eq)

end SymbolTables

/-! ## Programs as forests -/

open Outline

section Forests

variable (t : SymbolTables)

/-- The label of a kind of node and a name. -/
def Name.label (k : Kind) (n : Name) : Label := ⟨k, .name (t.textOf n.symbol)⟩

/-- The label of a kind of node, a name and its type. -/
def Name.typedLabel (k : Kind) (n tn : Name) : Label :=
  ⟨k, .typed (t.textOf n.symbol) (t.textOf tn.symbol)⟩

/-- A receiver that is not written is shown as `self`. -/
def Outline.Branch.self : Branch := .node ⟨.self, .nothing⟩ (some "SELF_TYPE") []

mutual

/-- An expression with what is below it. -/
def Expr.branch : Expr → Branch
  | .assign n e _ ty => .node (n.label t .assign) (ty.map (Ty.textOf t)) [branch e]
  | .call .implicit m args _ ty =>
    .node (m.label t .dynamicDispatch) (ty.map (Ty.textOf t)) (.self :: branches args)
  | .call (.dynamic o) m args _ ty =>
    .node (m.label t .dynamicDispatch) (ty.map (Ty.textOf t)) (branch o :: branches args)
  | .call (.static o n) m args _ ty =>
    .node (m.label t .staticDispatch) (ty.map (Ty.textOf t))
      (branch o :: .node (n.label t .type) none [] :: branches args)
  | .cond a b c _ ty => .node ⟨.cond, .nothing⟩ (ty.map (Ty.textOf t)) [branch a, branch b, branch c]
  | .loop a b _ ty => .node ⟨.loop, .nothing⟩ (ty.map (Ty.textOf t)) [branch a, branch b]
  | .block es _ ty => .node ⟨.block, .nothing⟩ (ty.map (Ty.textOf t)) (branches es)
  | .letIn ⟨n, tn, none, _⟩ e _ ty =>
    .node (n.typedLabel t .letIn tn) (ty.map (Ty.textOf t)) [branch e]
  | .letIn ⟨n, tn, some i, _⟩ e _ ty =>
    .node (n.typedLabel t .letIn tn) (ty.map (Ty.textOf t)) [branch i, branch e]
  | .caseOf e arms _ ty =>
    .node ⟨.caseOf, .nothing⟩ (ty.map (Ty.textOf t)) (branch e :: armBranches arms)
  | .new n _ ty => .node (n.label t .new) (ty.map (Ty.textOf t)) []
  | .binary op a b _ ty => .node ⟨.binary op, .nothing⟩ (ty.map (Ty.textOf t)) [branch a, branch b]
  | .unary op a _ ty => .node ⟨.unary op, .nothing⟩ (ty.map (Ty.textOf t)) [branch a]
  | .ident n ty => .node (n.label t .object) (ty.map (Ty.textOf t)) []
  | .int v _ ty => .node ⟨.int, .name (t.textIn .ints v)⟩ (ty.map (Ty.textOf t)) []
  | .string v _ ty => .node ⟨.string, .quoted (t.textIn .strings v)⟩ (ty.map (Ty.textOf t)) []
  | .bool v _ ty => .node ⟨.bool, .name (toString v)⟩ (ty.map (Ty.textOf t)) []
  | .absent _ ty => .node ⟨.absent, .nothing⟩ (ty.map (Ty.textOf t)) []

/-- Expressions with what is below them. -/
def Expr.branches : List Expr → List Branch
  | [] => []
  | e :: rest => branch e :: branches rest

/-- Case branches with what is below them. -/
def Expr.armBranches : List Arm → List Branch
  | [] => []
  | ⟨n, tn, e, _⟩ :: rest => .node (n.typedLabel t .arm tn) none [branch e] :: armBranches rest

end

/-- A case branch with what is below it. -/
def Arm.branch (a : Arm) : Branch := .node (a.name.typedLabel t .arm a.typeName) none [a.body.branch t]

theorem Expr.branches_eq (es : List Expr) : branches t es = es.map (branch t) := by
  induction es with
  | nil => rfl
  | cons e rest ih => rw [branches, ih, List.map_cons]

theorem Expr.armBranches_eq (arms : List Arm) : armBranches t arms = arms.map (Arm.branch t) := by
  induction arms with
  | nil => rfl
  | cons a rest ih =>
    obtain ⟨n, tn, e, s⟩ := a
    rw [armBranches, ih, List.map_cons]
    rfl

/-- The kind of a call with a receiver. -/
def Receiver.kind : Receiver → Kind
  | .implicit | .dynamic _ => .dynamicDispatch
  | .static _ _ => .staticDispatch

/-- The branches of a receiver, as they stand in front of the arguments of a call. -/
def Receiver.branches : Receiver → List Branch
  | .implicit => [.self]
  | .dynamic o => [o.branch t]
  | .static o n => [o.branch t, .node (n.label t .type) none []]

theorem Expr.branch_call (r : Receiver) (m : Name) (args : List Expr) (s : Span) (ty : Option Ty) :
    (call r m args s ty).branch t =
      .node (m.label t r.kind) (ty.map (Ty.textOf t)) (r.branches t ++ args.map (branch t)) := by
  cases r with
  | implicit | dynamic | static => simp [branch, Receiver.kind, Receiver.branches, branches_eq]

theorem Expr.branch_letIn (b : Binding) (e : Expr) (s : Span) (ty : Option Ty) :
    (letIn b e s ty).branch t =
      .node (b.name.typedLabel t .letIn b.typeName) (ty.map (Ty.textOf t))
        ((b.init.map (branch t)).toList ++ [e.branch t]) := by
  obtain ⟨n, tn, init, bs⟩ := b
  cases init with
  | none | some => simp [branch]

/-- A parameter. -/
def Formal.branch (f : Formal) : Branch := .node (f.name.typedLabel t .formal f.typeName) none []

/-- A feature with what is below it. -/
def Feature.branch : Feature → Branch
  | method m =>
    .node (m.name.typedLabel t .method m.returnType) none
      (m.params.map (Formal.branch t) ++ [m.body.branch t])
  | attr b =>
    .node (b.name.typedLabel t .attribute b.typeName) none ((b.init.map (Expr.branch t)).toList)

/-- A class with what is below it. -/
def Class.branch (c : Class) : Branch :=
  .node ⟨.class, .child (t.textOf c.name.symbol) (t.textOf c.parent.symbol)⟩ none
    (c.features.map (Feature.branch t))

/-- The classes of a program with what is below them. -/
def Program.branches (p : Program) : List Branch := p.classes.map (Class.branch t)

end Forests

/-! ## The lines of a program -/

variable {t : SymbolTables}

/-- What the first of two computations gives is handed to the second one. -/
theorem bind_ok {α β : Type} {x : Except Fault α} {f : α → Except Fault β} {a : α} {b : β}
    (hx : x = .ok a) (hf : f a = .ok b) : x >>= f = .ok b :=
  bind_eq_ok.mpr ⟨a, hx, hf⟩

namespace Outline

theorem named_eq (k : Kind) {n : Name} (h : n.SymbolValid t) :
    named t k.word n = .ok (n.label t k).text :=
  bind_ok h.name_eq rfl

theorem declared_eq (k : Kind) {n tn : Name} (h : n.SymbolValid t) (h' : tn.SymbolValid t) :
    declared t k.word n tn = .ok (n.typedLabel t k tn).text :=
  bind_ok h.name_eq (bind_ok h'.name_eq rfl)

theorem typed_eq {ty : Option Ty} (h : ∀ T ∈ ty, T.SymbolValid t) (depth : Nat) (l : Label) :
    typed t depth l.text ty = .ok [Row.line ⟨depth, l, ty.map (Ty.textOf t)⟩] := by
  have htext : ty.mapM (·.text t) = .ok (ty.map (Ty.textOf t)) := by
    cases ty with
    | none => rfl
    | some T => exact bind_ok (h T rfl).text_eq rfl
  exact bind_ok htext rfl

theorem exprs_eq {es : List Expr}
    (h : ∀ e ∈ es, ∀ depth, expr t depth e = .ok (Branch.lines depth [e.branch t])) (depth : Nat) :
    exprs t depth es = .ok (Branch.lines depth (es.map (Expr.branch t))) := by
  induction es with
  | nil => rfl
  | cons e rest ih =>
    rw [List.forall_mem_cons] at h
    rw [exprs, List.map_cons, Branch.lines_cons]
    exact bind_ok (h.1 depth) (bind_ok (ih h.2) rfl)

theorem arms_eq {arms : List Arm} (hn : ∀ arm ∈ arms, arm.name.SymbolValid t)
    (htn : ∀ arm ∈ arms, arm.typeName.SymbolValid t)
    (h : ∀ arm ∈ arms, ∀ depth, expr t depth arm.body = .ok (Branch.lines depth [arm.body.branch t]))
    (depth : Nat) :
    Outline.arms t depth arms = .ok (Branch.lines depth (arms.map (Arm.branch t))) := by
  induction arms with
  | nil => rfl
  | cons arm rest ih =>
    obtain ⟨n, tn, e, s⟩ := arm
    rw [List.forall_mem_cons] at hn htn h
    rw [Outline.arms, List.map_cons, Arm.branch, Branch.lines_node]
    exact bind_ok (declared_eq .arm hn.1 htn.1) (bind_ok (h.1 _) (bind_ok (ih hn.2 htn.2 h.2) rfl))

/-- A symbol-valid expression has the lines of its branch. -/
theorem expr_eq {e : Expr} (h : e.SymbolValid t) (depth : Nat) :
    expr t depth e = .ok (Branch.lines depth [e.branch t]) := by
  induction h generalizing depth with
  | assign hn _ hty ih =>
    refine bind_ok (named_eq .assign hn) (bind_ok (typed_eq hty depth _) ?_)
    exact bind_ok (ih _) (congrArg Except.ok (by simp [Expr.branch]))
  | @call r m args s ty _ hn hm _ hty iho ihargs =>
    have hargs := exprs_eq ihargs
    cases r with
    | implicit =>
      refine bind_ok (named_eq .dynamicDispatch hm) (bind_ok (typed_eq hty depth _) ?_)
      have hself : ∀ T ∈ some Ty.selfType, T.SymbolValid t := by simp [Ty.SymbolValid]
      refine bind_ok (typed_eq hself _ ⟨.self, .nothing⟩) ?_
      refine bind_ok (hargs _) (congrArg Except.ok ?_)
      simp [Expr.branch, Expr.branches_eq, Branch.self, Ty.textOf]
    | dynamic o =>
      refine bind_ok (named_eq .dynamicDispatch hm) (bind_ok (typed_eq hty depth _) ?_)
      refine bind_ok (iho o rfl _) (bind_ok (hargs _) (congrArg Except.ok ?_))
      simp [Expr.branch, Expr.branches_eq]
    | static o n =>
      refine bind_ok (named_eq .staticDispatch hm) (bind_ok (typed_eq hty depth _) ?_)
      refine bind_ok (iho o rfl _) (bind_ok (named_eq .type (hn n rfl)) (bind_ok (hargs _) ?_))
      exact congrArg Except.ok (by simp [Expr.branch, Expr.branches_eq, plain, Row.line])
  | cond _ _ _ hty iha ihb ihc =>
    refine bind_ok (typed_eq hty depth ⟨.cond, .nothing⟩) (bind_ok (iha _) (bind_ok (ihb _) ?_))
    exact bind_ok (ihc _) (congrArg Except.ok (by simp [Expr.branch]))
  | loop _ _ hty iha ihb =>
    refine bind_ok (typed_eq hty depth ⟨.loop, .nothing⟩) (bind_ok (iha _) (bind_ok (ihb _) ?_))
    exact congrArg Except.ok (by simp [Expr.branch])
  | @binary op _ _ _ _ _ _ hty iha ihb =>
    refine bind_ok (typed_eq hty depth ⟨.binary op, .nothing⟩) (bind_ok (iha _) (bind_ok (ihb _) ?_))
    exact congrArg Except.ok (by simp [Expr.branch])
  | block _ hty ih =>
    refine bind_ok (typed_eq hty depth ⟨.block, .nothing⟩) (bind_ok (exprs_eq ih _) ?_)
    exact congrArg Except.ok (by simp [Expr.branch, Expr.branches_eq])
  | @letIn b e s ty hn htn _ _ hty ihi ih =>
    obtain ⟨n, tn, init, bs⟩ := b
    rw [expr]
    refine bind_ok (declared_eq .letIn hn htn) (bind_ok (typed_eq hty depth _) ?_)
    cases init with
    | none => exact bind_ok (ih _) (congrArg Except.ok (by simp [Expr.branch]))
    | some i =>
      exact bind_ok (ihi i rfl _) (bind_ok (ih _) (congrArg Except.ok (by simp [Expr.branch])))
  | @caseOf e _ _ _ _ hn htn _ hty ih iharms =>
    refine bind_ok (typed_eq hty depth ⟨.caseOf, .nothing⟩) (bind_ok (ih _) ?_)
    refine bind_ok (arms_eq hn htn iharms _) (congrArg Except.ok ?_)
    simp [Expr.branch, Expr.armBranches_eq]
  | new hn hty =>
    refine bind_ok (named_eq .new hn) ((typed_eq hty depth _).trans ?_)
    exact congrArg Except.ok (by simp [Expr.branch])
  | @unary op _ _ _ _ hty ih =>
    refine bind_ok (typed_eq hty depth ⟨.unary op, .nothing⟩) (bind_ok (ih _) ?_)
    exact congrArg Except.ok (by simp [Expr.branch])
  | ident hn hty =>
    refine bind_ok (named_eq .object hn) ((typed_eq hty depth _).trans ?_)
    exact congrArg Except.ok (by simp [Expr.branch])
  | int hv hty =>
    refine bind_ok hv.lookup_eq ((typed_eq hty depth ⟨.int, .name _⟩).trans ?_)
    exact congrArg Except.ok (by simp [Expr.branch])
  | string hv hty =>
    refine bind_ok hv.lookup_eq ((typed_eq hty depth ⟨.string, .quoted _⟩).trans ?_)
    exact congrArg Except.ok (by simp [Expr.branch])
  | @bool v _ _ hty =>
    refine (typed_eq hty depth ⟨.bool, .name (toString v)⟩).trans ?_
    exact congrArg Except.ok (by simp [Expr.branch])
  | absent hty =>
    refine (typed_eq hty depth ⟨.absent, .nothing⟩).trans ?_
    exact congrArg Except.ok (by simp [Expr.branch])

theorem formal_eq {f : Formal} (h : f.SymbolValid t) (depth : Nat) :
    formal t depth f = .ok (Branch.lines depth [f.branch t]) :=
  bind_ok (declared_eq .formal h.name h.typeName)
    (congrArg Except.ok (by simp [Formal.branch, plain, Row.line]))

theorem feature_eq {f : Feature} (h : f.SymbolValid t) (depth : Nat) :
    feature t depth f = .ok (Branch.lines depth [f.branch t]) := by
  cases f with
  | method m =>
    have h : m.SymbolValid t := h
    have hparams : m.params.mapM (formal t (depth + 1)) =
        .ok (m.params.map fun f => Branch.lines (depth + 1) [f.branch t]) :=
      mapM_eq_ok_map fun f hf => formal_eq (h.params f hf) _
    refine bind_ok (declared_eq .method h.name h.returnType) (bind_ok hparams ?_)
    refine bind_ok (expr_eq h.body _) (congrArg Except.ok ?_)
    simp [Branch.flatten_lines, Feature.branch, Branch.lines_append, plain, Row.line]
  | attr b =>
    have h : b.SymbolValid t := h
    refine bind_ok (declared_eq .attribute h.name h.typeName) ?_
    rw [Feature.branch, Branch.lines_node]
    cases hi : b.init with
    | none => exact congrArg Except.ok (by simp [plain, Row.line])
    | some i =>
      refine bind_ok (expr_eq (h.init i hi) _) (congrArg Except.ok ?_)
      simp [plain, Row.line]

theorem class_eq {c : Class} (h : c.SymbolValid t) (depth : Nat) :
    «class» t depth c = .ok (Branch.lines depth [c.branch t]) := by
  have hfeatures : c.features.mapM (feature t (depth + 1)) =
      .ok (c.features.map fun f => Branch.lines (depth + 1) [f.branch t]) :=
    mapM_eq_ok_map fun f hf => feature_eq (h.features f hf) _
  refine bind_ok h.name.name_eq (bind_ok h.parent.name_eq (bind_ok hfeatures (congrArg Except.ok ?_)))
  simp [Branch.flatten_lines, Class.branch, plain, Row.line, Label.text, Kind.word]

/-- A symbol-valid program has the lines of its forest. -/
theorem program_eq {p : Program} (h : p.SymbolValid t) :
    program t p = .ok (Branch.lines 0 (p.branches t)) := by
  have hclasses : p.classes.mapM («class» t 0) =
      .ok (p.classes.map fun c => Branch.lines 0 [c.branch t]) :=
    mapM_eq_ok_map fun c hc => class_eq (h c hc) 0
  exact bind_ok hclasses (congrArg Except.ok (Branch.flatten_lines 0 _ _))

end Outline

/-- A symbol-valid unit can be dumped in every form, whatever the codec says. -/
theorem CompilationUnit.SymbolValid.dump_faultless {u : CompilationUnit} (h : u.SymbolValid)
    (c : Notation.Codec) (f : DumpFormat) : Faultless (u.dump c f) := by
  cases f with
  | outline => exact ⟨_, bind_ok (bind_ok (Outline.program_eq h) rfl) rfl⟩
  | listing => exact .ok _
  | loadable => exact .ok _

end CoolTypes
