import CoolTypes.Proofs.Notation.Reading
import CoolTypes.Proofs.Syntax.Validity
import CoolTypes.Unit.Encode

/-!
# Units within bounds

Symbols have 32 bits and positions 64. A unit whose program is within these bounds has a value that is
read as it is printed (`CompilationUnit.printable`), whatever its symbols mean and whichever nodes carry
types.
-/

namespace CoolTypes

open Notation

/-! ## Bounds -/

/-- The symbol has 32 bits. -/
def Symbol.Fits (s : Symbol) : Prop := s.index < UInt32.size

/-- Line and column have 64 bits. -/
structure Position.Fits (p : Position) : Prop where
  line : p.line < UInt64.size
  col : p.col < UInt64.size

/-- All numbers of a span are within bounds. -/
structure Span.Fits (s : Span) : Prop where
  start : s.start.Fits
  stop : s.stop.Fits

/-- All numbers of a name are within bounds. -/
structure Name.Fits (n : Name) : Prop where
  symbol : n.symbol.Fits
  span : n.span.Fits

/-- The class that a type names, if it names one, has 32 bits. -/
def Ty.Fits : Ty → Prop
  | named c => c.Fits
  | selfType => True

/-- All numbers of an expression are within bounds. -/
inductive Expr.Fits : Expr → Prop where
  | assign {n e s ty} : n.Fits → Fits e → s.Fits → (∀ T ∈ ty, T.Fits) → Fits (.assign n e s ty)
  | call {r m args s ty} : (∀ o ∈ r.object?, Fits o) → (∀ n ∈ r.typeName?, n.Fits) → m.Fits →
      (∀ e ∈ args, Fits e) → s.Fits → (∀ T ∈ ty, T.Fits) → Fits (.call r m args s ty)
  | cond {a b c s ty} : Fits a → Fits b → Fits c → s.Fits → (∀ T ∈ ty, T.Fits) →
      Fits (.cond a b c s ty)
  | loop {a b s ty} : Fits a → Fits b → s.Fits → (∀ T ∈ ty, T.Fits) → Fits (.loop a b s ty)
  | block {es s ty} : (∀ e ∈ es, Fits e) → s.Fits → (∀ T ∈ ty, T.Fits) → Fits (.block es s ty)
  | letIn {b e s ty} : b.name.Fits → b.typeName.Fits → (∀ i ∈ b.init, Fits i) → b.span.Fits →
      Fits e → s.Fits → (∀ T ∈ ty, T.Fits) → Fits (.letIn b e s ty)
  | caseOf {e arms s ty} : Fits e → (∀ arm ∈ arms, arm.name.Fits) →
      (∀ arm ∈ arms, arm.typeName.Fits) → (∀ arm ∈ arms, Fits arm.body) →
      (∀ arm ∈ arms, arm.span.Fits) → s.Fits → (∀ T ∈ ty, T.Fits) → Fits (.caseOf e arms s ty)
  | new {n s ty} : n.Fits → s.Fits → (∀ T ∈ ty, T.Fits) → Fits (.new n s ty)
  | binary {op a b s ty} : Fits a → Fits b → s.Fits → (∀ T ∈ ty, T.Fits) →
      Fits (.binary op a b s ty)
  | unary {op a s ty} : Fits a → s.Fits → (∀ T ∈ ty, T.Fits) → Fits (.unary op a s ty)
  | ident {n ty} : n.Fits → (∀ T ∈ ty, T.Fits) → Fits (.ident n ty)
  | int {v s ty} : v.Fits → s.Fits → (∀ T ∈ ty, T.Fits) → Fits (.int v s ty)
  | string {v s ty} : v.Fits → s.Fits → (∀ T ∈ ty, T.Fits) → Fits (.string v s ty)
  | bool {v s ty} : s.Fits → (∀ T ∈ ty, T.Fits) → Fits (.bool v s ty)
  | absent {s ty} : s.Fits → (∀ T ∈ ty, T.Fits) → Fits (.absent s ty)

/-- All numbers of a binding are within bounds. -/
structure Binding.Fits (b : Binding) : Prop where
  name : b.name.Fits
  typeName : b.typeName.Fits
  init : ∀ i ∈ b.init, i.Fits
  span : b.span.Fits

/-- All numbers of a parameter are within bounds. -/
structure Formal.Fits (f : Formal) : Prop where
  name : f.name.Fits
  typeName : f.typeName.Fits
  span : f.span.Fits

/-- All numbers of a method are within bounds. -/
structure Method.Fits (m : Method) : Prop where
  name : m.name.Fits
  params : ∀ f ∈ m.params, f.Fits
  returnType : m.returnType.Fits
  body : m.body.Fits
  span : m.span.Fits

/-- All numbers of a feature are within bounds. -/
def Feature.Fits : Feature → Prop
  | method m => m.Fits
  | attr b => b.Fits

/-- All numbers of a class are within bounds. -/
structure Class.Fits (c : Class) : Prop where
  name : c.name.Fits
  parent : c.parent.Fits
  file : c.file.Fits
  features : ∀ f ∈ c.features, f.Fits
  span : c.span.Fits

/-- All numbers of a program are within bounds. -/
structure Program.Fits (p : Program) : Prop where
  classes : ∀ c ∈ p.classes, c.Fits
  span : p.span.Fits

theorem Span.fits_synthetic : Span.synthetic.Fits :=
  ⟨⟨by decide, by decide⟩, ⟨by decide, by decide⟩⟩

/-! ## Printed values -/

/-- The keys of a record: words, and none of them twice. -/
def areKeys (keys : List String) : Prop := keys.all isWord = true ∧ keys.Nodup

/-- A record without a name, by its keys and the values of its fields. -/
theorem Notation.Value.Printable.fields {fs : List (String × Value)} (hne : fs ≠ [])
    (hkeys : areKeys (fs.map Prod.fst)) (h : (fs.map Prod.snd).Forall Printable) :
    (Value.record none fs).Printable := by
  obtain ⟨hwords, hnodup⟩ := hkeys
  rw [List.all_eq_true] at hwords
  rw [List.forall_iff_forall_mem] at h
  refine .record (by simp) hne (fun f hf => ?_) hnodup (fun f hf => ?_)
  · exact hwords _ (List.mem_map_of_mem hf)
  · exact h _ (List.mem_map_of_mem hf)

/-- A group with a name. -/
theorem Notation.Value.Printable.wrap {w : String} {v : Value} (hw : Value.isName w = true)
    (hv : v.Printable) : (Value.group (some w) [v]).Printable := by
  refine .group (fun w' hw' => ?_) hv
  cases hw'
  exact hw

section Leaves

open Value (Printable)

theorem Symbol.Fits.printable {s : Symbol} (h : s.Fits) : s.toValue.Printable := by
  have hlt : s.index < UInt32.size := h
  apply Printable.nat
  exact Nat.lt_trans hlt (by decide)

theorem Position.Fits.printable {p : Position} (h : p.Fits) : p.toValue.Printable := by
  exact .fields (by simp) (by simp +decide [areKeys]) ⟨.nat h.line, .nat h.col⟩

theorem Span.Fits.printable {s : Span} (h : s.Fits) : s.toValue.Printable := by
  exact .fields (by simp) (by simp +decide [areKeys]) ⟨h.start.printable, h.stop.printable⟩

theorem Name.Fits.printable {n : Name} (h : n.Fits) : n.toValue.Printable := by
  exact .fields (by simp) (by simp +decide [areKeys]) ⟨h.symbol.printable, h.span.printable⟩

theorem Ty.Fits.printable {T : Ty} (h : T.Fits) : T.toValue.Printable := by
  cases T with
  | named c => exact .wrap (by decide) (Symbol.Fits.printable h)
  | selfType => exact .word (by decide) (by decide)

theorem Notation.Value.Printable.option {v : Option Value} (h : ∀ w ∈ v, w.Printable) :
    (Value.option v).Printable := by
  cases v with
  | none => exact .word (by decide) (by decide)
  | some w => exact .wrap (by decide) (h w rfl)

end Leaves

section Nodes

open Value (Printable)

/-- The field of a static type. -/
def typeFields : Option Ty → List (String × Value)
  | none => []
  | some ty => [("ty", .option (some ty.toValue))]

theorem node_eq (form : ExprForm) (fs : List (String × Value)) (ty : Option Ty) :
    Value.node form fs ty = .group (some form.title) [.record none (fs ++ typeFields ty)] := by
  cases ty <;> rfl

/-- An expression whose record has words as keys. -/
theorem Notation.Value.Printable.node {form : ExprForm} {fs : List (String × Value)}
    {ty : Option Ty} (hne : fs ≠ []) (hkeys : areKeys (fs.map Prod.fst ++ ["ty"]))
    (h : (fs.map Prod.snd).Forall Printable) (hty : ∀ T ∈ ty, T.Fits) :
    (Value.node form fs ty).Printable := by
  have htitle : Value.isName form.title = true := by cases form <;> decide
  have htype : ((typeFields ty).map Prod.fst).Sublist ["ty"] ∧
      ∀ v ∈ (typeFields ty).map Prod.snd, v.Printable := by
    cases ty with
    | none => simp [typeFields]
    | some T =>
      have hT : (Value.option (some T.toValue)).Printable := .wrap (by decide) (hty T rfl).printable
      simpa [typeFields] using hT
  rw [List.forall_iff_forall_mem] at h
  -- the title, in its brackets a record without a name, with the type as its last field
  rw [node_eq]
  apply Printable.wrap htitle
  apply Printable.fields
  · simp [hne]
  · have hsub := htype.1.append_left (fs.map Prod.fst)
    rw [List.map_append]
    refine ⟨List.all_eq_true.mpr fun key hkey => ?_, hkeys.2.sublist hsub⟩
    exact List.all_eq_true.mp hkeys.1 key (hsub.subset hkey)
  · rw [List.forall_iff_forall_mem, List.map_append]
    intro v hv
    rcases List.mem_append.mp hv with hv | hv
    · exact h v hv
    · exact htype.2 v hv

theorem Notation.Value.Printable.binding {n ty : Name} {init : Option Value} {s : Span}
    (hn : n.Fits) (hty : ty.Fits) (hinit : ∀ v ∈ init, v.Printable) (hs : s.Fits) :
    (Value.binding n ty init s).Printable :=
  .fields (by simp) (by simp +decide [areKeys])
    ⟨hn.printable, hty.printable, .option hinit, hs.printable⟩

theorem exprValues_eq (es : List Expr) : exprValues es = es.map Expr.toValue := by
  induction es with
  | nil => rfl
  | cons e rest ih => rw [exprValues, ih, List.map_cons]

/-- The value of a case branch. -/
def Arm.toValue (arm : Arm) : Value :=
  .record none
    [("name", arm.name.toValue), ("ty_name", arm.typeName.toValue), ("expr", arm.body.toValue),
      ("span", arm.span.toValue)]

theorem armValues_eq (arms : List Arm) : armValues arms = arms.map Arm.toValue := by
  induction arms with
  | nil => rfl
  | cons arm rest ih =>
    obtain ⟨n, ty, e, s⟩ := arm
    rw [armValues, ih]
    rfl

/-- The value of a receiver. -/
def Receiver.toValue : Receiver → Value
  | .implicit => .word "Implicit"
  | .dynamic o => .group (some "Dynamic") [o.toValue]
  | .static o n => .record (some "Static") [("object", o.toValue), ("ty_name", n.toValue)]

theorem Expr.toValue_call (r : Receiver) (m : Name) (args : List Expr) (s : Span)
    (ty : Option Ty) : (Expr.call r m args s ty).toValue = .node .call
      [("receiver", r.toValue), ("method", m.toValue), ("args", .list (args.map Expr.toValue)),
        ("span", s.toValue)] ty := by
  rw [← exprValues_eq]
  cases r <;> rw [Expr.toValue] <;> rfl

theorem Expr.toValue_letIn (b : Binding) (e : Expr) (s : Span) (ty : Option Ty) :
    (Expr.letIn b e s ty).toValue = .node .letIn
      [("binding", .binding b.name b.typeName (b.init.map Expr.toValue) b.span),
        ("expr", e.toValue), ("span", s.toValue)] ty := by
  obtain ⟨n, tn, init, bs⟩ := b
  cases init <;> rw [Expr.toValue] <;> rfl

theorem Expr.toValue_caseOf (e : Expr) (arms : List Arm) (s : Span) (ty : Option Ty) :
    (Expr.caseOf e arms s ty).toValue = .node .caseOf
      [("scrutinee", e.toValue), ("arms", .list (arms.map Arm.toValue)), ("span", s.toValue)]
      ty := by
  rw [Expr.toValue, armValues_eq]

theorem Receiver.printable {r : Receiver} (hobject : ∀ o ∈ r.object?, o.toValue.Printable)
    (hname : ∀ n ∈ r.typeName?, n.Fits) : r.toValue.Printable := by
  cases r with
  | implicit => exact .word (by decide) (by decide)
  | dynamic o => exact .wrap (by decide) (hobject o rfl)
  | static o n =>
    refine .record (by simp +decide) (by simp) ?_ (by simp) ?_
    · simp +decide
    · simp only [List.forall_mem_cons]
      exact ⟨hobject o rfl, (hname n rfl).printable, by simp⟩

theorem Expr.Fits.printable {e : Expr} (h : e.Fits) : e.toValue.Printable := by
  induction h with
  | assign hn _ hs hty ih =>
    rw [Expr.toValue]
    exact .node (by simp) (by simp +decide [areKeys]) ⟨hn.printable, ih, hs.printable⟩ hty
  | call _ hname hm _ hs hty ihobject ihargs =>
    rw [Expr.toValue_call]
    have hr := Receiver.printable ihobject hname
    have hargs : ∀ v ∈ List.map Expr.toValue _, v.Printable := List.forall_mem_map.mpr ihargs
    exact .node (by simp) (by simp +decide [areKeys]) ⟨hr, hm.printable, .list hargs, hs.printable⟩ hty
  | cond _ _ _ hs hty iha ihb ihc =>
    rw [Expr.toValue]
    exact .node (by simp) (by simp +decide [areKeys]) ⟨iha, ihb, ihc, hs.printable⟩ hty
  | loop _ _ hs hty iha ihb =>
    rw [Expr.toValue]
    exact .node (by simp) (by simp +decide [areKeys]) ⟨iha, ihb, hs.printable⟩ hty
  | block _ hs hty ih =>
    rw [Expr.toValue, exprValues_eq]
    have hes : ∀ v ∈ List.map Expr.toValue _, v.Printable := List.forall_mem_map.mpr ih
    exact .node (by simp) (by simp +decide [areKeys]) ⟨.list hes, hs.printable⟩ hty
  | @letIn b _ _ _ hn htn _ hbs _ hs hty ihinit ih =>
    rw [Expr.toValue_letIn]
    have hinit : ∀ v ∈ b.init.map Expr.toValue, v.Printable := by
      intro v hv
      obtain ⟨i, hi, rfl⟩ := Option.map_eq_some_iff.mp hv
      exact ihinit i hi
    exact .node (by simp) (by simp +decide [areKeys]) ⟨.binding hn htn hinit hbs, ih, hs.printable⟩ hty
  | @caseOf _ arms _ _ _ hn htn _ has hs hty ih iharms =>
    rw [Expr.toValue_caseOf]
    have harms : ∀ v ∈ arms.map Arm.toValue, v.Printable := by
      rw [List.forall_mem_map]
      intro arm harm
      exact .fields (by simp) (by simp +decide [areKeys])
        ⟨(hn arm harm).printable, (htn arm harm).printable, iharms arm harm,
          (has arm harm).printable⟩
    exact .node (by simp) (by simp +decide [areKeys]) ⟨ih, .list harms, hs.printable⟩ hty
  | new hn hs hty =>
    rw [Expr.toValue]
    exact .node (by simp) (by simp +decide [areKeys]) ⟨hn.printable, hs.printable⟩ hty
  | @binary op _ _ _ _ _ _ hs hty iha ihb =>
    rw [Expr.toValue]
    have hop : isWord op.title = true ∧ op.title ≠ "Some" := by cases op <;> decide
    exact .node (by simp) (by simp +decide [areKeys]) ⟨.word hop.1 hop.2, iha, ihb, hs.printable⟩ hty
  | @unary op _ _ _ _ hs hty iha =>
    rw [Expr.toValue]
    have hop : isWord op.title = true ∧ op.title ≠ "Some" := by cases op <;> decide
    exact .node (by simp) (by simp +decide [areKeys]) ⟨.word hop.1 hop.2, iha, hs.printable⟩ hty
  | ident hn hty =>
    rw [Expr.toValue]
    exact .node (by simp) (by simp +decide [areKeys]) hn.printable hty
  | int hv hs hty =>
    rw [Expr.toValue]
    exact .node (by simp) (by simp +decide [areKeys]) ⟨hv.printable, hs.printable⟩ hty
  | string hv hs hty =>
    rw [Expr.toValue]
    exact .node (by simp) (by simp +decide [areKeys]) ⟨hv.printable, hs.printable⟩ hty
  | @bool v _ _ hs hty =>
    rw [Expr.toValue]
    have hv : isWord (toString v) = true ∧ toString v ≠ "Some" := by cases v <;> decide
    exact .node (by simp) (by simp +decide [areKeys]) ⟨.word hv.1 hv.2, hs.printable⟩ hty
  | absent hs hty =>
    rw [Expr.toValue]
    exact .node (by simp) (by simp +decide [areKeys]) hs.printable hty

theorem Formal.Fits.printable {f : Formal} (h : f.Fits) : f.toValue.Printable :=
  .fields (by simp) (by simp +decide [areKeys]) ⟨h.name.printable, h.typeName.printable, h.span.printable⟩

theorem Feature.Fits.printable {f : Feature} (h : f.Fits) : f.toValue.Printable := by
  cases f with
  | method m =>
    have hm : m.Fits := h
    have hparams : ∀ v ∈ m.params.map Formal.toValue, v.Printable :=
      List.forall_mem_map.mpr fun f hf => (hm.params f hf).printable
    apply Printable.wrap (by decide)
    exact .fields (by simp) (by simp +decide [areKeys]) ⟨hm.name.printable, .list hparams,
      hm.returnType.printable, hm.body.printable, hm.span.printable⟩
  | attr b =>
    have hb : b.Fits := h
    have hinit : ∀ v ∈ b.init.map Expr.toValue, v.Printable := by
      intro v hv
      obtain ⟨i, hi, rfl⟩ := Option.map_eq_some_iff.mp hv
      exact (hb.init i hi).printable
    have hbinding := Printable.binding hb.name hb.typeName hinit hb.span
    -- an attribute has brackets of its own around the binding
    apply Printable.wrap (by decide)
    exact .group (by simp) hbinding

theorem Class.Fits.printable {c : Class} (h : c.Fits) : c.toValue.Printable := by
  have hfeatures : ∀ v ∈ c.features.map Feature.toValue, v.Printable :=
    List.forall_mem_map.mpr fun f hf => (h.features f hf).printable
  exact .fields (by simp) (by simp +decide [areKeys]) ⟨h.name.printable, h.parent.printable, h.file.printable,
    .list hfeatures, h.span.printable⟩

theorem Program.Fits.printable {p : Program} (h : p.Fits) : p.toValue.Printable := by
  have hclasses : ∀ v ∈ p.classes.map Class.toValue, v.Printable :=
    List.forall_mem_map.mpr fun c hc => (h.classes c hc).printable
  exact .fields (by simp) (by simp +decide [areKeys]) ⟨.list hclasses, h.span.printable⟩

/-- A table is printable whatever its texts are. -/
theorem Interner.printable (t : Interner) : t.toValue.Printable := by
  apply Printable.list
  rw [List.forall_mem_map]
  intro s _
  exact .str

theorem SymbolTables.printable (t : SymbolTables) : t.toValue.Printable :=
  .fields (by simp) (by simp +decide [areKeys]) ⟨t.ids.printable, t.strings.printable, t.ints.printable⟩

theorem CompilationUnit.printable {u : CompilationUnit} (h : u.program.Fits) :
    u.toValue.Printable :=
  .fields (by simp) (by simp +decide [areKeys]) ⟨u.tables.printable, h.printable⟩

end Nodes

end CoolTypes
