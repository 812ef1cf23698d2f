import CoolTypes.Proofs.Unit.Respelling

/-!
# Reading units in any spelling

Each reader of a part of a program takes the fields of a record one after the other, so it settles the value
of the part as soon as it settles the values of the fields. The forms of expressions are settled by induction
on the expression (`Expr.Fits.settles`), the parts around them one after the other up to the program
(`Program.Fits.settles`).
-/

namespace CoolTypes

open Notation Notation.Value

namespace Decode

/-! ## Readers as sequences of fields -/

section Sequences

variable {α β : Type}

@[simp] theorem require_true : require true = some () := rfl

@[simp] theorem require_false : require false = none := rfl

theorem seq_eq_bind (f : Option (α → β)) (a : Option α) :
    f <*> a = f.bind fun f => a.bind fun a => some (f a) := by
  cases f <;> cases a <;> rfl

theorem lookup_eq_part? (key : String) (gs : Fields) :
    gs.lookup key = (Fields.part? key gs).map Subtype.val := by
  induction gs with
  | nil => rfl
  | cons g gs ih =>
    obtain ⟨k, v⟩ := g
    rw [List.lookup_cons, Fields.part?]
    by_cases h : k = key
    · simp [h]
    · rw [beq_eq_false_iff_ne.mpr (Ne.symm h), if_neg h, ih]
      cases Fields.part? key gs <;> rfl

@[simp] theorem unattach_part? (key : String) (gs : Fields) :
    (Fields.part? key gs).unattach = gs.lookup key :=
  (lookup_eq_part? key gs).symm

theorem items_eq_bind (read : Value → Option α) (v : Value) :
    items read v = (list? v).unattach.bind fun vs => vs.mapM read := by
  cases v <;> rfl

end Sequences

section Readers

variable {D : Dialect}

theorem exprs?_eq (vs : List Value) : exprs? D vs = vs.mapM (expr? D) := by
  induction vs with
  | nil => rw [exprs?]; rfl
  | cons v vs ih => rw [exprs?, ih, List.mapM_cons]

/-- A case branch. -/
def arm? (D : Dialect) (v : Value) : Option Arm := do
  let ⟨fs, _⟩ ← record? D "CaseArm" ["name", "ty_name", "expr", "span"] v
  return ⟨← fs.required "name" (name? D), ← fs.required "ty_name" (name? D),
    ← fs.required "expr" (expr? D), ← spanOf D fs⟩

theorem arms?_eq (vs : List Value) : arms? D vs = vs.mapM (arm? D) := by
  induction vs with
  | nil => rw [arms?]; rfl
  | cons v vs ih =>
    rw [arms?, List.mapM_cons, arm?]
    cases record? D "CaseArm" ["name", "ty_name", "expr", "span"] v with
    | none => rfl
    | some fs =>
      simp [Fields.required, Option.bind_assoc, ih]
      cases List.lookup "expr" fs.1 <;> simp

/-! ## Expressions -/

/-- The expression of a form, field by field. -/
def readForm (D : Dialect) (gs : Fields) : ExprForm → Option Expr
  | .assign => some Expr.assign <*> gs.required "name" (name? D) <*> gs.required "expr" (expr? D) <*>
      spanOf D gs <*> tyOf D gs
  | .call => some Expr.call <*> gs.required "receiver" (receiver? D) <*> gs.required "method" (name? D) <*>
      gs.required "args" (items (expr? D)) <*> spanOf D gs <*> tyOf D gs
  | .cond => some Expr.cond <*> gs.required "antecedent" (expr? D) <*>
      gs.required "consequent" (expr? D) <*> gs.required "alternative" (expr? D) <*> spanOf D gs <*>
      tyOf D gs
  | .loop => some Expr.loop <*> gs.required "condition" (expr? D) <*> gs.required "body" (expr? D) <*>
      spanOf D gs <*> tyOf D gs
  | .block => some Expr.block <*> gs.required "body" (items (expr? D)) <*> spanOf D gs <*> tyOf D gs
  | .letIn => some Expr.letIn <*> gs.required "binding" (binding? D) <*> gs.required "expr" (expr? D) <*>
      spanOf D gs <*> tyOf D gs
  | .caseOf => some Expr.caseOf <*> gs.required "scrutinee" (expr? D) <*>
      gs.required "arms" (items (arm? D)) <*> spanOf D gs <*> tyOf D gs
  | .new => some Expr.new <*> gs.required "ty_name" (name? D) <*> spanOf D gs <*> tyOf D gs
  | .binary => some Expr.binary <*> gs.required "op" (binaryOp? D) <*> gs.required "lhs" (expr? D) <*>
      gs.required "rhs" (expr? D) <*> spanOf D gs <*> tyOf D gs
  | .unary => some Expr.unary <*> gs.required "op" (unaryOp? D) <*> gs.required "expr" (expr? D) <*>
      spanOf D gs <*> tyOf D gs
  | .ident => some Expr.ident <*> gs.required "name" (name? D) <*> tyOf D gs
  | .int => some Expr.int <*> gs.required "value" symbol? <*> spanOf D gs <*> tyOf D gs
  | .string => some Expr.string <*> gs.required "value" symbol? <*> spanOf D gs <*> tyOf D gs
  | .bool => some Expr.bool <*> gs.required "value" bool? <*> spanOf D gs <*> tyOf D gs
  | .absent => some Expr.absent <*> spanOf D gs <*> tyOf D gs

/-- The parts of an expression are read one after the other. -/
theorem exprOf?_eq (form : ExprForm) (gs : Fields) : exprOf? D form gs = readForm D gs form := by
  cases form <;> rw [exprOf?] <;>
    simp [readForm, Fields.required, seq_eq_bind, items_eq_bind, exprs?_eq, arms?_eq,
      Option.bind_assoc]
  -- the parts of the tree are looked up first, each of them is read where its turn comes
  case assign | unary => cases gs.lookup "expr" <;> simp
  case call =>
    rcases gs.lookup "receiver" with _ | r <;> rcases gs.lookup "args" with _ | args <;> simp
    cases (list? args).unattach <;> simp
  case cond =>
    cases gs.lookup "antecedent" <;> cases gs.lookup "consequent" <;>
      cases gs.lookup "alternative" <;> simp
  case loop => cases gs.lookup "condition" <;> cases gs.lookup "body" <;> simp
  case letIn => cases gs.lookup "binding" <;> cases gs.lookup "expr" <;> simp
  case caseOf =>
    rcases gs.lookup "scrutinee" with _ | e <;> rcases gs.lookup "arms" with _ | arms <;> simp
    cases (list? arms).unattach <;> simp
  case binary => cases gs.lookup "lhs" <;> cases gs.lookup "rhs" <;> simp

/-- An expression, whose form may be joined with the word `Some`. -/
def exprAfter? (D : Dialect) (joined : Bool) (v : Value) : Option Expr :=
  (exprRecord? D joined v).bind fun r => exprOf? D r.1 r.2

theorem exprAfter?_false : exprAfter? D false = expr? D := by
  funext v
  rw [exprAfter?, expr?]
  cases exprRecord? D false v <;> rfl

/-! ## Records -/

variable (hD : D.Described)

include hD

/-- The fields of a record without name are taken if they are those of a record of its kind. -/
theorem record?_ofFields (title : String) (own : List String) (gs : Fields) :
    ∃ h, record? D title own (ofFields none gs) =
      if D.fit own [] gs then some ⟨gs, h⟩ else none := by
  obtain ⟨h, hrecord⟩ := hD.record title gs
  refine ⟨h, ?_⟩
  rw [record?, hrecord]
  cases hfit : D.fit own [] gs <;> simp [hfit]

theorem binding?_ofFields (gs : Fields) : binding? D (ofFields none gs) =
    (require (D.fit ["name", "ty_name", "init", "span"] [] gs)).bind fun _ =>
      some Binding.mk <*> gs.required "name" (name? D) <*> gs.required "ty_name" (name? D) <*>
        gs.withDefault "init" none (optionOf D (exprAfter? D)) <*> spanOf D gs := by
  obtain ⟨h, hrecord⟩ := record?_ofFields hD "Binding" ["name", "ty_name", "init", "span"] gs
  rw [binding?, hrecord]
  simp only [Fields.withDefault, lookup_eq_part? "init", seq_eq_bind]
  cases D.fit ["name", "ty_name", "init", "span"] [] gs
  · rfl
  rw [if_pos rfl]
  dsimp only
  -- the initial value is looked up and read first, form by form like any expression
  rcases Fields.part? "init" gs with _ | ⟨i, hi⟩
  · simp [Option.bind_assoc]
  · rcases h : D.optional? i with _ | _ | ⟨joined, w, hw⟩
    · simp [optionOf, h]
    · simp [optionOf, h, Option.bind_assoc]
    · rcases hform : exprRecord? D joined w with _ | ⟨form, fs, hfs⟩
      · simp [optionOf, exprAfter?, h, hform]
      · simp [optionOf, exprAfter?, h, hform, Option.bind_assoc]
        cases exprOf? D form fs <;> simp

theorem arm?_ofFields (gs : Fields) : arm? D (ofFields none gs) =
    (require (D.fit ["name", "ty_name", "expr", "span"] [] gs)).bind fun _ =>
      some Arm.mk <*> gs.required "name" (name? D) <*> gs.required "ty_name" (name? D) <*>
        gs.required "expr" (expr? D) <*> spanOf D gs := by
  obtain ⟨h, hrecord⟩ := hD.record "CaseArm" gs
  simp [arm?, record?, hrecord, seq_eq_bind, Option.bind_assoc]

theorem receiver?_ofFields (gs : Fields) : receiver? D (ofFields (some "Static") gs) =
    (require (D.fit ["object", "ty_name"] [] gs)).bind fun _ =>
      some Receiver.static <*> gs.required "object" (expr? D) <*> gs.required "ty_name" (name? D) := by
  obtain ⟨hname, h, hfields⟩ := hD.fields (w := "Static") gs (by decide)
  rw [receiver?, hname]
  simp [hfields, Fields.required, seq_eq_bind, Option.bind_assoc]

theorem formal?_ofFields (gs : Fields) : formal? D (ofFields none gs) =
    (require (D.fit ["name", "ty_name", "span"] [] gs)).bind fun _ =>
      some Formal.mk <*> gs.required "name" (name? D) <*> gs.required "ty_name" (name? D) <*>
        spanOf D gs := by
  obtain ⟨h, hrecord⟩ := hD.record "Formal" gs
  simp [formal?, record?, hrecord, seq_eq_bind, Option.bind_assoc]

theorem class?_ofFields (gs : Fields) : class? D (ofFields none gs) =
    (require (D.fit ["name", "parent", "file", "features", "span"] [] gs)).bind fun _ =>
      some Class.mk <*> gs.required "name" (name? D) <*> gs.required "parent" (name? D) <*>
        gs.required "file" symbol? <*> gs.required "features" (items (feature? D)) <*>
        spanOf D gs := by
  obtain ⟨h, hrecord⟩ := hD.record "Class" gs
  simp [class?, record?, hrecord, seq_eq_bind, Option.bind_assoc]

theorem program?_ofFields (gs : Fields) : program? D (ofFields none gs) =
    (require (D.fit ["classes", "span"] [] gs)).bind fun _ =>
      some Program.mk <*> gs.required "classes" (items (class? D)) <*> spanOf D gs := by
  obtain ⟨h, hrecord⟩ := hD.record "Program" gs
  simp [program?, record?, hrecord, seq_eq_bind, Option.bind_assoc]

theorem position?_ofFields (gs : Fields) : position? D (ofFields none gs) =
    (require (D.fit ["line", "col"] [] gs)).bind fun _ =>
      some Position.mk <*> gs.required "line" (nat? UInt64.size) <*>
        gs.required "col" (nat? UInt64.size) := by
  obtain ⟨h, hrecord⟩ := hD.record "Position" gs
  simp [position?, record?, hrecord, seq_eq_bind, Option.bind_assoc]

theorem span?_ofFields (gs : Fields) : span? D (ofFields none gs) =
    (require (D.fit ["start", "end"] [] gs)).bind fun _ =>
      some Span.mk <*> gs.required "start" (position? D) <*> gs.required "end" (position? D) := by
  obtain ⟨h, hrecord⟩ := hD.record "Span" gs
  simp [span?, record?, hrecord, seq_eq_bind, Option.bind_assoc]

theorem name?_ofFields (gs : Fields) : name? D (ofFields none gs) =
    (require (D.fit ["value", "span"] [] gs)).bind fun _ =>
      some Name.mk <*> gs.required "value" symbol? <*> spanOf D gs := by
  obtain ⟨h, hrecord⟩ := hD.record "Spanned" gs
  simp [name?, record?, hrecord, seq_eq_bind, Option.bind_assoc]

omit hD in
theorem method?_eq (gs : Fields) : method? D gs =
    (require (D.fit ["name", "params", "return_ty", "body", "span"] [] gs)).bind fun _ =>
      some Method.mk <*> gs.required "name" (name? D) <*> gs.required "params" (items (formal? D)) <*>
        gs.required "return_ty" (name? D) <*> gs.required "body" (expr? D) <*> spanOf D gs := by
  simp [method?, seq_eq_bind, Option.bind_assoc]

end Readers

end Decode

open Decode

/-! ## Leaves -/

section Leaves

variable {D : Dialect} {hidden : List String}

theorem Symbol.Fits.settles {s : Symbol} (h : s.Fits) : Settles symbol? hidden s.toValue s := by
  have hlt : s.index < UInt32.size := h
  exact .nat (by simp [symbol?, nat?, hlt])

theorem Span.toValue_injective {s t : Span} (h : s.toValue = t.toValue) : s = t := by
  obtain ⟨⟨a, b⟩, ⟨c, d⟩⟩ := s
  obtain ⟨⟨a', b'⟩, ⟨c', d'⟩⟩ := t
  simpa [Span.toValue, Position.toValue] using h

variable (hD : D.Described)

include hD

theorem Position.Fits.settles {p : Position} (h : p.Fits) : Settles (position? D) [] p.toValue p := by
  have hline : nat? UInt64.size (.nat p.line) = some p.line := if_pos h.line
  have hcol : nat? UInt64.size (.nat p.col) = some p.col := if_pos h.col
  exact .record hD (position?_ofFields hD)
    (.seq (.seq (.pure Position.mk) (.required (.nat hline) (by decide)))
      (.required (.nat hcol) (by decide)))
    rfl (by decide) (List.nil_subset _) (by simp)

theorem Span.Fits.settles {s : Span} (h : s.Fits) : Settles (span? D) [] s.toValue s :=
  .record hD (span?_ofFields hD)
    (.seq (.seq (.pure Span.mk) (.required (h.start.settles hD) (by decide)))
      (.required (h.stop.settles hD) (by decide)))
    rfl (by decide) (List.nil_subset _) (by simp)

/-- The span of a node can be left out if it is the synthetic one. -/
theorem Decode.Reads.span {s : Span} (h : s.Fits) :
    Reads (spanOf D) [("span", some s.toValue)] s := by
  refine .withDefault (h.settles hD) (by decide) fun hmem => ?_
  have heq : s.toValue = Span.synthetic.toValue := by simpa [optionalFields] using hmem
  exact Span.toValue_injective heq

theorem Name.Fits.settles {n : Name} (h : n.Fits) : Settles (name? D) [] n.toValue n :=
  .record hD (name?_ofFields hD)
    (.seq (.seq (.pure Name.mk) (.required h.symbol.settles (by decide))) (.span hD h.span))
    rfl (by decide) (List.nil_subset _) (by simp)

/-- An absent part is a word, and a present one stands in brackets. -/
theorem Decode.Settles.option {α : Type} {read : Bool → Value → Option α} {toValue : α → Value}
    {a : Option α} (h : ∀ b ∈ a, Settles (read false) [] (toValue b) b) :
    Settles (optionOf D read) hidden (.option (a.map toValue)) a := by
  cases a with
  | none => exact .word (by rw [optionOf, hD.absent])
  | some b =>
    have hread : ∀ w, optionOf D read (.group (some "Some") [w]) = (read false w).map some := by
      intro w
      obtain ⟨hw, hpresent⟩ := hD.present w
      rw [optionOf, hpresent]
    exact .group (by decide) hread ((h b rfl).map some)

theorem Ty.Fits.settles {T : Ty} (h : T.Fits) : Settles (ty? D false) hidden T.toValue T := by
  cases T with
  | named c =>
    have hread : ∀ w, ty? D false (.group (some "Class") [w]) = (symbol? w).map Ty.named := by
      intro w
      obtain ⟨hname, hw, hcontent⟩ := hD.content (w := "Class") w (by decide)
      simp [ty?, hname, hcontent]
    have hc : Settles symbol? [] c.toValue c := Symbol.Fits.settles h
    exact .group (by decide) hread (hc.map Ty.named)
  | selfType =>
    obtain ⟨hname, hunit⟩ := hD.word (w := "SelfType") (by decide)
    exact .word (by simp [ty?, hname, hunit])

/-- The static type of an expression is there only if it is known. -/
theorem Decode.Reads.ty {T : Option Ty} (h : ∀ t ∈ T, t.Fits) :
    Reads (tyOf D) [("ty", T.map fun t => .option (some t.toValue))] T := by
  cases T with
  | none =>
    constructor
    · intro gs hgs
      cases hlookup : gs.lookup "ty" with
      | none => rw [tyOf, Fields.withDefault, hlookup]
      | some w =>
        obtain ⟨_, ⟨⟩, _⟩ := (hgs _ List.mem_cons_self).present w hlookup
    · intro gs s hs hspoilt
      cases List.mem_singleton.mp hs
      obtain ⟨_, ⟨⟩, _⟩ := hspoilt
  | some T =>
    have hty : Settles (optionOf D (ty? D)) [] (.option (some T.toValue)) (some T) :=
      @Settles.option _ _ hD _ _ Ty.toValue (some T) fun t ht => (h t ht).settles hD
    exact .withDefault hty (by decide) fun hmem => absurd hmem (by simp [optionalFields])

/-- A name stands for the operator that has it as its title. -/
theorem Decode.unitVariant?_word {w : String} (h : isName w = true) :
    unitVariant? D (.word w) = some w := by
  obtain ⟨hname, hunit⟩ := hD.word h
  rw [unitVariant?, hunit, hname]
  rfl

end Leaves

/-! ## Parts of a program -/

section Nodes

variable {D : Dialect} (hD : D.Described) {hidden : List String}

include hD

/-- A record that is the only part of a variant is read like any other one. -/
theorem Decode.contentRecord?_bind {β : Type} {w : String} (hw : isName w = true) (title : String)
    (v : Value) (read : Fields → Option β) :
    ((D.contentRecord? title (.group (some w) [v])).bind fun fs => read fs.1) =
      (D.record? title v).bind fun fs => read fs.1 := by
  have hfields := congrArg (Option.bind · read) (hD.contentRecord title v hw)
  simpa only [Option.bind_map, Function.comp_def] using hfields

/-- An expression is read by the record in its group. -/
theorem Decode.expr?_group (form : ExprForm) (w : Value) : expr? D (.group (some form.title) [w]) =
    (record? D form.recordTitle (formKeys form) w).bind fun fs => readForm D fs.1 form := by
  have hform : ExprForm.ofTitle? form.title = some form := by cases form <;> rfl
  have htitle : isName form.title = true := by cases form <;> decide
  have hname := (hD.content w htitle).1
  have hgroup : expr? D (.group (some form.title) [w]) =
      (D.contentRecord? form.recordTitle (.group (some form.title) [w])).bind fun fs =>
        (require (D.fit (formKeys form) [] fs.1)).bind fun _ => readForm D fs.1 form := by
    rw [expr?]
    rcases hfs : D.contentRecord? form.recordTitle (.group (some form.title) [w]) with _ | fs
    · simp [exprRecord?, hname, hform, hfs]
    · cases hfit : D.fit (formKeys form) [] fs.1 <;>
        simp [exprRecord?, hname, hform, hfs, hfit, exprOf?_eq]
  rw [hgroup, contentRecord?_bind hD htitle _ w fun fs =>
    (require (D.fit (formKeys form) [] fs)).bind fun _ => readForm D fs form]
  simp [record?, Option.bind_assoc]

/-- An expression is settled if the fields of its record are. -/
theorem Decode.Settles.node (form : ExprForm) {slots : List Slot} {ty : Option Ty} {e : Expr}
    (hread : Reads (readForm D · form)
      (slots ++ [("ty", ty.map fun t => .option (some t.toValue))]) e)
    (hkeys : slots.map Prod.fst ++ ["ty"] = formKeys form) (hfull : ∀ s ∈ slots, s.2 ≠ none) :
    Settles (expr? D) hidden (.node form (shown slots) ty) e := by
  have hrecord : ∀ gs, (record? D form.recordTitle (formKeys form) (ofFields none gs)).bind
      (fun fs => readForm D fs.1 form) =
        (require (D.fit (formKeys form) [] gs)).bind fun _ => readForm D gs form := by
    intro gs
    obtain ⟨h, hgs⟩ := record?_ofFields hD form.recordTitle (formKeys form) gs
    rw [hgs]
    cases D.fit (formKeys form) [] gs <;> rfl
  have hshown : shown (slots ++ [("ty", ty.map fun t => .option (some t.toValue))]) =
      shown slots ++ typeFields ty := by
    rw [shown, List.filterMap_append]
    cases ty <;> rfl
  have hhidden : hiddenKeys (some form.title) = ["ty"] := by cases form <;> decide
  rw [node_eq, ← hshown]
  refine .group hhidden (expr?_group hD form) ?_
  refine .record hD hrecord hread (by simpa using hkeys) (by cases form <;> decide)
    (by cases form <;> decide) fun s hs hnone => ?_
  rcases List.mem_append.mp hs with hs | hs
  · exact absurd hnone (hfull s hs)
  · cases List.mem_singleton.mp hs
    exact List.mem_cons_self

theorem Receiver.settles {r : Receiver}
    (hobject : ∀ o ∈ r.object?, Settles (expr? D) [] o.toValue o)
    (hname : ∀ n ∈ r.typeName?, n.Fits) : Settles (receiver? D) [] r.toValue r := by
  cases r with
  | implicit =>
    obtain ⟨hname, hunit⟩ := hD.word (w := "Implicit") (by decide)
    exact .word (by simp [receiver?, hname, hunit])
  | dynamic o =>
    have hread : ∀ w, receiver? D (.group (some "Dynamic") [w]) =
        (expr? D w).map Receiver.dynamic := by
      intro w
      obtain ⟨hname, hw, hcontent⟩ := hD.content (w := "Dynamic") w (by decide)
      simp [receiver?, hname, hcontent]
    exact .group (by decide) hread ((hobject o rfl).map Receiver.dynamic)
  | static o n =>
    exact .record hD (receiver?_ofFields hD)
      (.seq (.seq (.pure Receiver.static) (.required (hobject o rfl) (by decide)))
        (.required ((hname n rfl).settles hD) (by decide)))
      rfl (by decide) (List.nil_subset _) (by simp)

theorem Binding.settles {b : Binding} (hn : b.name.Fits) (htn : b.typeName.Fits)
    (hinit : ∀ i ∈ b.init, Settles (expr? D) [] i.toValue i) (hs : b.span.Fits) :
    Settles (binding? D) [] (.binding b.name b.typeName (b.init.map Expr.toValue) b.span) b := by
  obtain ⟨n, tn, init, s⟩ := b
  have hoption : Settles (optionOf D (exprAfter? D)) [] (.option (init.map Expr.toValue)) init :=
    .option hD (by rwa [exprAfter?_false])
  have hdefault : ("init", Value.option (init.map Expr.toValue)) ∈ optionalFields → init = none := by
    cases init <;> simp [optionalFields, Value.option]
  exact .record hD (binding?_ofFields hD)
    (.seq (.seq (.seq (.seq (.pure Binding.mk) (.required (hn.settles hD) (by decide)))
      (.required (htn.settles hD) (by decide))) (.withDefault hoption (by decide) hdefault)) (.span hD hs))
    rfl (by decide) (List.nil_subset _) (by simp)

theorem Arm.settles {arm : Arm} (hn : arm.name.Fits) (htn : arm.typeName.Fits)
    (hbody : Settles (expr? D) [] arm.body.toValue arm.body) (hs : arm.span.Fits) :
    Settles (arm? D) [] arm.toValue arm := by
  obtain ⟨n, tn, e, s⟩ := arm
  exact .record hD (arm?_ofFields hD)
    (.seq (.seq (.seq (.seq (.pure Arm.mk) (.required (hn.settles hD) (by decide)))
      (.required (htn.settles hD) (by decide))) (.required hbody (by decide))) (.span hD hs))
    rfl (by decide) (List.nil_subset _) (by simp)

theorem Expr.Fits.settles {e : Expr} (h : e.Fits) : Settles (expr? D) [] e.toValue e := by
  induction h with
  | assign hn _ hs hty ih =>
    rw [Expr.toValue]
    exact .node hD .assign
      (.seq (.seq (.seq (.seq (.pure Expr.assign) (.required (hn.settles hD) (by decide)))
        (.required ih (by decide))) (.span hD hs)) (.ty hD hty)) rfl (by simp)
  | call _ hname hm _ hs hty ihobject ihargs =>
    rw [Expr.toValue_call]
    exact .node hD .call
      (.seq (.seq (.seq (.seq (.seq (.pure Expr.call)
        (.required (Receiver.settles hD ihobject hname) (by decide)))
        (.required (hm.settles hD) (by decide))) (.required (.list ihargs) (by decide)))
        (.span hD hs)) (.ty hD hty)) rfl (by simp)
  | cond _ _ _ hs hty iha ihb ihc =>
    rw [Expr.toValue]
    exact .node hD .cond
      (.seq (.seq (.seq (.seq (.seq (.pure Expr.cond) (.required iha (by decide)))
        (.required ihb (by decide))) (.required ihc (by decide))) (.span hD hs)) (.ty hD hty)) rfl (by simp)
  | loop _ _ hs hty iha ihb =>
    rw [Expr.toValue]
    exact .node hD .loop
      (.seq (.seq (.seq (.seq (.pure Expr.loop) (.required iha (by decide)))
        (.required ihb (by decide))) (.span hD hs)) (.ty hD hty)) rfl (by simp)
  | block _ hs hty ih =>
    rw [Expr.toValue, exprValues_eq]
    exact .node hD .block
      (.seq (.seq (.seq (.pure Expr.block) (.required (.list ih) (by decide))) (.span hD hs)) (.ty hD hty))
      rfl (by simp)
  | letIn hn htn _ hbs _ hs hty ihinit ih =>
    rw [Expr.toValue_letIn]
    exact .node hD .letIn
      (.seq (.seq (.seq (.seq (.pure Expr.letIn)
        (.required (Binding.settles hD hn htn ihinit hbs) (by decide))) (.required ih (by decide)))
        (.span hD hs)) (.ty hD hty)) rfl (by simp)
  | @caseOf _ arms _ _ _ hn htn _ has hs hty ih iharms =>
    rw [Expr.toValue_caseOf]
    have harms : ∀ arm ∈ arms, Settles (arm? D) [] arm.toValue arm := fun arm harm =>
      Arm.settles hD (hn arm harm) (htn arm harm) (iharms arm harm) (has arm harm)
    exact .node hD .caseOf
      (.seq (.seq (.seq (.seq (.pure Expr.caseOf) (.required ih (by decide)))
        (.required (.list harms) (by decide))) (.span hD hs)) (.ty hD hty)) rfl (by simp)
  | new hn hs hty =>
    rw [Expr.toValue]
    exact .node hD .new
      (.seq (.seq (.seq (.pure Expr.new) (.required (hn.settles hD) (by decide))) (.span hD hs))
        (.ty hD hty)) rfl (by simp)
  | @binary op _ _ _ _ _ _ hs hty iha ihb =>
    rw [Expr.toValue]
    have hop : binaryOp? D (.word op.title) = some op := by
      rw [binaryOp?, unitVariant?_word hD (by cases op <;> decide)]
      cases op <;> rfl
    exact .node hD .binary
      (.seq (.seq (.seq (.seq (.seq (.pure Expr.binary) (.required (.word hop) (by decide)))
        (.required iha (by decide))) (.required ihb (by decide))) (.span hD hs)) (.ty hD hty)) rfl (by simp)
  | @unary op _ _ _ _ hs hty iha =>
    rw [Expr.toValue]
    have hop : unaryOp? D (.word op.title) = some op := by
      rw [unaryOp?, unitVariant?_word hD (by cases op <;> decide)]
      cases op <;> rfl
    exact .node hD .unary
      (.seq (.seq (.seq (.seq (.pure Expr.unary) (.required (.word hop) (by decide)))
        (.required iha (by decide))) (.span hD hs)) (.ty hD hty)) rfl (by simp)
  | ident hn hty =>
    rw [Expr.toValue]
    exact .node hD .ident
      (.seq (.seq (.pure Expr.ident) (.required (hn.settles hD) (by decide))) (.ty hD hty)) rfl (by simp)
  | int hv hs hty =>
    rw [Expr.toValue]
    exact .node hD .int
      (.seq (.seq (.seq (.pure Expr.int) (.required hv.settles (by decide))) (.span hD hs))
        (.ty hD hty)) rfl (by simp)
  | string hv hs hty =>
    rw [Expr.toValue]
    exact .node hD .string
      (.seq (.seq (.seq (.pure Expr.string) (.required hv.settles (by decide))) (.span hD hs))
        (.ty hD hty)) rfl (by simp)
  | @bool v _ _ hs hty =>
    rw [Expr.toValue]
    have hv : bool? (.word (toString v)) = some v := by cases v <;> rfl
    exact .node hD .bool
      (.seq (.seq (.seq (.pure Expr.bool) (.required (.word hv) (by decide))) (.span hD hs)) (.ty hD hty))
      rfl (by simp)
  | absent hs hty =>
    rw [Expr.toValue]
    exact .node hD .absent (.seq (.seq (.pure Expr.absent) (.span hD hs)) (.ty hD hty)) rfl (by simp)

theorem Formal.Fits.settles {f : Formal} (h : f.Fits) : Settles (formal? D) [] f.toValue f :=
  .record hD (formal?_ofFields hD)
    (.seq (.seq (.seq (.pure Formal.mk) (.required (h.name.settles hD) (by decide)))
      (.required (h.typeName.settles hD) (by decide))) (.span hD h.span))
    rfl (by decide) (List.nil_subset _) (by simp)

theorem Method.Fits.settles {m : Method} (h : m.Fits) :
    Settles (fun w => (D.record? "Method" w).bind fun fs => Decode.method? D fs.1) []
      (.record none [("name", m.name.toValue), ("params", .list (m.params.map Formal.toValue)),
        ("return_ty", m.returnType.toValue), ("body", m.body.toValue), ("span", m.span.toValue)]) m := by
  have hrecord : ∀ gs, (D.record? "Method" (ofFields none gs)).bind
      (fun fs => Decode.method? D fs.1) = Decode.method? D gs := by
    intro gs
    obtain ⟨h, hgs⟩ := hD.record "Method" gs
    rw [hgs, Option.bind_some]
  have hparams : Settles (items (formal? D)) [] (.list (m.params.map Formal.toValue)) m.params :=
    .list fun f hf => (h.params f hf).settles hD
  exact .record hD (fun gs => (hrecord gs).trans (method?_eq gs))
    (.seq (.seq (.seq (.seq (.seq (.pure Method.mk) (.required (h.name.settles hD) (by decide)))
      (.required hparams (by decide))) (.required (h.returnType.settles hD) (by decide)))
      (.required (h.body.settles hD) (by decide))) (.span hD h.span))
    rfl (by simp) (List.nil_subset _) (by simp)

/-- A method is read by the record in its group, an attribute by the brackets around its binding. -/
theorem Feature.Fits.settles {f : Feature} (h : f.Fits) : Settles (feature? D) [] f.toValue f := by
  cases f with
  | method m =>
    have hm : m.Fits := h
    have hread : ∀ w, feature? D (.group (some "Method") [w]) =
        ((D.record? "Method" w).bind fun fs => Decode.method? D fs.1).map Feature.method := by
      intro w
      have hname := (hD.content (w := "Method") w (by decide)).1
      rw [← contentRecord?_bind hD (w := "Method") (by decide) "Method" w (Decode.method? D)]
      simp [feature?, hname, Option.map_eq_bind, Option.bind_assoc, Function.comp_def]
    exact .group (by decide) hread ((hm.settles hD).map Feature.method)
  | attr b =>
    have hb : b.Fits := h
    have hinit : ∀ i ∈ b.init, Settles (expr? D) [] i.toValue i := fun i hi =>
      (hb.init i hi).settles hD
    have hbinding := Binding.settles hD hb.name hb.typeName hinit hb.span
    have hread : ∀ w, feature? D (.group (some "Attribute") [w]) =
        ((D.wrapped? "Attribute" w).bind fun w => binding? D w.1).map Feature.attr := by
      intro w
      obtain ⟨hname, hw, hcontent⟩ := hD.content (w := "Attribute") w (by decide)
      simp [feature?, hname, hcontent, Option.map_eq_bind, Option.bind_assoc, Function.comp_def]
    have hwrapped : ∀ w, (D.wrapped? "Attribute" (.group none [w])).bind (fun w => binding? D w.1) =
        binding? D w := by
      intro w
      obtain ⟨hw, hinner⟩ := hD.wrapped "Attribute" w
      rw [hinner, Option.bind_some]
    have hinner : Settles (fun w => (D.wrapped? "Attribute" w).bind fun w => binding? D w.1) []
        (.group none [.binding b.name b.typeName (b.init.map Expr.toValue) b.span]) b :=
      .group (by decide) hwrapped hbinding
    exact .group (by decide) hread (hinner.map Feature.attr)

theorem Class.Fits.settles {c : Class} (h : c.Fits) : Settles (class? D) [] c.toValue c := by
  have hfeatures : Settles (items (feature? D)) [] (.list (c.features.map Feature.toValue)) c.features :=
    .list fun f hf => (h.features f hf).settles hD
  exact .record hD (class?_ofFields hD)
    (.seq (.seq (.seq (.seq (.seq (.pure Class.mk) (.required (h.name.settles hD) (by decide)))
      (.required (h.parent.settles hD) (by decide))) (.required h.file.settles (by decide)))
      (.required hfeatures (by decide))) (.span hD h.span))
    rfl (by decide) (List.nil_subset _) (by simp)

theorem Program.Fits.settles {p : Program} (h : p.Fits) : Settles (program? D) [] p.toValue p := by
  have hclasses : Settles (items (class? D)) [] (.list (p.classes.map Class.toValue)) p.classes :=
    .list fun c hc => (h.classes c hc).settles hD
  exact .record hD (program?_ofFields hD)
    (.seq (.seq (.pure Program.mk) (.required hclasses (by decide))) (.span hD h.span))
    rfl (by decide) (List.nil_subset _) (by simp)

end Nodes

end CoolTypes
