import CoolTypes.Proofs.Syntax.Visits

/-!
# Places of nodes

A program is a tree of nodes. `Node.children` lists what stands directly below a node in source order, and a
place is the list of positions to take from the root down (`Node.At`). In the lexicographic order of places
a node comes before what is below it, and that before what stands further right. A walk comes to every
place once and in this order (`Node.exists_listing`).
-/

namespace CoolTypes

/-- A node of the syntax tree. An expression and the form that it has are two nodes, and so are a feature
and the method or attribute that it is. -/
inductive Node where
  | program (p : Program)
  | «class» (c : Class)
  | feature (f : Feature)
  | method (m : Method)
  | «attribute» (b : Binding)
  | formal (f : Formal)
  | binding (b : Binding)
  | expr (e : Expr)
  | form (e : Expr)
  | receiver (r : Receiver)
  | arm (arm : Arm)
  | typeName (n : Name)
  | name (n : Name)

/-- The nodes directly below the form of an expression. -/
def Expr.formChildren : Expr → List Node
  | assign n e _ _ => [.name n, .expr e]
  | call r m args _ _ => .receiver r :: .name m :: args.map .expr
  | cond a b c _ _ => [.expr a, .expr b, .expr c]
  | loop a b _ _ => [.expr a, .expr b]
  | block es _ _ => es.map .expr
  | letIn b e _ _ => [.binding b, .expr e]
  | caseOf e arms _ _ => .expr e :: arms.map .arm
  | new n _ _ => [.typeName n]
  | binary _ a b _ _ => [.expr a, .expr b]
  | unary _ a _ _ => [.expr a]
  | ident n _ => [.name n]
  | int .. | string .. | bool .. | absent .. => []

namespace Node

/-- The nodes directly below a node, in source order. -/
def children : Node → List Node
  | program p => p.classes.map .class
  | «class» c => .typeName c.name :: .typeName c.parent :: c.features.map .feature
  | feature (.method m) => [.method m]
  | feature (.attr b) => [.attribute b]
  | method m => .name m.name :: (m.params.map .formal ++ [.typeName m.returnType, .expr m.body])
  | «attribute» b => [.binding b]
  | formal f => [.name f.name, .typeName f.typeName]
  | binding b => .name b.name :: .typeName b.typeName :: b.init.toList.map .expr
  | expr e => [.form e]
  | form e => e.formChildren
  | receiver .implicit => []
  | receiver (.dynamic o) => [.expr o]
  | receiver (.static o n) => [.expr o, .typeName n]
  | arm a => [.name a.name, .typeName a.typeName, .expr a.body]
  | typeName n => [.name n]
  | name _ => []

/-- The second node stands at a place of the first one. -/
inductive At : Node → List Nat → Node → Prop where
  | here {d : Node} : At d [] d
  | child {d c n : Node} {i : Nat} {place : List Nat} : d.children[i]? = some c → At c place n →
      At d (i :: place) n

/-! ## Induction -/

section Induction

variable {P : Node → Prop} (step : ∀ d, (∀ c ∈ d.children, P c) → P d)

include step

private theorem induction_name (n : Name) : P (.name n) := step _ (List.forall_mem_nil _)

private theorem induction_typeName (n : Name) : P (.typeName n) :=
  step _ (List.forall_mem_singleton.mpr (induction_name step n))

private theorem induction_receiver {r : Receiver} (h : ∀ o ∈ r.object?, P (.expr o)) :
    P (.receiver r) := by
  refine step _ ?_
  cases r with
  | implicit => exact List.forall_mem_nil _
  | dynamic o => exact List.forall_mem_singleton.mpr (h o rfl)
  | static o n => simpa [children] using ⟨h o rfl, induction_typeName step n⟩

private theorem induction_binding {b : Binding} (h : ∀ i ∈ b.init, P (.expr i)) : P (.binding b) := by
  refine step _ ?_
  simpa [children, induction_name step, induction_typeName step] using h

private theorem induction_arm {a : Arm} (h : P (.expr a.body)) : P (.arm a) := by
  refine step _ ?_
  simpa [children, induction_name step, induction_typeName step] using h

private theorem induction_form (e : Expr) : P (.form e) := by
  have hname := induction_name step
  -- an expression stands over its form only
  have hexpr : ∀ {e : Expr}, P (.form e) → P (.expr e) := fun h =>
    step _ (List.forall_mem_singleton.mpr h)
  induction e using Expr.induction with
  | assign n e s t ih => exact step _ (by simpa [children, Expr.formChildren, hname] using hexpr ih)
  | call r m args s t ihr ihargs =>
    have hr : P (.receiver r) := induction_receiver step fun o ho => hexpr (ihr o ho)
    have hargs : ∀ e ∈ args, P (.expr e) := fun e he => hexpr (ihargs e he)
    exact step _ (by simpa [children, Expr.formChildren, hname, hr] using hargs)
  | cond a b c s t iha ihb ihc =>
    exact step _ (by simpa [children, Expr.formChildren] using ⟨hexpr iha, hexpr ihb, hexpr ihc⟩)
  | loop a b s t iha ihb | binary op a b s t iha ihb =>
    exact step _ (by simpa [children, Expr.formChildren] using ⟨hexpr iha, hexpr ihb⟩)
  | block es s t ih => exact step _ (List.forall_mem_map.mpr fun e he => hexpr (ih e he))
  | letIn b e s t ihi ih =>
    have hb : P (.binding b) := induction_binding step fun i hi => hexpr (ihi i hi)
    exact step _ (by simpa [children, Expr.formChildren] using ⟨hb, hexpr ih⟩)
  | caseOf e arms s t ih iharms =>
    have harms : ∀ a ∈ arms, P (.arm a) := fun a ha => induction_arm step (hexpr (iharms a ha))
    exact step _ (List.forall_mem_cons.mpr ⟨hexpr ih, List.forall_mem_map.mpr harms⟩)
  | new n s t => exact step _ (List.forall_mem_singleton.mpr (induction_typeName step n))
  | unary op a s t ih => exact step _ (List.forall_mem_singleton.mpr (hexpr ih))
  | ident n t => exact step _ (List.forall_mem_singleton.mpr (hname n))
  | int | string | bool | absent => exact step _ (List.forall_mem_nil _)

private theorem induction_expr (e : Expr) : P (.expr e) :=
  step _ (List.forall_mem_singleton.mpr (induction_form step e))

private theorem induction_attribute (b : Binding) : P (.attribute b) :=
  step _ (List.forall_mem_singleton.mpr (induction_binding step fun i _ => induction_expr step i))

private theorem induction_formal (f : Formal) : P (.formal f) := by
  refine step _ ?_
  simpa [children] using ⟨induction_name step _, induction_typeName step _⟩

private theorem induction_method (m : Method) : P (.method m) := by
  have hparams : ∀ f ∈ m.params, P (.formal f) := fun f _ => induction_formal step f
  refine step _ ?_
  simpa [children, induction_name step, induction_typeName step, induction_expr step, or_imp,
    forall_and] using hparams

private theorem induction_feature (f : Feature) : P (.feature f) := by
  refine step _ ?_
  cases f with
  | method m => exact List.forall_mem_singleton.mpr (induction_method step m)
  | attr b => exact List.forall_mem_singleton.mpr (induction_attribute step b)

private theorem induction_class (c : Class) : P (.class c) := by
  have hfeatures : ∀ f ∈ c.features, P (.feature f) := fun f _ => induction_feature step f
  refine step _ ?_
  simpa [children, induction_typeName step] using hfeatures

/-- What holds of a node whenever it holds of its children holds of every node. -/
@[elab_as_elim]
theorem induction (d : Node) : P d := by
  cases d with
  | program p => exact step _ (List.forall_mem_map.mpr fun c _ => induction_class step c)
  | «class» c => exact induction_class step c
  | feature f => exact induction_feature step f
  | method m => exact induction_method step m
  | «attribute» b => exact induction_attribute step b
  | formal f => exact induction_formal step f
  | binding b => exact induction_binding step fun i _ => induction_expr step i
  | expr e => exact induction_expr step e
  | form e => exact induction_form step e
  | receiver r => exact induction_receiver step fun o _ => induction_expr step o
  | arm a => exact induction_arm step (induction_expr step _)
  | typeName n => exact induction_typeName step n
  | name n => exact induction_name step n

end Induction

/-! ## Walks -/

/-- What a walk is told of a node when it comes to it. -/
def visit : Node → Visit
  | program p => .program p.span
  | «class» c => .class c.file c.span
  | feature f => .feature f.span
  | method m => .method m.span
  | «attribute» b => .attribute b.span
  | formal f => .formal f.span
  | binding b => .binding b.span
  | expr e => .expr e.ty e.span
  | form (.assign _ _ s _) => .form .assign s
  | form (.call _ _ _ s _) => .form .call s
  | form (.cond _ _ _ s _) => .form .cond s
  | form (.loop _ _ s _) => .form .loop s
  | form (.block _ s _) => .form .block s
  | form (.letIn _ _ s _) => .form .letIn s
  | form (.caseOf _ _ s _) => .form .caseOf s
  | form (.new _ s _) => .form .new s
  | form (.binary _ _ _ s _) => .form .binary s
  | form (.unary _ _ s _) => .form .unary s
  | form (.ident n _) => .form .ident n.span
  | form (.int v s _) => .int v s
  | form (.string v s _) => .string v s
  | form (.bool _ s _) => .form .bool s
  | form (.absent s _) => .form .absent s
  | receiver _ => .receiver
  | arm a => .arm a.span
  | typeName n => .typeName n.span
  | name n => .name n

/-- The walk over a node and all that is below it. -/
def visits : Node → List Visit
  | program p => p.visits
  | «class» c => c.visits
  | feature f => f.visits
  | method m => .method m.span :: .name m.name ::
      m.params.flatMap Formal.visits ++ m.returnType.typeVisits ++ m.body.visits
  | «attribute» b => .attribute b.span :: b.visits
  | formal f => f.visits
  | binding b => b.visits
  | expr e => e.visits
  | form e => e.visits.tail
  | receiver r => .receiver :: r.visits
  | arm a => a.visits
  | typeName n => n.typeVisits
  | name n => [.name n]

/-- A walk comes to an expression and then to its form. -/
theorem visits_expr (e : Expr) : (expr e).visits = .expr e.ty e.span :: (form e).visits := by
  cases e with
  | call r m args s t => rw [visits, visits, Expr.visits_call]; rfl
  | letIn b e s t => rw [visits, visits, Expr.visits_letIn]; rfl
  | _ => rfl

/-- A walk comes to the form of an expression and then to what is directly below it. -/
theorem visits_form (e : Expr) :
    (form e).visits = (form e).visit :: e.formChildren.flatMap visits := by
  cases e with
  | call r m args s t =>
    simp [visits, visit, Expr.visits_call, Expr.formChildren, List.flatMap_map]
  | letIn b e s t => simp [visits, visit, Expr.visits_letIn, Expr.formChildren]
  | block es s t =>
    simp [visits, visit, Expr.visits, Expr.visitsAll_eq, Expr.formChildren, List.flatMap_map]
  | caseOf e arms s t =>
    simp [visits, visit, Expr.visits, Expr.visitsArms_eq, Expr.formChildren, List.flatMap_map]
  | _ => simp [visits, visit, Expr.visits, Expr.formChildren]

/-- A walk comes to a node and then to its children. -/
theorem visits_eq (d : Node) : d.visits = d.visit :: d.children.flatMap visits := by
  cases d with
  | program p => simp [visits, visit, children, Program.visits, List.flatMap_map]
  | «class» c => simp [visits, visit, children, Class.visits, List.flatMap_map]
  | feature f => cases f <;> simp [visits, visit, children, Feature.visits, Feature.span]
  | method m => simp [visits, visit, children, List.flatMap_map]
  | «attribute» b => simp [visits, visit, children]
  | formal f => simp [visits, visit, children, Formal.visits]
  | binding b => cases hb : b.init <;> simp [visits, visit, children, Binding.visits, hb]
  | expr e => simp [visits_expr, visit, children]
  | form e => exact visits_form e
  | receiver r =>
    cases r <;> simp [visits, visit, children, Receiver.visits, Receiver.object?, Receiver.typeName?]
  | arm a => simp [visits, visit, children, Arm.visits]
  | typeName n => simp [visits, visit, children, Name.typeVisits]
  | name n => simp [visits, visit, children]

/-- A list of all places of a node with the nodes that stand there, from left to right. -/
structure Lists (d : Node) (l : List (List Nat × Node)) : Prop where
  sorted : l.Pairwise fun p q => p.1 < q.1
  mem_iff : ∀ place n, (place, n) ∈ l ↔ d.At place n
  visits : l.map (fun p => p.2.visit) = d.visits

/-- The places below nodes that stand next to each other, the first one at position `k`. -/
theorem exists_listing_children {cs : List Node} (h : ∀ c ∈ cs, ∃ l, c.Lists l) (k : Nat) :
    ∃ l : List (List Nat × Node), (l.Pairwise fun p q => p.1 < q.1) ∧
      (∀ place n, (place, n) ∈ l ↔
        ∃ i rest c, place = (k + i) :: rest ∧ cs[i]? = some c ∧ c.At rest n) ∧
      l.map (fun p => p.2.visit) = cs.flatMap Node.visits := by
  induction cs generalizing k with
  | nil => exact ⟨[], .nil, fun place n => by simp, rfl⟩
  | cons c cs ih =>
    obtain ⟨first, hfirst⟩ := h c List.mem_cons_self
    obtain ⟨later, hsorted, hmem, hvisits⟩ := ih (fun c hc => h c (List.mem_cons_of_mem _ hc)) (k + 1)
    refine ⟨first.map (fun p => (k :: p.1, p.2)) ++ later, ?_, fun place n => ?_, ?_⟩
    · refine List.pairwise_append.mpr ⟨?_, hsorted, ?_⟩
      · exact hfirst.sorted.map _ fun p q hpq => List.cons_lt_cons_iff.mpr (.inr ⟨rfl, hpq⟩)
      · intro p hp q hq
        obtain ⟨p, -, rfl⟩ := List.mem_map.mp hp
        obtain ⟨i, rest, c', hq, -⟩ := (hmem q.1 q.2).mp hq
        rw [hq]
        exact List.cons_lt_cons_iff.mpr (.inl (by omega))
    · rw [List.mem_append, List.mem_map, hmem]
      constructor
      · rintro (⟨⟨rest, n'⟩, hp, heq⟩ | ⟨i, rest, c', rfl, hc', hat⟩)
        · cases heq
          exact ⟨0, rest, c, rfl, rfl, (hfirst.mem_iff _ _).mp hp⟩
        · exact ⟨i + 1, rest, c', by rw [Nat.add_right_comm, Nat.add_assoc], hc', hat⟩
      · rintro ⟨i, rest, c', rfl, hc', hat⟩
        cases i with
        | zero =>
          cases hc'
          exact .inl ⟨(rest, n), (hfirst.mem_iff _ _).mpr hat, rfl⟩
        | succ i =>
          exact .inr ⟨i, rest, c', by rw [Nat.add_right_comm, Nat.add_assoc], hc', hat⟩
    · rw [List.map_append, List.map_map, hvisits, List.flatMap_cons, ← hfirst.visits]
      rfl

/-- Every node has such a list. -/
theorem exists_listing (d : Node) : ∃ l, d.Lists l := by
  induction d using Node.induction with
  | step d ih =>
    obtain ⟨below, hsorted, hmem, hvisits⟩ := exists_listing_children ih 0
    refine ⟨([], d) :: below, ?_, fun place n => ?_, ?_⟩
    · refine List.pairwise_cons.mpr ⟨fun q hq => ?_, hsorted⟩
      obtain ⟨i, rest, c, hq, -⟩ := (hmem q.1 q.2).mp hq
      rw [hq]
      exact List.nil_lt_cons _ _
    · rw [List.mem_cons, Prod.mk.injEq, hmem]
      constructor
      · rintro (⟨rfl, rfl⟩ | ⟨i, rest, c, rfl, hc, hat⟩)
        · exact .here
        · rw [Nat.zero_add]
          exact .child hc hat
      · intro hat
        cases hat with
        | here => exact .inl ⟨rfl, rfl⟩
        | child hc hat => exact .inr ⟨_, _, _, by rw [Nat.zero_add], hc, hat⟩
    · rw [List.map_cons, hvisits, visits_eq]

end Node

end CoolTypes
