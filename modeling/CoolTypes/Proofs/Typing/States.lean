import CoolTypes.Proofs.Syntax.Parts
import CoolTypes.Proofs.Typing.Declarations

/-!
# The states in which code is checked

The scopes of a check are closed again when it comes to an end, so its outcome does not show what has been
bound on the way. `Setting.Enters` goes from the check of an expression in one state to the check of an
expression inside of it, with the parts of the check that open scopes and bind names run in between, and
`Setting.Entered` starts at the bodies and initial values of a program. Each expression of a checked program
is the outcome of the check of an expression in one of these states (`exists_entered`).
-/

namespace CoolTypes

/-- The two states have the same scopes and the same class. What has been reported may differ: no part of
the check looks at it. -/
structure CheckState.SamePlace (s s' : CheckState) : Prop where
  scopes : s'.scopes = s.scopes
  current : s'.current = s.current

theorem CheckState.SamePlace.refl (s : CheckState) : s.SamePlace s := ⟨rfl, rfl⟩

/-- The children of an expression that see the same names as itself. -/
def Expr.parts : Expr → List Expr
  | letIn b _ _ _ => b.init.toList
  | caseOf e _ _ _ => [e]
  | e => e.children

namespace Setting

open Check

/-- Opens the scope of a name and binds it to the type that the check comes to, unless it is `self`. -/
def openBinding (Γ : Setting) (n : Name) (type : Check Ty) : Check Unit := do
  let ty ← type
  let valid ← Γ.bindable n
  modify fun s => { s with scopes := s.scopes.push }
  if valid then Check.bind n.symbol ty

/-- Opens the scope of the parameters of a method and that of its body. -/
def openMethod (Γ : Setting) (params : List Formal) : Check Unit := do
  modify fun s => { s with scopes := s.scopes.push }
  params.forM Γ.formal
  modify fun s => { s with scopes := s.scopes.push }

/-- The check of one expression in a state includes the check of the other one in the other state. -/
inductive Enters (Γ : Setting) : CheckState × Expr → CheckState × Expr → Prop
  | part {s s' e d} : d ∈ e.parts → s.SamePlace s' → Γ.Enters (s, e) (s', d)
  | letBody {s s₁ s' b e span ty} :
      StateT.run (Γ.openBinding b.name (Γ.typeOf b.typeName)) s = .ok ((), s₁) → s₁.SamePlace s' →
      Γ.Enters (s, .letIn b e span ty) (s', e)
  | armBody {s s₁ s' e arms span ty arm} : arm ∈ arms →
      StateT.run (Γ.openBinding arm.name (Γ.classTypeOf arm.typeName .caseArm)) s = .ok ((), s₁) →
      s₁.SamePlace s' → Γ.Enters (s, .caseOf e arms span ty) (s', arm.body)

/-- The state in which the check of a class goes on with its features. -/
def InClass (Γ : Setting) (c : Class) (s : CheckState) : Prop :=
  CheckState.SamePlace { scopes := Γ.start.scopes.push, current := c.name.symbol } s

/-- The check of a program includes the check of the expression in the state, at the top of the code of a
class that has signatures. -/
inductive Begins (Γ : Setting) (p : Program) : CheckState × Expr → Prop
  | body {c m s s'} : c ∈ p.classes → Γ.signatures.contains c.name.symbol = true →
      .method m ∈ c.features → Γ.InClass c s →
      StateT.run (Γ.openMethod m.params) s = .ok ((), s') → Γ.Begins p (s', m.body)
  | init {c b i s} : c ∈ p.classes → Γ.signatures.contains c.name.symbol = true →
      .attr b ∈ c.features → i ∈ b.init → Γ.InClass c s → Γ.Begins p (s, i)

/-- The check of a program includes the check of the expression in the state. -/
def Entered (Γ : Setting) (p : Program) (x : CheckState × Expr) : Prop :=
  ∃ start, Γ.Begins p start ∧ Relation.ReflTransGen Γ.Enters start x

variable {Γ : Setting}

/-! ## Opening scopes -/

/-- The scopes inside of a binding. -/
def innerScopes (Γ : Setting) (scopes : Scopes) (n : Name) (ty : Ty) : Scopes :=
  if n.symbol = Γ.tables.known .self then scopes.push else scopes.push.bind n.symbol ty

theorem resolve?_innerScopes (scopes : Scopes) (n : Name) (ty : Ty) :
    (Γ.innerScopes scopes n ty).resolve? = Γ.bound scopes.resolve? n ty := by
  unfold innerScopes bound
  split
  · rfl
  · exact funext fun m => Scopes.resolve?_bind scopes.push n.symbol m ty

theorem run_openBinding {s : CheckState} {x : Check Ty} {ty : Ty} {rs : List Report} (n : Name)
    (hx : Gives s.current s.scopes.resolve? x ty rs) :
    StateT.run (Γ.openBinding n x) s = .ok ((), { s with
      scopes := Γ.innerScopes s.scopes n ty
      reports := s.reports ++ (rs ++ Γ.bindReports n) }) := by
  have hvalid := gives_bindable (Γ := Γ) n { s with reports := s.reports ++ rs } rfl rfl
  rw [List.append_assoc] at hvalid
  unfold openBinding innerScopes
  rw [StateT.run_bind, hx s rfl rfl]
  show (StateT.run (Γ.bindable n) _ >>= fun p => _) = _
  rw [hvalid]
  by_cases hself : n.symbol = Γ.tables.known .self <;> simp only [hself] <;> rfl

theorem run_openMethod (params : List Formal) (s : CheckState) :
    StateT.run (Γ.openMethod params) s = .ok ((), { s with
      scopes := ⟨.empty, Γ.paramScope params :: s.scopes.toList⟩
      reports := s.reports ++ Γ.paramReports .empty params }) := by
  have hparams : StateT.run (params.forM Γ.formal) { s with scopes := s.scopes.push } = _ :=
    run_formals params _
  unfold openMethod
  rw [StateT.run_bind, StateT.run_modify]
  show (StateT.run (params.forM Γ.formal) _ >>= fun p => _) = _
  rw [hparams]
  rfl

/-! ## Annotated code -/

/-- The outcome of the check of an expression is the annotated expression. -/
theorem eq_annotate_of_run {s s' : CheckState} {e d : Expr}
    (h : StateT.run (Γ.expr e) s = .ok (d, s')) : d = Γ.annotate s.current s.scopes.resolve? e := by
  rw [expr_gives Γ s.current s.scopes.resolve? e s rfl rfl] at h
  cases h
  rfl

/-- The check enters each child of an expression. -/
theorem exists_enters_of_children {s : CheckState} {e d : Expr}
    (hd : d ∈ (Γ.annotate s.current s.scopes.resolve? e).children) :
    ∃ s' e', Γ.Enters (s, e) (s', e') ∧ d = Γ.annotate s'.current s'.scopes.resolve? e' := by
  have hpart : ∀ c ∈ e.parts, ∃ s' e', Γ.Enters (s, e) (s', e') ∧
      Γ.annotate s.current s.scopes.resolve? c = Γ.annotate s'.current s'.scopes.resolve? e' :=
    fun c hc => ⟨s, c, .part hc (.refl s), rfl⟩
  cases e with
  | assign | cond | loop | binary | unary =>
    simp only [annotate, Expr.children, List.mem_cons, List.not_mem_nil, or_false] at hd
    rcases hd with rfl | rfl | rfl <;> exact hpart _ (by simp [Expr.parts, Expr.children])
  | call r m args span ty =>
    rw [annotate, Expr.children, annotateAll_eq, List.mem_append] at hd
    rcases hd with hd | hd
    · cases r with
      | implicit => simp [annotateReceiver, Receiver.object?] at hd
      | dynamic o | static o n =>
        have hd : d = Γ.annotate s.current s.scopes.resolve? o := by
          simpa [annotateReceiver, Receiver.object?] using hd
        exact hd ▸ hpart o (by simp [Expr.parts, Expr.children, Receiver.object?])
    · obtain ⟨a, ha, rfl⟩ := List.mem_map.mp hd
      exact hpart a (List.mem_append_right _ ha)
  | block es span ty =>
    rw [annotate, Expr.children, annotateAll_eq] at hd
    obtain ⟨a, ha, rfl⟩ := List.mem_map.mp hd
    exact hpart a ha
  | letIn b e span ty =>
    obtain ⟨n, tn, init, bs⟩ := b
    rw [annotate, Expr.children, List.mem_append, List.mem_singleton] at hd
    rcases hd with hd | rfl
    · cases init with
      | none => simp [annotateInit] at hd
      | some i =>
        have hd : d = Γ.annotate s.current s.scopes.resolve? i := by simpa [annotateInit] using hd
        exact hd ▸ hpart i (by simp [Expr.parts])
    · refine ⟨_, e, .letBody (run_openBinding n (gives_typeOf tn)) (.refl _), ?_⟩
      dsimp only
      rw [resolve?_innerScopes]
  | caseOf e arms span ty =>
    rw [annotate, Expr.children, List.mem_cons] at hd
    rcases hd with rfl | hd
    · exact hpart e (List.mem_singleton.mpr rfl)
    · obtain ⟨arm, harm, rfl⟩ : ∃ arm ∈ arms, d = Γ.annotate s.current
          (Γ.bound s.scopes.resolve? arm.name (Γ.armTy arm.typeName)) arm.body := by
        rw [annotateArms_eq, List.map_map, List.mem_map] at hd
        obtain ⟨arm, harm, rfl⟩ := hd
        exact ⟨arm, harm, rfl⟩
      refine ⟨_, arm.body, .armBody harm
        (run_openBinding arm.name (gives_classTypeOf arm.typeName .caseArm)) (.refl _), ?_⟩
      dsimp only
      rw [resolve?_innerScopes]
  | new | ident | int | string | bool | absent => exact absurd hd List.not_mem_nil

/-- The check enters each expression inside of an expression. -/
theorem exists_enters_of_holds {s : CheckState} {e d : Expr}
    (hd : (Γ.annotate s.current s.scopes.resolve? e).Holds d) :
    ∃ s' e', Relation.ReflTransGen Γ.Enters (s, e) (s', e') ∧
      d = Γ.annotate s'.current s'.scopes.resolve? e' := by
  -- the induction goes down from the outer expression, which is an annotated one each time
  generalize hroot : Γ.annotate s.current s.scopes.resolve? e = root at hd
  induction hd using Relation.ReflTransGen.head_induction_on generalizing s e with
  | refl => exact ⟨s, e, .refl, hroot.symm⟩
  | head hchild _ ih =>
    subst hroot
    obtain ⟨s₁, e₁, hstep, rfl⟩ := exists_enters_of_children hchild
    obtain ⟨s', e', hsteps, rfl⟩ := ih rfl
    exact ⟨s', e', .head hstep hsteps, rfl⟩

/-- The check begins with each expression at the top of the code of a class. -/
theorem exists_begins {p : Program} {c : Class} (hc : c ∈ p.classes)
    (hsigs : Γ.signatures.contains c.name.symbol = true) {f : Feature} (hf : f ∈ c.features) {e : Expr}
    (he : e ∈ (Γ.annotateFeature c.name.symbol (fun _ => none) f).code) :
    ∃ s e', Γ.Begins p (s, e') ∧ e = Γ.annotate s.current s.scopes.resolve? e' := by
  have hin : Γ.InClass c { scopes := Γ.start.scopes.push, current := c.name.symbol } := .refl _
  cases f with
  | method m =>
    obtain rfl := List.mem_singleton.mp he
    refine ⟨_, m.body, .body hc hsigs hf hin (run_openMethod m.params _), ?_⟩
    simp only [annotateMethod]
    congr 1
    funext n
    simp only [methodEnv, Scopes.resolve?, Scopes.toList, List.findSome?_cons]
    cases (Γ.paramScope m.params).get? n <;> rfl
  | attr b =>
    obtain ⟨n, tn, init, span⟩ := b
    cases init with
    | none => simp [annotateFeature, annotateAttr, annotateInit, Feature.code] at he
    | some i =>
      have he : e = Γ.annotate c.name.symbol (fun _ => none) i := by
        simpa [annotateFeature, annotateAttr, annotateInit, Feature.code] using he
      exact ⟨_, i, .init hc hsigs hf rfl hin, he⟩

/-- If all classes have signatures, each expression of a checked program is the outcome of the check of an
expression in a state that the check comes to. -/
theorem exists_entered {p : Program}
    (hall : ∀ c ∈ p.classes, Γ.signatures.contains c.name.symbol = true) {d : Expr}
    (hd : (Γ.annotateProgram (fun _ => none) p).Holds d) :
    ∃ s e s', Γ.Entered p (s, e) ∧ StateT.run (Γ.expr e) s = .ok (d, s') := by
  obtain ⟨_, hmem, f', hf', root, hroot, hd⟩ := hd
  obtain ⟨c, hc, rfl⟩ := List.mem_map.mp hmem
  rw [annotateClass, if_pos (hall c hc)] at hf'
  obtain ⟨f, hf, rfl⟩ := List.mem_map.mp hf'
  obtain ⟨s, e, hbegin, rfl⟩ := exists_begins hc (hall c hc) hf hroot
  obtain ⟨s', e', hsteps, rfl⟩ := exists_enters_of_holds hd
  exact ⟨s', e', _, ⟨_, hbegin, hsteps⟩, expr_gives Γ s'.current s'.scopes.resolve? e' s' rfl rfl⟩

end Setting

end CoolTypes
