import CoolTypes.Proofs.Typing.Run

/-!
# The check of declarations

The check of a method, an attribute, a class and a program as functions, like that of expressions. A run
of the check of a program annotates all code of classes that have signatures, reports what is to be
reported in it, and never fails (`run_program`).
-/

namespace CoolTypes

namespace Setting

variable (Γ : Setting) (C : Symbol) (env : Env)

/-! ## Parameters -/

/-- The type that a parameter has in the body of its method. -/
def formalTy (f : Formal) : Ty := (Γ.declaredTy f.typeName).orSelf Γ.top

/-- The scope of a method with one more parameter, which counts only if it is new and not `self`. -/
def bindFormal (scope : SymbolMap Ty) (f : Formal) : SymbolMap Ty :=
  if f.name.symbol = Γ.tables.known .self ∨ (scope.get? f.name.symbol).isSome then scope
  else scope.insert f.name.symbol (Γ.formalTy f)

/-- What is reported of a parameter in the scope of earlier ones. -/
def formalReports (scope : SymbolMap Ty) (f : Formal) : List Report :=
  if f.name.symbol = Γ.tables.known .self then [Violation.illegalSelf.place f.name.span]
  else if (scope.get? f.name.symbol).isSome then
    [(Violation.multipleDefinition .parameter f.name.symbol).place f.name.span]
  else []

/-- What is reported of parameters in the scope of earlier ones. -/
def paramReports (scope : SymbolMap Ty) : List Formal → List Report
  | [] => []
  | f :: rest => Γ.formalReports scope f ++ paramReports (Γ.bindFormal scope f) rest

/-- The scope of the parameters of a method. -/
def paramScope (params : List Formal) : SymbolMap Ty := params.foldl Γ.bindFormal .empty

variable {Γ} in
theorem get?_bindFormal {scope : SymbolMap Ty} {f : Formal} {n : Symbol} :
    (Γ.bindFormal scope f).get? n = (scope.get? n).or
      (if n ≠ Γ.tables.known .self ∧ f.name.symbol = n then some (Γ.formalTy f) else none) := by
  unfold bindFormal
  split
  · next hskip =>
    rcases hskip with hself | hsome
    · rw [if_neg fun h => h.1 (h.2 ▸ hself), Option.or_none]
    · by_cases hn : f.name.symbol = n
      · obtain ⟨T, hT⟩ := Option.isSome_iff_exists.mp (hn ▸ hsome)
        rw [hT, Option.some_or]
      · rw [if_neg fun h => hn h.2, Option.or_none]
  · next hbind =>
    rw [not_or] at hbind
    rw [SymbolMap.get?_insert]
    by_cases hn : n = f.name.symbol
    · subst hn
      have hnone : scope.get? f.name.symbol = none := by simpa using hbind.2
      rw [if_pos rfl, if_pos ⟨hbind.1, rfl⟩, hnone, Option.none_or]
    · rw [if_neg hn, if_neg fun h => hn h.2.symm, Option.or_none]

theorem get?_foldl_bindFormal (params : List Formal) (scope : SymbolMap Ty) (n : Symbol) :
    (params.foldl Γ.bindFormal scope).get? n = (scope.get? n).or
      (if n = Γ.tables.known .self then none
        else (params.find? (·.name.symbol == n)).map Γ.formalTy) := by
  induction params generalizing scope with
  | nil => simp
  | cons f rest ih =>
    rw [List.foldl_cons, ih, get?_bindFormal, Option.or_assoc]
    congr 1
    by_cases hself : n = Γ.tables.known .self
    · simp [hself]
    · by_cases hn : f.name.symbol = n <;> simp [hself, hn]

/-- A name stands for the first parameter that is called so, and `self` for none. -/
theorem get?_paramScope (params : List Formal) (n : Symbol) :
    (Γ.paramScope params).get? n = if n = Γ.tables.known .self then none
      else (params.find? (·.name.symbol == n)).map Γ.formalTy := by
  rw [paramScope, get?_foldl_bindFormal, SymbolMap.get?_empty, Option.none_or]

/-- The environment of the body of a method. -/
def methodEnv (params : List Formal) : Env :=
  fun n => ((Γ.paramScope params).get? n).or (env n)

/-! ## Features and classes -/

/-- The method with the types of its body. -/
def annotateMethod (m : Method) : Method :=
  { m with body := Γ.annotate C (Γ.methodEnv env m.params) m.body }

/-- What is reported of the body of a method against its declared type. -/
def returnReports (m : Method) : List Report :=
  if m.body.isAbsent then []
  else Γ.expectReports C (Γ.methodEnv env m.params) m.body (Γ.declaredTy m.returnType)

/-- What is reported in a method. -/
def methodReports (m : Method) : List Report :=
  Γ.paramReports .empty m.params ++ Γ.reports C (Γ.methodEnv env m.params) m.body ++
    Γ.returnReports C env m

/-- The attribute with the types of its initial value. -/
def annotateAttr (b : Binding) : Binding := { b with init := Γ.annotateInit C env b.init }

/-- The feature with the types of its code. -/
def annotateFeature : Feature → Feature
  | .method m => .method (Γ.annotateMethod C env m)
  | .attr b => .attr (Γ.annotateAttr C env b)

/-- What is reported in a feature. -/
def featureReports : Feature → List Report
  | .method m => Γ.methodReports C env m
  | .attr b => Γ.initReports C env (Γ.declaredTy b.typeName) b.init

/-- The class with the types of its code, if it has signatures. -/
def annotateClass (c : Class) : Class :=
  if Γ.signatures.contains c.name.symbol then
    { c with features := c.features.map (Γ.annotateFeature c.name.symbol env) }
  else c

/-- What is reported in the code of a class, which is checked if it has signatures. -/
def codeReports (c : Class) : List Report :=
  if Γ.signatures.contains c.name.symbol then
    c.features.flatMap (Γ.featureReports c.name.symbol env)
  else []

/-- The program with the types of its code. -/
def annotateProgram (p : Program) : Program := { p with classes := p.classes.map (Γ.annotateClass env) }

/-- What is reported in the code of a program. -/
def programReports (p : Program) : List Report := p.classes.flatMap (Γ.codeReports env)

end Setting

namespace Check

variable {α β : Type} {C : Symbol} {env : Env}

theorem Gives.ownScope {x : Check α} {a : α} {rs : List Report} (hx : Gives C env x a rs) :
    Gives C env (Check.inScope x) a rs :=
  fun s hC henv => run_inScope (hx { s with scopes := s.scopes.push } hC henv)

theorem Gives.mapM {f : α → Check β} {g : α → β} {k : α → List Report} {l : List α}
    (h : ∀ a ∈ l, Gives C env (f a) (g a) (k a)) : Gives C env (l.mapM f) (l.map g) (l.flatMap k) := by
  induction l with
  | nil => exact .pure []
  | cons a rest ih =>
    rw [List.mapM_cons]
    exact (h a List.mem_cons_self).bind
      ((ih fun a ha => h a (List.mem_cons_of_mem _ ha)).thenPure _)

end Check

namespace Setting

open Check

variable {Γ : Setting} {C : Symbol} {env : Env}

/-! ## Runs -/

theorem run_formal (f : Formal) (s : CheckState) :
    StateT.run (Γ.formal f) s = .ok ((), { s with
      scopes := { s.scopes with inner := Γ.bindFormal s.scopes.inner f }
      reports := s.reports ++ Γ.formalReports s.scopes.inner f }) := by
  unfold formal bindable bindFormal formalReports
  by_cases hself : f.name.symbol = Γ.tables.known .self
  · simp only [hself, if_true, true_or]
    rfl
  · simp only [hself, if_false, false_or]
    have hlocal : s.scopes.local? f.name.symbol = s.scopes.inner.get? f.name.symbol := rfl
    by_cases hsome : (s.scopes.inner.get? f.name.symbol).isSome = true
    · simp only [hsome, if_true]
      simp [StateT.run_bind, hlocal, hsome, report]
      rfl
    · simp only [hsome, Bool.false_eq_true, if_false, List.append_nil]
      simp [StateT.run_bind, hlocal, hsome, Check.bind]
      rfl

theorem run_formals (params : List Formal) (s : CheckState) :
    StateT.run (params.forM Γ.formal) s = .ok ((), { s with
      scopes := { s.scopes with inner := params.foldl Γ.bindFormal s.scopes.inner }
      reports := s.reports ++ Γ.paramReports s.scopes.inner params }) := by
  induction params generalizing s with
  | nil =>
    simp only [paramReports, List.append_nil]
    rfl
  | cons f rest ih =>
    rw [List.forM_eq_forM, List.forM_cons, StateT.run_bind, run_formal]
    refine (ih _).trans ?_
    rw [paramReports, List.foldl_cons, List.append_assoc]

@[simp] theorem isAbsent_annotate (e : Expr) : (Γ.annotate C env e).isAbsent = e.isAbsent := by
  cases e with
  | letIn b _ _ _ => cases b; rfl
  | _ => rfl

/-- The check of a method binds its parameters in a scope around the one of its body. -/
theorem method_gives (m : Method) :
    Gives C env (Γ.method m) (Γ.annotateMethod C env m) (Γ.methodReports C env m) := by
  intro s hC henv
  refine @run_inScope _ _ s _ (Γ.paramScope m.params) _ ?_
  -- once the parameters are bound, the rest gives a value in their scope
  have hbody : Gives C (Γ.methodEnv env m.params)
      (do
        let body ← inScope (Γ.expr m.body)
        unless body.isAbsent do
          Γ.expect body (Γ.declaredTy m.returnType)
        return { m with body := body })
      (Γ.annotateMethod C env m)
      (Γ.reports C (Γ.methodEnv env m.params) m.body ++ Γ.returnReports C env m) := by
    refine (expr_gives Γ C _ m.body).ownScope.bind ?_
    rw [isAbsent_annotate, returnReports]
    cases m.body.isAbsent with
    | true => exact .pure _
    | false => exact (gives_expect m.body _).thenPure _
  have hrun := hbody { s with
    scopes := ⟨Γ.paramScope m.params, s.scopes.toList⟩
    reports := s.reports ++ Γ.paramReports .empty m.params } hC ?_
  · rw [List.append_assoc, ← List.append_assoc (Γ.paramReports _ _)] at hrun
    rw [StateT.run_bind, run_formals]
    exact hrun
  · subst henv
    funext n
    simp only [Scopes.resolve?, Scopes.toList, List.findSome?_cons, methodEnv]
    cases (Γ.paramScope m.params).get? n <;> rfl

theorem attr_gives (b : Binding) : Gives C env (Γ.attr b) (Γ.annotateAttr C env b)
    (Γ.initReports C env (Γ.declaredTy b.typeName) b.init) := by
  obtain ⟨n, tn, init, s⟩ := b
  cases init with
  | none => exact .pure _
  | some i => exact (expr_gives Γ C env i).bind ((gives_expect i _).thenPure _)

theorem feature_gives (f : Feature) :
    Gives C env (Γ.feature f) (Γ.annotateFeature C env f) (Γ.featureReports C env f) := by
  cases f with
  | method m => exact (method_gives m).thenPure _
  | attr b => exact (attr_gives b).thenPure _

/-- A class that is checked becomes the current one. -/
theorem run_class (c : Class) (s : CheckState) :
    StateT.run (Γ.class c) s = .ok (Γ.annotateClass s.scopes.resolve? c, { s with
      current := if Γ.signatures.contains c.name.symbol then c.name.symbol else s.current
      reports := s.reports ++ Γ.codeReports s.scopes.resolve? c }) := by
  unfold «class» annotateClass codeReports
  by_cases hc : Γ.signatures.contains c.name.symbol = true
  · have hfeatures : Gives c.name.symbol s.scopes.resolve? (inScope (c.features.mapM Γ.feature)) _ _ :=
      (Gives.mapM fun f _ => feature_gives f).ownScope
    simp only [hc, if_true]
    exact (hfeatures.thenPure fun fs => { c with features := fs })
      { s with current := c.name.symbol } rfl rfl
  · simp only [hc, Bool.false_eq_true, if_false, List.append_nil]
    rfl

theorem run_classes (cs : List Class) (s : CheckState) :
    ∃ current, StateT.run (cs.mapM Γ.class) s = .ok (cs.map (Γ.annotateClass s.scopes.resolve?), { s with
      current := current
      reports := s.reports ++ cs.flatMap (Γ.codeReports s.scopes.resolve?) }) := by
  induction cs generalizing s with
  | nil => exact ⟨s.current, by simp only [List.flatMap_nil, List.append_nil]; rfl⟩
  | cons c rest ih =>
    obtain ⟨current, hrest⟩ := ih { s with
      current := if Γ.signatures.contains c.name.symbol then c.name.symbol else s.current
      reports := s.reports ++ Γ.codeReports s.scopes.resolve? c }
    refine ⟨current, ?_⟩
    rw [List.mapM_cons, StateT.run_bind, run_class]
    show (StateT.run (rest.mapM Γ.class) _ >>= fun p => _) = _
    rw [hrest, List.flatMap_cons, List.append_assoc]
    rfl

/-- From the start, the check of a program annotates its code and reports what is to be reported. -/
theorem run_program (Γ : Setting) (p : Program) :
    Γ.run (Γ.program p) =
      .ok (Γ.annotateProgram (fun _ => none) p, Γ.programReports (fun _ => none) p) := by
  obtain ⟨current, hrun⟩ := run_classes (Γ := Γ) p.classes Γ.start
  unfold run program
  rw [StateT.run_bind, hrun]
  rfl

end Setting

end CoolTypes
