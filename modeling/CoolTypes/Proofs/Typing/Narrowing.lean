import CoolTypes.Proofs.Typing.Decision

/-!
# Inherited code

An expression that has a type in the code of a class has one in the code of each descendant, under the
same types of names, and the second one narrows the first (`hasType_of_reaches`). What carries the
induction is `Refines`: besides narrowing, a type becomes primitive only by staying as it is.
-/

namespace CoolTypes

/-- In the code of a descendant a type stays the self type, or its class becomes one that inherits from
it. -/
inductive InheritanceGraph.Narrows (g : InheritanceGraph) : Ty → Ty → Prop
  | self : g.Narrows .selfType .selfType
  | named {a b} : g.Reaches b a → g.Narrows (.named a) (.named b)

namespace Setting

/-- The second type narrows the first, and is primitive only if they are the same. -/
structure Refines (Γ : Setting) (T T' : Ty) : Prop where
  narrows : Γ.hierarchy.graph.Narrows T T'
  primitive : Γ.tables.PrimitiveTy T' → T = T'

/-- A descendant has the attributes of a class, and methods that can be called like its methods. -/
structure Coherent (Γ : Setting) : Prop where
  attr : ∀ c d n a, Γ.hierarchy.graph.Reaches d c → Γ.signatures.attr? c n = some a →
    Γ.signatures.attr? d n = some a
  method : ∀ c d n sig, Γ.hierarchy.graph.Reaches d c → Γ.signatures.method? c n = some sig →
    ∃ sig', Γ.signatures.method? d n = some sig' ∧ sig.Agrees sig'

variable {Γ : Setting} {C D : Symbol} {env : Env} {T T' U : Ty}

/-! ## Refinement -/

theorem Refines.refl (Γ : Setting) (T : Ty) : Γ.Refines T T := by
  refine ⟨?_, fun _ => rfl⟩
  cases T with
  | named c => exact .named Relation.ReflTransGen.refl
  | selfType => exact .self

/-- The class of the refined type inherits from that of the other one. -/
theorem Refines.reaches_within (h : Γ.Refines T T') (hDC : Γ.hierarchy.graph.Reaches D C) :
    Γ.hierarchy.graph.Reaches (T'.within D) (T.within C) := by
  obtain ⟨hn, _⟩ := h
  cases hn with
  | self => exact hDC
  | named hba => exact hba

/-- What conforms to a type keeps doing so. -/
theorem Refines.conforms (h : Γ.Refines T T') (hDC : Γ.hierarchy.graph.Reaches D C)
    (hU : Γ.hierarchy.graph.Conforms C T U) : Γ.hierarchy.graph.Conforms D T' U := by
  obtain ⟨hn, _⟩ := h
  cases hn with
  | self =>
    cases hU with
    | self => exact .self
    | selfNamed hCd => exact .selfNamed (hDC.trans hCd)
  | named hba =>
    cases hU with
    | named had => exact .named (hba.trans had)

theorem conforms_of_forall₂ (hDC : Γ.hierarchy.graph.Reaches D C) {Ts Ts' Us : List Ty}
    (h : List.Forall₂ Γ.Refines Ts Ts') (hU : List.Forall₂ (Γ.hierarchy.graph.Conforms C) Ts Us) :
    List.Forall₂ (Γ.hierarchy.graph.Conforms D) Ts' Us := by
  induction h generalizing Us with
  | nil =>
    cases hU
    exact .nil
  | cons hT _ ih =>
    cases hU with
    | cons hconf hrest => exact .cons (hT.conforms hDC hconf) (ih hrest)

/-- The result of a call narrows with its receiver. -/
theorem Refines.orSelf (h : Γ.Refines T T') (R : Ty) : Γ.Refines (R.orSelf T) (R.orSelf T') := by
  cases R with
  | named c => exact .refl Γ (.named c)
  | selfType => exact h

theorem Refines.getLast {Ts Ts' : List Ty} (h : List.Forall₂ Γ.Refines Ts Ts') :
    Γ.Refines (Ts.getLast?.getD Γ.top) (Ts'.getLast?.getD Γ.top) := by
  induction h with
  | nil => exact .refl Γ _
  | cons hT hrest ih =>
    cases hrest with
    | nil => exact hT
    | cons hU hrest => simpa only [List.getLast?_cons_cons] using ih

theorem partners_of_forall₂ {α β : Type} {R : α → β → Prop} {as : List α} {bs : List β}
    (h : List.Forall₂ R as bs) :
    (∀ a ∈ as, ∃ b ∈ bs, R a b) ∧ ∀ b ∈ bs, ∃ a ∈ as, R a b := by
  induction h with
  | nil => exact ⟨fun _ h => absurd h List.not_mem_nil, fun _ h => absurd h List.not_mem_nil⟩
  | cons hab _ ih =>
    refine ⟨fun x hx => ?_, fun y hy => ?_⟩
    · rcases List.mem_cons.mp hx with rfl | hx
      · exact ⟨_, List.mem_cons_self, hab⟩
      · obtain ⟨b, hb, hr⟩ := ih.1 x hx
        exact ⟨b, List.mem_cons_of_mem _ hb, hr⟩
    · rcases List.mem_cons.mp hy with rfl | hy
      · exact ⟨_, List.mem_cons_self, hab⟩
      · obtain ⟨a, ha, hr⟩ := ih.2 y hy
        exact ⟨a, List.mem_cons_of_mem _ ha, hr⟩

/-- A join of refined types refines the join. Were it primitive alone, all types under it would be this
one class, and then so would the types that they refine. -/
theorem refines_join (hΓ : Γ.Regular) (hD : Γ.Checkable D) (hDC : Γ.hierarchy.graph.Reaches D C)
    {Ts Ts' : List Ty} {J J' : Symbol} (h : List.Forall₂ Γ.Refines Ts Ts')
    (hJ : Γ.hierarchy.graph.IsJoin (Ts.map (·.within C)) J)
    (hJ' : Γ.hierarchy.graph.IsJoin (Ts'.map (·.within D)) J') :
    Γ.Refines (.named J) (.named J') := by
  have habove : ∀ c ∈ Ts'.map (·.within D), Γ.hierarchy.graph.Reaches c J := by
    intro c hc
    obtain ⟨T', hT', rfl⟩ := List.mem_map.mp hc
    obtain ⟨T, hT, hr⟩ := (partners_of_forall₂ h).2 T' hT'
    exact (hr.reaches_within hDC).trans (hJ.above _ (List.mem_map_of_mem hT))
  have hreach := hJ'.least J habove
  refine ⟨.named hreach, ?_⟩
  rintro ⟨c, hc, hprim⟩
  cases hc
  -- a primitive join is each of the types under it, and they were the same before
  have hall : ∀ c ∈ Ts.map (·.within C), Γ.hierarchy.graph.Reaches c J' := by
    intro c hc
    obtain ⟨T, hT, rfl⟩ := List.mem_map.mp hc
    obtain ⟨T', hT', hr⟩ := (partners_of_forall₂ h).1 T hT
    have hfinal := hΓ.final J' _ hprim (hJ'.above _ (List.mem_map_of_mem hT'))
    cases T' with
    | selfType =>
      have hDJ : D = J' := hfinal
      exact absurd (hDJ ▸ hprim) hD.notPrimitive
    | named b =>
      have hb : b = J' := hfinal
      subst hb
      rw [hr.primitive ⟨b, rfl, hprim⟩]
      exact Relation.ReflTransGen.refl
  rw [hΓ.final J' J hprim (hJ.least J' hall)]

/-- Types that can be compared stay comparable. -/
theorem Refines.comparable (hΓ : Γ.Regular) {A A' B B' : Ty} (hA : Γ.Refines A A')
    (hB : Γ.Refines B B')
    (h : Γ.tables.PrimitiveTy A ∨ Γ.tables.PrimitiveTy B → A = B) :
    Γ.tables.PrimitiveTy A' ∨ Γ.tables.PrimitiveTy B' → A' = B' := by
  -- a type that refines a primitive one is the same
  have hsame : ∀ {T T'}, Γ.Refines T T' → Γ.tables.PrimitiveTy T → T = T' := by
    rintro T T' ⟨hn, _⟩ ⟨c, rfl, hc⟩
    cases hn with
    | named hbc => rw [hΓ.final c _ hc hbc]
  rintro (hprim | hprim)
  · have hAA := hA.primitive hprim
    rw [← hAA] at hprim
    have hAB := h (.inl hprim)
    rw [← hAA, ← hsame hB (hAB ▸ hprim), hAB]
  · have hBB := hB.primitive hprim
    rw [← hBB] at hprim
    have hAB := h (.inr hprim)
    rw [← hBB, ← hsame hA (hAB ▸ hprim), hAB]

/-! ## Typing in a descendant -/

theorem lookup_of_reaches (hcoh : Γ.Coherent) (hDC : Γ.hierarchy.graph.Reaches D C) {n : Name}
    (h : Γ.lookup? C env n = some T) : Γ.lookup? D env n = some T := by
  unfold lookup? at h ⊢
  cases hn : env n.symbol with
  | some U => rwa [hn] at h
  | none =>
    rw [hn, Option.none_or, Option.map_eq_some_iff] at h
    obtain ⟨a, ha, rfl⟩ := h
    rw [Option.none_or, hcoh.attr C D n.symbol a hDC ha]
    rfl

/-- A method with the signature of an inherited one can be called in the same way. -/
theorem method_of_refines (hcoh : Γ.Coherent) (hDC : Γ.hierarchy.graph.Reaches D C) {c d m : Symbol}
    (hdc : Γ.hierarchy.graph.Reaches d c) {sig : MethodSig} {Ts Ts' : List Ty}
    (hsig : Γ.signatures.method? c m = some sig) (hTs : List.Forall₂ Γ.Refines Ts Ts')
    (hconf : List.Forall₂ (Γ.hierarchy.graph.Conforms C) Ts sig.params) :
    ∃ sig', Γ.signatures.method? d m = some sig' ∧ sig'.ret = sig.ret ∧
      List.Forall₂ (Γ.hierarchy.graph.Conforms D) Ts' sig'.params := by
  obtain ⟨sig', hsig', hag⟩ := hcoh.method c d m sig hdc hsig
  refine ⟨sig', hsig', hag.ret.symm, ?_⟩
  rw [← hag.params]
  exact conforms_of_forall₂ hDC hTs hconf

theorem HasType.declares (hΓ : Γ.Regular) (hC : Γ.Checkable C) (henv : env.Declared Γ.hierarchy)
    {e : Expr} (h : HasType Γ C env e T) : Γ.hierarchy.Declares T :=
  ((hasType_iff hΓ hC henv).mp h).2 ▸ hΓ.infer_declares hC henv e

/-- Whenever the expression has a type in the code of `C`, one in the code of `D` refines it. -/
def Persists (Γ : Setting) (C D : Symbol) (e : Expr) : Prop :=
  ∀ env : Env, env.Declared Γ.hierarchy → ∀ T, HasType Γ C env e T →
    ∃ T', HasType Γ D env e T' ∧ Γ.Refines T T'

theorem hasTypes_persist (henv : env.Declared Γ.hierarchy) {es : List Expr} {Ts : List Ty}
    (h : ∀ e ∈ es, Γ.Persists C D e) (hes : HasTypes Γ C env es Ts) :
    ∃ Ts', HasTypes Γ D env es Ts' ∧ List.Forall₂ Γ.Refines Ts Ts' := by
  induction es generalizing Ts with
  | nil =>
    cases hes
    exact ⟨[], .nil, .nil⟩
  | cons e rest ih =>
    cases hes with
    | cons he hrest =>
      obtain ⟨T', hT', hr⟩ := h e List.mem_cons_self env henv _ he
      obtain ⟨Ts', hTs', hrs⟩ := ih (fun e he => h e (List.mem_cons_of_mem _ he)) hrest
      exact ⟨T' :: Ts', .cons hT' hTs', .cons hr hrs⟩

theorem hasArms_persist (hΓ : Γ.Regular) (henv : env.Declared Γ.hierarchy) {arms : List Arm}
    {Ks : List Symbol} {Ts : List Ty} (h : ∀ arm ∈ arms, Γ.Persists C D arm.body)
    (harms : HasArms Γ C env arms Ks Ts) :
    ∃ Ts', HasArms Γ D env arms Ks Ts' ∧ List.Forall₂ Γ.Refines Ts Ts' := by
  induction arms generalizing Ks Ts with
  | nil =>
    cases harms
    exact ⟨[], .nil, .nil⟩
  | cons arm rest ih =>
    cases harms with
    | cons hK hn he hrest =>
      obtain ⟨T', hT', hr⟩ := h _ List.mem_cons_self _
        (henv.bind (hΓ.resolve_declares hK)) _ he
      obtain ⟨Ts', hTs', hrs⟩ := ih (fun arm harm => h arm (List.mem_cons_of_mem _ harm)) hrest
      exact ⟨T' :: Ts', .cons hK hn hT' hTs', .cons hr hrs⟩

/-- The class of the code and a descendant of it. -/
structure Below (Γ : Setting) (C D : Symbol) : Prop where
  regular : Γ.Regular
  coherent : Γ.Coherent
  upper : Γ.Checkable C
  lower : Γ.Checkable D
  reaches : Γ.hierarchy.graph.Reaches D C

section

variable (hCD : Γ.Below C D)

include hCD

theorem Persists.call {r : Receiver} {m : Name} {args : List Expr} {s : Span} {t : Option Ty}
    (ihr : ∀ o ∈ r.object?, Γ.Persists C D o) (ihargs : ∀ e ∈ args, Γ.Persists C D e) :
    Γ.Persists C D (.call r m args s t) := by
  intro env henv T h
  cases h with
  | callImplicit hes hsig hconf =>
    obtain ⟨Ts', hes', hTs⟩ := hasTypes_persist henv ihargs hes
    obtain ⟨sig', hsig', hret, hconf'⟩ :=
      method_of_refines hCD.coherent hCD.reaches hCD.reaches hsig hTs hconf
    exact ⟨_, .callImplicit hes' hsig' hconf', hret ▸ .refl Γ _⟩
  | callDynamic ho hes hsig hconf =>
    obtain ⟨R', ho', hR⟩ := ihr _ rfl env henv _ ho
    obtain ⟨Ts', hes', hTs⟩ := hasTypes_persist henv ihargs hes
    obtain ⟨sig', hsig', hret, hconf'⟩ :=
      method_of_refines hCD.coherent hCD.reaches (hR.reaches_within hCD.reaches) hsig hTs hconf
    exact ⟨_, .callDynamic ho' hes' hsig' hconf', hret ▸ hR.orSelf _⟩
  | callStatic ho hK hoK hes hsig hconf =>
    obtain ⟨R', ho', hR⟩ := ihr _ rfl env henv _ ho
    obtain ⟨Ts', hes', hTs⟩ := hasTypes_persist henv ihargs hes
    exact ⟨_, .callStatic ho' hK (hR.conforms hCD.reaches hoK) hes' hsig
      (conforms_of_forall₂ hCD.reaches hTs hconf), hR.orSelf _⟩

theorem Persists.cond {a b c : Expr} {s : Span} {t : Option Ty} (iha : Γ.Persists C D a)
    (ihb : Γ.Persists C D b) (ihc : Γ.Persists C D c) : Γ.Persists C D (.cond a b c s t) := by
  intro env henv T h
  cases h with
  | cond ha hconf hb hc hJ =>
    obtain ⟨A', ha', hA⟩ := iha env henv _ ha
    obtain ⟨B', hb', hB⟩ := ihb env henv _ hb
    obtain ⟨C', hc', hC⟩ := ihc env henv _ hc
    have hJ' := hCD.regular.rooted.isJoin_join
      ((HasType.declares hCD.regular hCD.lower henv hb').contains_within hCD.lower.contains)
      ((HasType.declares hCD.regular hCD.lower henv hc').contains_within hCD.lower.contains)
    refine ⟨_, .cond ha' (hA.conforms hCD.reaches hconf) hb' hc' hJ', ?_⟩
    exact refines_join hCD.regular hCD.lower hCD.reaches (.cons hB (.cons hC .nil)) hJ hJ'

theorem Persists.letIn {b : Binding} {e : Expr} {s : Span} {t : Option Ty}
    (ihi : ∀ i ∈ b.init, Γ.Persists C D i) (ih : Γ.Persists C D e) :
    Γ.Persists C D (.letIn b e s t) := by
  intro env henv T h
  cases h with
  | letIn hU hn he =>
    obtain ⟨T', he', hT⟩ := ih _ (henv.bind (hCD.regular.resolve_declares hU)) _ he
    exact ⟨T', .letIn hU hn he', hT⟩
  | letInit hU hi hconf hn he =>
    obtain ⟨I', hi', hI⟩ := ihi _ rfl env henv _ hi
    obtain ⟨T', he', hT⟩ := ih _ (henv.bind (hCD.regular.resolve_declares hU)) _ he
    exact ⟨T', .letInit hU hi' (hI.conforms hCD.reaches hconf) hn he', hT⟩

theorem HasArms.declares {arms : List Arm} {Ks : List Symbol} {Ts : List Ty}
    (henv : env.Declared Γ.hierarchy) (h : HasArms Γ D env arms Ks Ts) :
    ∀ T ∈ Ts, Γ.hierarchy.Declares T := by
  have hiff : HasArms Γ D env arms Ks Ts ↔ Γ.armReports D env arms = [] ∧
      Γ.armClasses arms = Ks ∧ Γ.armTys D env arms = Ts :=
    hasArms_iff hCD.regular henv fun arm _ => decides hCD.regular hCD.lower arm.body
  obtain ⟨_, _, rfl⟩ := hiff.mp h
  exact hCD.regular.armTys_declares henv fun arm _ env henv =>
    hCD.regular.infer_declares hCD.lower henv arm.body

theorem Persists.caseOf {e : Expr} {arms : List Arm} {s : Span} {t : Option Ty}
    (ih : Γ.Persists C D e) (iharms : ∀ arm ∈ arms, Γ.Persists C D arm.body) :
    Γ.Persists C D (.caseOf e arms s t) := by
  intro env henv T h
  cases h with
  | caseNone he =>
    obtain ⟨S', he', _⟩ := ih env henv _ he
    exact ⟨_, .caseNone he', .refl Γ _⟩
  | caseOf he harms hnodup hJ hne =>
    obtain ⟨S', he', _⟩ := ih env henv _ he
    obtain ⟨Ts', harms', hTs⟩ := hasArms_persist hCD.regular henv iharms harms
    have hne' : Ts' ≠ [] := by
      rintro rfl
      cases harms'
      exact hne rfl
    obtain ⟨J', _, _, hJ'⟩ := hCD.regular.rooted.isJoin_joinAll? (fun T hT =>
      (HasArms.declares hCD henv harms' T hT).contains_within hCD.lower.contains) hne'
    refine ⟨_, .caseOf he' harms' hnodup hJ' hne, ?_⟩
    exact refines_join hCD.regular hCD.lower hCD.reaches hTs hJ hJ'

theorem Persists.binary {op : BinaryOp} {a b : Expr} {s : Span} {t : Option Ty}
    (iha : Γ.Persists C D a) (ihb : Γ.Persists C D b) : Γ.Persists C D (.binary op a b s t) := by
  intro env henv T h
  cases h with
  | arithmetic hop ha hA hb hB =>
    obtain ⟨A', ha', hA'⟩ := iha env henv _ ha
    obtain ⟨B', hb', hB'⟩ := ihb env henv _ hb
    exact ⟨_, .arithmetic hop ha' (hA'.conforms hCD.reaches hA) hb'
      (hB'.conforms hCD.reaches hB), .refl Γ _⟩
  | order hop ha hA hb hB =>
    obtain ⟨A', ha', hA'⟩ := iha env henv _ ha
    obtain ⟨B', hb', hB'⟩ := ihb env henv _ hb
    exact ⟨_, .order hop ha' (hA'.conforms hCD.reaches hA) hb'
      (hB'.conforms hCD.reaches hB), .refl Γ _⟩
  | equals ha hb heq =>
    obtain ⟨A', ha', hA'⟩ := iha env henv _ ha
    obtain ⟨B', hb', hB'⟩ := ihb env henv _ hb
    exact ⟨_, .equals ha' hb' (hA'.comparable hCD.regular hB' heq), .refl Γ _⟩

theorem Persists.unary {op : UnaryOp} {a : Expr} {s : Span} {t : Option Ty}
    (ih : Γ.Persists C D a) : Γ.Persists C D (.unary op a s t) := by
  intro env henv T h
  cases h with
  | isVoid ha =>
    obtain ⟨A', ha', _⟩ := ih env henv _ ha
    exact ⟨_, .isVoid ha', .refl Γ _⟩
  | complement ha hA =>
    obtain ⟨A', ha', hA'⟩ := ih env henv _ ha
    exact ⟨_, .complement ha' (hA'.conforms hCD.reaches hA), .refl Γ _⟩
  | not ha hA =>
    obtain ⟨A', ha', hA'⟩ := ih env henv _ ha
    exact ⟨_, .not ha' (hA'.conforms hCD.reaches hA), .refl Γ _⟩

/-- The self type stands for a descendant in its code, and that is not a primitive class. -/
theorem refines_within (hU : Γ.hierarchy.Declares U) :
    Γ.Refines (.named (U.within C)) (.named (U.within D)) := by
  cases U with
  | named c => exact .refl Γ _
  | selfType =>
    refine ⟨.named hCD.reaches, ?_⟩
    rintro ⟨c, hc, hprim⟩
    cases hc
    exact absurd hprim hCD.lower.notPrimitive

/-- An expression that has a type in the code of a class has one that refines it in the code of each
descendant. -/
theorem persists (e : Expr) : Γ.Persists C D e := by
  induction e using Expr.induction with
  | assign n e s t ih =>
    intro env henv T h
    cases h with
    | assign hn hU he hconf =>
      obtain ⟨T', he', hT⟩ := ih env henv _ he
      exact ⟨T', .assign hn (lookup_of_reaches hCD.coherent hCD.reaches hU) he'
        (hT.conforms hCD.reaches hconf), hT⟩
  | call r m args s t ihr ihargs => exact .call hCD ihr ihargs
  | cond a b c s t iha ihb ihc => exact .cond hCD iha ihb ihc
  | loop a b s t iha ihb =>
    intro env henv T h
    cases h with
    | loop ha hconf hb =>
      obtain ⟨A', ha', hA⟩ := iha env henv _ ha
      obtain ⟨B', hb', _⟩ := ihb env henv _ hb
      exact ⟨_, .loop ha' (hA.conforms hCD.reaches hconf) hb', .refl Γ _⟩
  | block es s t ih =>
    intro env henv T h
    cases h with
    | block hes =>
      obtain ⟨Ts', hes', hTs⟩ := hasTypes_persist henv ih hes
      exact ⟨_, .block hes', .getLast hTs⟩
  | letIn b e s t ihi ih => exact .letIn hCD ihi ih
  | caseOf e arms s t ih iharms => exact .caseOf hCD ih iharms
  | new n s t =>
    intro env henv T h
    cases h with
    | new hU => exact ⟨_, .new hU, refines_within hCD (hCD.regular.resolve_declares hU)⟩
  | binary op a b s t iha ihb => exact .binary hCD iha ihb
  | unary op a s t ih => exact .unary hCD ih
  | ident n t =>
    intro env henv T h
    cases h with
    | self hn => exact ⟨_, .self hn, .refl Γ _⟩
    | ident hn hT =>
      exact ⟨_, .ident hn (lookup_of_reaches hCD.coherent hCD.reaches hT), .refl Γ _⟩
  | int v s t | string v s t | bool v s t | absent s t =>
    intro env henv T h
    cases h
    exact ⟨_, by constructor, .refl Γ _⟩

end

end Setting

end CoolTypes
