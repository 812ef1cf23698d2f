import CoolTypes.Proofs.Typing.Inheritance
import CoolTypes.Proofs.Typing.Scoping
import CoolTypes.Proofs.Typing.States

/-!
# The forms of dispatch

A call is made on nothing, on an object, or on an object seen as one of a named class. The check finds a type
for the receiver and a class to look the method up in, and forgets the form after that: a call on nothing is
checked like a call on `self`, and it changes nothing to name the class of the object, or an ancestor of it
that has the method too (`dispatch_forms_agree`).
-/

namespace CoolTypes

/-- From the state `s` the check of a call on the receiver `r` leaves `r'` and `args'`, writes the type `T` on
the call, whatever stood there, and adds the reports `rs`. -/
def Setting.ChecksCall (Γ : Setting) (s : CheckState) (m : Name) (args : List Expr) (span : Span)
    (r r' : Receiver) (args' : List Expr) (T : Ty) (rs : List Report) : Prop :=
  ∀ old, StateT.run (Γ.expr (.call r m args span old)) s =
    .ok (.call r' m args' span (some T), s.adding rs)

namespace Setting

/-- Calls on the two receivers have the same type, and the same is reported of them in the same order. -/
structure CallsAlike (Γ : Setting) (C : Symbol) (env : Env) (m : Name) (args : List Expr) (span : Span)
    (r r' : Receiver) : Prop where
  ty : Γ.infer C env (.call r' m args span none) = Γ.infer C env (.call r m args span none)
  reports : Γ.reports C env (.call r' m args span none) = Γ.reports C env (.call r m args span none)

variable {Γ : Setting} {m : Name} {args : List Expr} {span : Span}

theorem checksCall (s : CheckState) (r : Receiver) :
    Γ.ChecksCall s m args span r (Γ.annotateReceiver s.current s.scopes.resolve? r)
      (Γ.annotateAll s.current s.scopes.resolve? args)
      (Γ.infer s.current s.scopes.resolve? (.call r m args span none))
      (Γ.reports s.current s.scopes.resolve? (.call r m args span none)) := by
  intro old
  exact (expr_gives Γ s.current s.scopes.resolve? (.call r m args span old)).run_self

theorem CallsAlike.checksCall {s : CheckState} {r r' : Receiver}
    (h : Γ.CallsAlike s.current s.scopes.resolve? m args span r r') :
    Γ.ChecksCall s m args span r' (Γ.annotateReceiver s.current s.scopes.resolve? r')
      (Γ.annotateAll s.current s.scopes.resolve? args)
      (Γ.infer s.current s.scopes.resolve? (.call r m args span none))
      (Γ.reports s.current s.scopes.resolve? (.call r m args span none)) := by
  rw [← h.ty, ← h.reports]
  exact Setting.checksCall s r'

variable {C : Symbol} {env : Env}

/-! ## Signatures that agree -/

section

variable {c d : Symbol} {sig sig' : MethodSig} (hc : Γ.signatures.method? c m.symbol = some sig)
  (hd : Γ.signatures.method? d m.symbol = some sig') (hag : sig.Agrees sig')

include hc hd hag

theorem resultTy_of_agrees (T : Ty) : Γ.resultTy T (some c) m = Γ.resultTy T (some d) m := by
  rw [resultTy_of_method hc, resultTy_of_method hd, hag.ret]

theorem callReports_of_agrees :
    Γ.callReports C env (some c) m args span = Γ.callReports C env (some d) m args span := by
  simp only [callReports, hc, hd, hag.params]

end

/-! ## Receivers -/

/-- Nothing written means `self`, whose type is the self type whatever its name is bound to. -/
theorem callsAlike_self {n : Name} {old : Option Ty} (hn : n.symbol = Γ.tables.known .self) :
    Γ.CallsAlike C env m args span .implicit (.dynamic (.ident n old)) := by
  have hty : Γ.identTy C env n = .selfType := if_pos hn
  have hsilent : Γ.identReports C env n = [] := if_pos hn
  constructor
  · simp only [infer, receiverTy, hty, target?]
  · simp only [reports, receiverReports, receiverTy, infer, hty, hsilent, targetReports, target?]

/-- An object can be seen as one of a class that it conforms to, if the look-up of the method from there
ends with a signature that agrees. -/
theorem callsAlike_static {o : Expr} {n : Name} {A : Symbol} (ho : Γ.infer C env o = .named A)
    (hn : Γ.signatures.resolve? n.symbol = some (.named n.symbol))
    (hsub : Γ.hierarchy.isSubclass A n.symbol = true)
    (hfound : n.symbol = A ∨ ∃ sig sig', Γ.signatures.method? n.symbol m.symbol = some sig ∧
      Γ.signatures.method? A m.symbol = some sig' ∧ sig.Agrees sig') :
    Γ.CallsAlike C env m args span (.dynamic o) (.static o n) := by
  have hconf : Γ.targetReports C env (.static o n) = [] := by
    simp only [targetReports, hn, expectReports, conformReports, ho]
    exact if_pos hsub
  have htarget : Γ.target? C (.named A) (.static o n) = some n.symbol := classOf_of_resolve hn
  have hboth : Γ.resultTy (.named A) (some n.symbol) m = Γ.resultTy (.named A) (some A) m ∧
      Γ.callReports C env (some n.symbol) m args span = Γ.callReports C env (some A) m args span := by
    rcases hfound with heq | ⟨sig, sig', hsig, hsig', hag⟩
    · rw [heq]
      exact ⟨rfl, rfl⟩
    · exact ⟨resultTy_of_agrees hsig hsig' hag _, callReports_of_agrees hsig hsig' hag⟩
  constructor
  · simp only [infer, receiverTy, ho, htarget, hboth.1]
    rfl
  · simp only [reports, receiverReports, receiverTy, ho, htarget, hconf, hboth.2]
    rfl

end Setting

/-! ## Valid hierarchies -/

namespace WellFormedHierarchy

variable {t : SymbolTables} {classes : List Class} (hw : WellFormedHierarchy t classes)

include hw

/-- The name of a declared class stands for it; no class is called like the self type. -/
theorem resolve?_eq {c : Symbol} (hc : (settingOf t classes).hierarchy.contains c = true) :
    (settingOf t classes).signatures.resolve? c = some (.named c) := by
  have hself : (settingOf t classes).signatures.selfType = t.known .selfType :=
    (Signatures.collects_collect hw).selfType
  have hcontains : (settingOf t classes).signatures.contains c = true :=
    (Signatures.contains_collect hw).mpr hc
  have hne : c ≠ t.known .selfType := by
    obtain ⟨d, hd, rfl⟩ := List.mem_map.mp (hw.contains_iff.mp hc)
    exact hw.notSelfType d hd
  unfold Signatures.resolve?
  rw [hself, if_neg hne, if_pos hcontains]

variable {C A : Symbol} {env : Env} {m : Name} {args : List Expr} {span : Span} {o : Expr} {n : Name}
  (ho : (settingOf t classes).infer C env o = .named A)
  (hA : (settingOf t classes).hierarchy.contains A = true)

include ho hA

/-- It changes nothing to name the class of an object. -/
theorem callsAlike_own (hn : n.symbol = A) :
    (settingOf t classes).CallsAlike C env m args span (.dynamic o) (.static o n) := by
  have hchain := (hw.rooted_hierarchy.chainFrom_ancestors hA).1
  have hsub : (settingOf t classes).hierarchy.isSubclass A n.symbol = true := by
    rw [hn]
    exact List.contains_iff_mem.mpr hchain.self_mem
  exact Setting.callsAlike_static ho (hw.resolve?_eq (hn ▸ hA)) hsub (.inl hn)

/-- If nothing is reported about signatures, the ancestors that have a method have it with the signature that
the class of the object has. -/
theorem callsAlike_ancestor
    (hsilent : (Signatures.collect t (settingOf t classes).hierarchy classes).2 = [])
    (hn : n.symbol ∈ (settingOf t classes).hierarchy.ancestors A)
    (hsome : ((settingOf t classes).signatures.method? n.symbol m.symbol).isSome = true) :
    (settingOf t classes).CallsAlike C env m args span (.dynamic o) (.static o n) := by
  have hchain := (hw.rooted_hierarchy.chainFrom_ancestors hA).1
  have hreach : (settingOf t classes).hierarchy.graph.Reaches A n.symbol := hchain.mem_iff.mp hn
  have hcontains := hw.rooted_hierarchy.contains_of_reaches hA hreach
  obtain ⟨sig, hsig⟩ := Option.isSome_iff_exists.mp hsome
  obtain ⟨sig', hsig', hag⟩ := Signatures.method_of_reaches hw hsilent hreach hsig
  exact Setting.callsAlike_static ho (hw.resolve?_eq hcontains) (List.contains_iff_mem.mpr hn)
    (.inr ⟨sig, sig', hsig, hsig', hag⟩)

end WellFormedHierarchy

open Setting in
/-- Over a valid hierarchy, from any state, a call on nothing and one on `self` are checked alike. So are a
call on an object whose type is a declared class and the call on it as an object of that class; and if nothing
is reported about signatures, also as an object of any ancestor that has the method. The type on the call, the
types on the arguments and the reports, with their order, are the same. -/
theorem dispatch_forms_agree (t : SymbolTables) (classes : List Class)
    (hvalid : (checkInheritance t classes).isValid = true) (s : CheckState) (m : Name)
    (args : List Expr) (span : Span) :
    let Γ := settingOf t classes
    (∃ args' T rs, Γ.ChecksCall s m args span .implicit .implicit args' T rs ∧
      ∀ n old, n.symbol = t.known .self →
        Γ.ChecksCall s m args span (.dynamic (.ident n old)) (.dynamic (.ident n (some .selfType)))
          args' T rs) ∧
    ∀ o o' s' A, StateT.run (Γ.expr o) s = .ok (o', s') → o'.ty = some (.named A) →
      Γ.signatures.contains A = true →
      ∃ args' T rs, Γ.ChecksCall s m args span (.dynamic o) (.dynamic o') args' T rs ∧
        (∀ n, n.symbol = A → Γ.ChecksCall s m args span (.static o n) (.static o' n) args' T rs) ∧
        ((Signatures.collect t Γ.hierarchy classes).2 = [] →
          ∀ n, n.symbol ∈ Γ.hierarchy.ancestors A →
            (Γ.signatures.method? n.symbol m.symbol).isSome = true →
            Γ.ChecksCall s m args span (.static o n) (.static o' n) args' T rs) := by
  intro Γ
  have hw := isValid_iff_wellFormed.mp hvalid
  refine ⟨⟨_, _, _, checksCall s .implicit, fun n old hn => ?_⟩, fun o o' s' A ho hty hA => ?_⟩
  · have hself : Γ.annotateReceiver s.current s.scopes.resolve? (.dynamic (.ident n old)) =
        .dynamic (.ident n (some .selfType)) := by
      have hty : Γ.identTy s.current s.scopes.resolve? n = .selfType := if_pos hn
      simp only [annotateReceiver, annotate, infer, hty]
    have halike : Γ.CallsAlike s.current s.scopes.resolve? m args span .implicit
        (.dynamic (.ident n old)) := callsAlike_self hn
    have hcall := halike.checksCall
    rwa [hself] at hcall
  · -- the check of the object alone leaves what the check of the call leaves of it
    obtain rfl := eq_annotate_of_run ho
    rw [annotate_ty] at hty
    have hinfer := Option.some.inj hty
    have hcontains : Γ.hierarchy.contains A = true := (Signatures.contains_collect hw).mp hA
    exact ⟨_, _, _, checksCall s (.dynamic o),
      fun n hn => (hw.callsAlike_own hinfer hcontains hn).checksCall,
      fun hsilent n hn hsome => (hw.callsAlike_ancestor hinfer hcontains hsilent hn hsome).checksCall⟩

/-- What the check of a call comes to can be read off its run. -/
theorem Setting.ChecksCall.outcome {Γ : Setting} {s : CheckState} {m : Name} {args args' : List Expr}
    {span : Span} {r r' : Receiver} {T : Ty} {rs : List Report}
    (h : Γ.ChecksCall s m args span r r' args' T rs) (T' : Ty) (k : Nat)
    (hrun : (StateT.run (Γ.expr (.call r m args span none)) s).map
      (fun p => (p.1.ty, p.2.reports.length)) = .ok (some T', s.reports.length + k)) :
    T = T' ∧ rs.length = k := by
  rw [h none] at hrun
  injection hrun with hrun
  injection hrun with hT hlength
  have hadding : (s.reports ++ rs).length = s.reports.length + k := hlength
  rw [List.length_append] at hadding
  exact ⟨Option.some.inj hT, by omega⟩

/-- A call with an argument too many, whose name is unknown: the type of the call follows the object, also if
the method is looked up in the main class, which has it from the root. -/
theorem dispatch_forms_agree_heir :
    let t := heirUnit.installBasicClasses.tables
    let classes := heirUnit.installBasicClasses.program.classes
    let Γ := settingOf t classes
    let name := BasicClass.name t
    let s : CheckState := { current := t.known .main }
    let args : List Expr := [.ident (name .arg) none]
    let heir : Expr := .new (name .copy) .synthetic none
    (checkInheritance t classes).isValid = true ∧ Γ.signatures.contains (t.known .copy) = true ∧
      (Signatures.collect t Γ.hierarchy classes).2 = [] ∧
      t.known .main ∈ Γ.hierarchy.ancestors (t.known .copy) ∧
      (Γ.signatures.method? (t.known .main) (t.known .copy)).isSome = true ∧
      (∃ args' rs, rs.length = 2 ∧
        Γ.ChecksCall s (name .copy) args .synthetic .implicit .implicit args' .selfType rs ∧
        Γ.ChecksCall s (name .copy) args .synthetic (.dynamic (.ident (name .self) none))
          (.dynamic (.ident (name .self) (some .selfType))) args' .selfType rs) ∧
      ∃ o' s' args' rs, StateT.run (Γ.expr heir) s = .ok (o', s') ∧
        o'.ty = some (.named (t.known .copy)) ∧ rs.length = 2 ∧
        Γ.ChecksCall s (name .copy) args .synthetic (.dynamic heir) (.dynamic o') args'
          (.named (t.known .copy)) rs ∧
        Γ.ChecksCall s (name .copy) args .synthetic (.static heir (name .copy))
          (.static o' (name .copy)) args' (.named (t.known .copy)) rs ∧
        Γ.ChecksCall s (name .copy) args .synthetic (.static heir (name .main))
          (.static o' (name .main)) args' (.named (t.known .copy)) rs := by
  intro t classes Γ name s args heir
  have hvalid : (checkInheritance t classes).isValid = true := by decide +kernel
  have hA : Γ.signatures.contains (t.known .copy) = true := by decide +kernel
  have hsilent : (Signatures.collect t Γ.hierarchy classes).2 = [] := by decide +kernel
  have hmain : t.known .main ∈ Γ.hierarchy.ancestors (t.known .copy) := by decide +kernel
  have hmethod : (Γ.signatures.method? (t.known .main) (t.known .copy)).isSome = true := by
    decide +kernel
  obtain ⟨⟨args₁, T₁, rs₁, himplicit, hself⟩, hobject⟩ :=
    dispatch_forms_agree t classes hvalid s (name .copy) args .synthetic
  refine ⟨hvalid, hA, hsilent, hmain, hmethod, ?_, ?_⟩
  · obtain ⟨rfl, hlength⟩ := himplicit.outcome .selfType 2 (by decide +kernel)
    exact ⟨args₁, rs₁, hlength, himplicit, hself (name .self) none rfl⟩
  · have hrun := (Setting.expr_gives Γ s.current s.scopes.resolve? heir).run_self
    have hty : (Γ.annotate s.current s.scopes.resolve? heir).ty = some (.named (t.known .copy)) := by
      decide +kernel
    obtain ⟨args₂, T₂, rs₂, hdynamic, hstatic, hancestor⟩ := hobject heir _ _ _ hrun hty hA
    obtain ⟨rfl, hlength⟩ :=
      hdynamic.outcome (.named (t.known .copy)) 2 (by decide +kernel)
    exact ⟨_, _, args₂, rs₂, hrun, hty, hlength, hdynamic, hstatic (name .copy) rfl,
      hancestor hsilent (name .main) hmain hmethod⟩

end CoolTypes
