import CoolTypes.Proofs.Typing.Declarations
import CoolTypes.Proofs.Typing.Units

/-!
# Scopes around the check

A part of the check closes every scope that it opens, and it reads the scopes around it through the look-up
of names only. Both are read off `Check.Gives`: a part that gives a value under the look-up of a state gives
it in every state with the same look-up, and puts each of them back as it was.
-/

namespace CoolTypes

namespace CheckState

/-- The state with further reports. -/
def adding (s : CheckState) (rs : List Report) : CheckState := { s with reports := s.reports ++ rs }

/-- The second state has the same class and reports, and each name has the same type in it; how many
scopes are open and which of them binds a name may differ. -/
structure Resembles (s s' : CheckState) : Prop where
  current : s'.current = s.current
  reports : s'.reports = s.reports
  resolve : ∀ n, s'.scopes.resolve? n = s.scopes.resolve? n

end CheckState

namespace Check.Gives

variable {α : Type} {x : Check α} {a : α} {rs : List Report}

theorem run_self {s : CheckState} (h : Gives s.current s.scopes.resolve? x a rs) :
    StateT.run x s = .ok (a, s.adding rs) := h s rfl rfl

theorem run_of_resembles {s s' : CheckState} (h : Gives s.current s.scopes.resolve? x a rs)
    (hs : s.Resembles s') : StateT.run x s' = .ok (a, s'.adding rs) :=
  h s' hs.current (funext hs.resolve)

end Check.Gives

open Setting in
/-- From every state the check of an expression, a feature or a class ends without a fault, with the
scopes as they were and with nothing but reports added; only a class with signatures becomes the current
one. For an expression every state with the same class that resolves names alike gives the same reports
and the same static types on it and all its parts. -/
theorem scopes_never_leak (Γ : Setting) (s : CheckState) :
    (∀ e, ∃ e' rs, StateT.run (Γ.expr e) s = .ok (e', s.adding rs)) ∧
    (∀ f, ∃ f' rs, StateT.run (Γ.feature f) s = .ok (f', s.adding rs)) ∧
    (∀ c, ∃ c' rs, StateT.run (Γ.class c) s = .ok (c', { s.adding rs with
      current := if Γ.signatures.contains c.name.symbol then c.name.symbol else s.current })) ∧
    ∀ s', s.Resembles s' → ∀ e, ∃ e' T rs, e'.ty = some T ∧
      StateT.run (Γ.expr e) s = .ok (e', s.adding rs) ∧
      StateT.run (Γ.expr e) s' = .ok (e', s'.adding rs) := by
  refine ⟨fun e => ?_, fun f => ?_, fun c => ?_, fun s' hs e => ?_⟩
  · exact ⟨_, _, (expr_gives Γ s.current s.scopes.resolve? e).run_self⟩
  · exact ⟨_, _, (feature_gives f).run_self⟩
  · exact ⟨_, _, run_class c s⟩
  · have hgives := expr_gives Γ s.current s.scopes.resolve? e
    exact ⟨_, _, _, annotate_ty Γ _ _ e, hgives.run_self, hgives.run_of_resembles hs⟩

/-- Two scopes, of which the inner one hides the binding of the outer one. -/
def nestedState : CheckState where
  scopes := ((Scopes.bind {} (SymbolTables.known .initial .arg) .selfType).push).bind
    (SymbolTables.known .initial .arg) (.named (SymbolTables.known .initial .int))
  current := SymbolTables.known .initial .main

/-- One scope with the binding that is not hidden. -/
def flatState : CheckState where
  scopes := Scopes.bind {} (SymbolTables.known .initial .arg) (.named (SymbolTables.known .initial .int))
  current := SymbolTables.known .initial .main

theorem nestedState_resembles : nestedState.Resembles flatState where
  current := rfl
  reports := rfl
  resolve n := by
    rw [nestedState, flatState, Scopes.resolve?_bind, Scopes.resolve?_bind, Scopes.resolve?_push,
      Scopes.resolve?_bind]
    by_cases hn : n = SymbolTables.known .initial .arg
    · rw [if_pos hn, if_pos hn]
    · rw [if_neg hn, if_neg hn, if_neg hn]

/-- The hidden binding is back after a scope, and the sum with an unknown name, which is reported, gets the
same type in both states. -/
theorem scopes_never_leak_shadowing :
    let name := BasicClass.name .initial
    let sum : Expr := .binary .add (.ident (name .arg2) none) (.ident (name .val) none) .synthetic none
    let e : Expr := .letIn ⟨name .arg2, name .int, some (.ident (name .arg) none), .synthetic⟩ sum
      .synthetic none
    nestedState.Resembles flatState ∧ nestedState.scopes.depth ≠ flatState.scopes.depth ∧
      ∃ e' rs, e'.ty = some (.named (SymbolTables.known .initial .int)) ∧ rs.length = 2 ∧
        StateT.run (mainUnit.setting.expr e) nestedState = .ok (e', nestedState.adding rs) ∧
        StateT.run (mainUnit.setting.expr e) flatState = .ok (e', flatState.adding rs) := by
  intro name sum e
  obtain ⟨_, _, _, hboth⟩ := scopes_never_leak mainUnit.setting nestedState
  obtain ⟨e', _, rs, _, hnested, hflat⟩ := hboth flatState nestedState_resembles e
  have hresult : (StateT.run (mainUnit.setting.expr e) nestedState).map
      (fun p => (p.1.ty, p.2.reports.length)) =
        .ok (some (.named (SymbolTables.known .initial .int)), 2) := by decide +kernel
  rw [hnested] at hresult
  injection hresult with hresult
  injection hresult with hty hlength
  exact ⟨nestedState_resembles, by decide, e', rs, hty, hlength, hnested, hflat⟩

end CoolTypes
