import CoolTypes.Fault

/-!
# Computations without fault

A computation that gives a result keeps doing so when it is sequenced with others that do.
-/

namespace CoolTypes

/-- The computation gives a result. -/
def Faultless {α : Type} (x : Except Fault α) : Prop := ∃ a, x = .ok a

namespace Faultless

variable {α β : Type}

theorem ok (a : α) : Faultless (.ok a) := ⟨a, rfl⟩

theorem pure (a : α) : Faultless (Pure.pure a : Except Fault α) := ⟨a, rfl⟩

theorem bind {x : Except Fault α} {f : α → Except Fault β} (hx : Faultless x)
    (hf : ∀ a, x = .ok a → Faultless (f a)) : Faultless (x >>= f) := by
  obtain ⟨a, ha⟩ := hx
  obtain ⟨b, hb⟩ := hf a ha
  exact ⟨b, by rw [ha]; exact hb⟩

/-- The results of a list of computations. -/
theorem mapM {f : α → Except Fault β} {l : List α} (h : ∀ x ∈ l, Faultless (f x)) :
    Faultless (l.mapM f) := by
  induction l with
  | nil => exact pure []
  | cons x rest ih =>
    rw [List.mapM_cons]
    refine (h x List.mem_cons_self).bind fun y _ => ?_
    refine (ih fun z hz => h z (List.mem_cons_of_mem _ hz)).bind fun ys _ => ?_
    exact pure (y :: ys)

end Faultless

/-- Sequenced computations give a result only if the first one does. -/
theorem bind_eq_ok {ε α β : Type} {x : Except ε α} {f : α → Except ε β} {b : β} :
    x >>= f = .ok b ↔ ∃ a, x = .ok a ∧ f a = .ok b := by
  cases x with
  | error e =>
    constructor
    · intro h
      cases h
    · rintro ⟨a, ha, _⟩
      cases ha
  | ok a =>
    constructor
    · intro h
      exact ⟨a, rfl, h⟩
    · rintro ⟨a', ha, h⟩
      cases ha
      exact h

/-- There is one result for each member of a list. -/
theorem length_of_mapM_eq_ok {α β : Type} {f : α → Except Fault β} {l : List α} {ys : List β}
    (h : l.mapM f = .ok ys) : ys.length = l.length := by
  induction l generalizing ys with
  | nil =>
    cases h
    rfl
  | cons x rest ih =>
    rw [List.mapM_cons] at h
    obtain ⟨y, _, h⟩ := bind_eq_ok.mp h
    obtain ⟨zs, hzs, h⟩ := bind_eq_ok.mp h
    cases h
    rw [List.length_cons, List.length_cons, ih hzs]

/-- Lists that are empty member by member are empty as a whole. -/
theorem flatten_eq_nil_iff_of_mapM {α β γ : Type} {f : α → Except Fault (List β)} {k : α → List γ}
    (hf : ∀ x ys, f x = .ok ys → (ys = [] ↔ k x = [])) {l : List α} {yss : List (List β)}
    (h : l.mapM f = .ok yss) : yss.flatten = [] ↔ l.flatMap k = [] := by
  induction l generalizing yss with
  | nil =>
    cases h
    simp
  | cons x rest ih =>
    rw [List.mapM_cons] at h
    obtain ⟨ys, hys, h⟩ := bind_eq_ok.mp h
    obtain ⟨zss, hzss, h⟩ := bind_eq_ok.mp h
    cases h
    rw [List.flatten_cons, List.flatMap_cons, List.append_eq_nil_iff, List.append_eq_nil_iff,
      hf x ys hys, ih hzss]

end CoolTypes
