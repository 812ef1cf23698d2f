import CoolTypes.Proofs.Renaming.Correspondence
import CoolTypes.Symbol.Map

/-!
# Collections of corresponding members

What an operation on lists, optional values or maps makes of related members is related. Operations that
compare symbols need a relation of symbols that is one to one, and nothing else of it.
-/

namespace CoolTypes

section Relations

variable {α β γ δ : Type} {S : α → β → Prop} {T : γ → δ → Prop}

/-! ## Optional values -/

theorem rel_none_or_some {x : Option α} {y : Option β} (h : Option.Rel S x y) :
    (x = none ∧ y = none) ∨ ∃ a b, x = some a ∧ y = some b ∧ S a b := by
  cases h with
  | none => exact .inl ⟨rfl, rfl⟩
  | some h => exact .inr ⟨_, _, rfl, rfl, h⟩

theorem rel_map {x : Option α} {y : Option β} (h : Option.Rel S x y) {f : α → γ} {g : β → δ}
    (hfg : ∀ a b, S a b → T (f a) (g b)) : Option.Rel T (x.map f) (y.map g) := by
  cases h with
  | none => exact .none
  | some h => exact .some (hfg _ _ h)

theorem rel_bind {x : Option α} {y : Option β} (h : Option.Rel S x y) {f : α → Option γ}
    {g : β → Option δ} (hfg : ∀ a b, S a b → Option.Rel T (f a) (g b)) :
    Option.Rel T (x.bind f) (y.bind g) := by
  cases h with
  | none => exact .none
  | some h => exact hfg _ _ h

theorem rel_or {x x' : Option α} {y y' : Option β} (h : Option.Rel S x y)
    (h' : Option.Rel S x' y') : Option.Rel S (x.or x') (y.or y') := by
  cases h with
  | none => exact h'
  | some h => exact .some h

theorem rel_getD {x : Option α} {y : Option β} (h : Option.Rel S x y) {a : α} {b : β}
    (hab : S a b) : S (x.getD a) (y.getD b) := by
  cases h with
  | none => exact hab
  | some h => exact h

theorem isSome_eq_of_rel {x : Option α} {y : Option β} (h : Option.Rel S x y) :
    x.isSome = y.isSome := by
  cases h <;> rfl

theorem rel_ite {p q : Prop} [Decidable p] [Decidable q] (hpq : p ↔ q) {a a' : α} {b b' : β}
    (h : S a b) (h' : S a' b') : S (if p then a else a') (if q then b else b') := by
  by_cases hp : p
  · rwa [if_pos hp, if_pos (hpq.mp hp)]
  · rwa [if_neg hp, if_neg fun hq => hp (hpq.mpr hq)]

/-! ## Lists -/

theorem forall₂_of_left {l : List α} {l' : List β} {S' : α → β → Prop} (h : List.Forall₂ S l l')
    (himp : ∀ a ∈ l, ∀ b, S a b → S' a b) : List.Forall₂ S' l l' :=
  ((List.forall₂_and_left l l').mpr ⟨himp, h⟩).imp fun _ _ h => h.1 _ h.2

theorem isEmpty_eq_of_forall₂ {l : List α} {l' : List β} (h : List.Forall₂ S l l') :
    l.isEmpty = l'.isEmpty := by
  cases h <;> rfl

theorem forall₂_toList {x : Option α} {y : Option β} (h : Option.Rel S x y) :
    List.Forall₂ S x.toList y.toList := by
  cases h with
  | none => exact .nil
  | some h => exact .cons h .nil

theorem rel_getLast? {l : List α} {l' : List β} (h : List.Forall₂ S l l') :
    Option.Rel S l.getLast? l'.getLast? := by
  induction h with
  | nil => exact .none
  | cons hab htail ih =>
    cases htail with
    | nil => exact .some hab
    | cons hab' htail => simpa only [List.getLast?_cons_cons] using ih

theorem forall₂_zip {l : List α} {l' : List β} {k : List γ} {k' : List δ}
    (h : List.Forall₂ S l l') (hk : List.Forall₂ T k k') :
    List.Forall₂ (fun p q => S p.1 q.1 ∧ T p.2 q.2) (l.zip k) (l'.zip k') := by
  induction h generalizing k k' with
  | nil => exact .nil
  | cons hab _ ih =>
    cases hk with
    | nil => exact .nil
    | cons hcd hk => exact .cons ⟨hab, hcd⟩ (ih hk)

theorem findIdx?_eq_of_forall₂ {l : List α} {l' : List β} (h : List.Forall₂ S l l')
    {p : α → Bool} {q : β → Bool} (hpq : ∀ a b, S a b → p a = q b) :
    l.findIdx? p = l'.findIdx? q := by
  induction h with
  | nil => rfl
  | cons hab _ ih => rw [List.findIdx?_cons, List.findIdx?_cons, hpq _ _ hab, ih]

end Relations

/-! ## Symbols -/

section Symbols

variable {S : Symbol → Symbol → Prop} (hS : Relator.BiUnique S) {a a' b b' : Symbol}

include hS

theorem beq_eq_of_biUnique (h : S a a') (h' : S b b') : (a == b) = (a' == b') := by
  rw [Bool.eq_iff_iff, beq_iff_eq, beq_iff_eq]
  exact Relator.rel_eq hS h h'

theorem contains_eq_of_biUnique {l l' : List Symbol} (hl : List.Forall₂ S l l') (h : S a a') :
    l.contains a = l'.contains a' := by
  rw [Bool.eq_iff_iff, List.contains_iff_mem, List.contains_iff_mem]
  exact List.rel_mem hS h hl

end Symbols

/-! ## Maps -/

/-- Two maps with related keys and values in the same order. -/
def SymbolMap.Related {α β : Type} (R : SymbolRel) (S : α → β → Prop) (m : SymbolMap α)
    (m' : SymbolMap β) : Prop :=
  List.Forall₂ (fun e e' => R.id e.1 e'.1 ∧ S e.2 e'.2) m.entries m'.entries

section Maps

variable {α β : Type} {R : SymbolRel} {S : α → β → Prop} (hR : Relator.BiUnique R.id)
  {k k' : Symbol}

theorem SymbolMap.related_empty : (empty : SymbolMap α).Related R S empty := .nil

include hR

theorem forall₂_setEntry {es : List (Symbol × α)} {es' : List (Symbol × β)}
    (h : List.Forall₂ (fun e e' => R.id e.1 e'.1 ∧ S e.2 e'.2) es es') (hk : R.id k k') {a : α}
    {b : β} (hab : S a b) :
    List.Forall₂ (fun e e' => R.id e.1 e'.1 ∧ S e.2 e'.2) (setEntry k a es) (setEntry k' b es') := by
  induction h with
  | nil => exact .cons ⟨hk, hab⟩ .nil
  | cons he htail ih =>
    exact rel_ite (Relator.rel_eq hR he.1 hk) (.cons ⟨hk, hab⟩ htail) (.cons he ih)

theorem rel_lookup {es : List (Symbol × α)} {es' : List (Symbol × β)}
    (h : List.Forall₂ (fun e e' => R.id e.1 e'.1 ∧ S e.2 e'.2) es es') (hk : R.id k k') :
    Option.Rel S (es.lookup k) (es'.lookup k') := by
  induction h with
  | nil => exact .none
  | @cons e e' _ _ he _ ih =>
    obtain ⟨key, a⟩ := e
    obtain ⟨key', b⟩ := e'
    rw [List.lookup_cons, List.lookup_cons, beq_eq_of_biUnique hR hk he.1]
    cases k' == key' with
    | true => exact .some he.2
    | false => exact ih

namespace SymbolMap.Related

variable {m : SymbolMap α} {m' : SymbolMap β} (h : m.Related R S m')

include h

theorem insert (hk : R.id k k') {a : α} {b : β} (hab : S a b) :
    (m.insert k a).Related R S (m'.insert k' b) :=
  forall₂_setEntry hR h hk hab

theorem get? (hk : R.id k k') : Option.Rel S (m.get? k) (m'.get? k') := rel_lookup hR h hk

theorem contains (hk : R.id k k') : m.contains k = m'.contains k' :=
  isSome_eq_of_rel (h.get? hR hk)

omit hR

theorem keys : List.Forall₂ R.id m.keys m'.keys :=
  List.rel_map (fun _ _ he => he.1) h

theorem size : m.size = m'.size := List.Forall₂.length_eq h

end SymbolMap.Related

theorem SymbolMap.related_ofList {es : List (Symbol × α)} {es' : List (Symbol × β)}
    (h : List.Forall₂ (fun e e' => R.id e.1 e'.1 ∧ S e.2 e'.2) es es') :
    (ofList es).Related R S (ofList es') :=
  List.rel_foldl (P := SymbolMap.Related R S) (fun _ _ hm _ _ he => hm.insert hR he.1 he.2)
    related_empty h

end Maps

end CoolTypes
