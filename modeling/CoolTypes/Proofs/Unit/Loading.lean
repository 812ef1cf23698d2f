import CoolTypes.Proofs.Faultless
import CoolTypes.Proofs.Unit.Bounds
import CoolTypes.Unit.Decode

/-!
# What is loaded

Symbols are read with 32 bits and positions with 64, so whatever is loaded is within bounds, by every codec and
from every text (`Codec.fits_of_load`).
-/

namespace CoolTypes

open Notation

/-- The case branch is within bounds. -/
structure Arm.Fits (a : Arm) : Prop where
  name : a.name.Fits
  typeName : a.typeName.Fits
  body : a.body.Fits
  span : a.span.Fits

namespace Decode

variable {D : Dialect} {v : Value} {fs : Fields} {key : String}

/-! ## Leaves -/

theorem lt_of_nat? {bound n : Nat} (h : nat? bound v = some n) : n < bound := by
  unfold nat? at h
  split at h
  · split at h
    · cases h
      assumption
    · cases h
  · cases h

theorem fits_of_symbol? {s : Symbol} (h : symbol? v = some s) : s.Fits := by
  obtain ⟨n, hn, rfl⟩ := Option.map_eq_some_iff.mp h
  exact lt_of_nat? hn

/-- A field that must be there is as its reader gives it. -/
theorem of_required {α : Type} {P : α → Prop} {read : Value → Option α}
    (hread : ∀ {w a}, read w = some a → P a) {a : α} (h : fs.required key read = some a) : P a := by
  obtain ⟨w, _, ha⟩ := Option.bind_eq_some_iff.mp h
  exact hread ha

/-- A field with a default is as its reader gives it, or it is the default. -/
theorem of_withDefault {α : Type} {P : α → Prop} {read : Value → Option α} {default : α}
    (hdefault : P default) (hread : ∀ {w a}, read w = some a → P a) {a : α}
    (h : fs.withDefault key default read = some a) : P a := by
  unfold Fields.withDefault at h
  split at h
  · exact hread h
  · cases h
    exact hdefault

theorem fits_of_position? {p : Position} (h : position? D v = some p) : p.Fits := by
  obtain ⟨⟨fs, _⟩, _, h⟩ := Option.bind_eq_some_iff.mp h
  obtain ⟨line, hline, h⟩ := Option.bind_eq_some_iff.mp h
  obtain ⟨col, hcol, h⟩ := Option.bind_eq_some_iff.mp h
  cases h
  exact ⟨of_required lt_of_nat? hline, of_required lt_of_nat? hcol⟩

theorem fits_of_span? {s : Span} (h : span? D v = some s) : s.Fits := by
  obtain ⟨⟨fs, _⟩, _, h⟩ := Option.bind_eq_some_iff.mp h
  obtain ⟨start, hstart, h⟩ := Option.bind_eq_some_iff.mp h
  obtain ⟨stop, hstop, h⟩ := Option.bind_eq_some_iff.mp h
  cases h
  exact ⟨of_required fits_of_position? hstart, of_required fits_of_position? hstop⟩

theorem fits_of_spanOf {s : Span} (h : spanOf D fs = some s) : s.Fits :=
  of_withDefault Span.fits_synthetic fits_of_span? h

theorem fits_of_name? {n : Name} (h : name? D v = some n) : n.Fits := by
  obtain ⟨⟨fs, _⟩, _, h⟩ := Option.bind_eq_some_iff.mp h
  obtain ⟨symbol, hsymbol, h⟩ := Option.bind_eq_some_iff.mp h
  obtain ⟨span, hspan, h⟩ := Option.bind_eq_some_iff.mp h
  cases h
  exact ⟨of_required fits_of_symbol? hsymbol, fits_of_spanOf hspan⟩

theorem fits_of_required_name {n : Name} (h : fs.required key (name? D) = some n) : n.Fits :=
  of_required fits_of_name? h

theorem fits_of_ty? {joined : Bool} {T : Ty} (h : ty? D joined v = some T) : T.Fits := by
  unfold ty? at h
  split at h
  · split at h
    · cases h
      exact trivial
    · cases h
  · obtain ⟨c, _, h⟩ := Option.bind_eq_some_iff.mp h
    obtain ⟨s, hs, rfl⟩ := Option.map_eq_some_iff.mp h
    exact fits_of_symbol? hs
  · cases h

theorem fits_of_tyOf {ty : Option Ty} (h : tyOf D fs = some ty) : ∀ T ∈ ty, T.Fits := by
  refine of_withDefault (P := fun ty : Option Ty => ∀ T ∈ ty, T.Fits) (by simp) ?_ h
  intro w ty hw
  unfold optionOf at hw
  split at hw
  · cases hw
  · cases hw
    simp
  · obtain ⟨T, hT, rfl⟩ := Option.map_eq_some_iff.mp hw
    rintro _ ⟨⟩
    exact fits_of_ty? hT

/-! ## Expressions -/

/-- A binding whose initial value has been read. -/
theorem fits_of_parts {x : Option (Option Expr)} {b : Binding}
    (hx : ∀ init, x = some init → ∀ e ∈ init, e.Fits)
    (h : (do
      let init ← x
      return (⟨← fs.required "name" (name? D), ← fs.required "ty_name" (name? D), init,
        ← spanOf D fs⟩ : Binding)) = some b) : b.Fits := by
  simp only [Option.bind_eq_bind, Option.bind_eq_some_iff] at h
  obtain ⟨init, hinit, m, hm, ty, hty, s, hs, h⟩ := h
  cases h
  exact ⟨fits_of_required_name hm, fits_of_required_name hty, hx init hinit, fits_of_spanOf hs⟩

/-- All code that is read from values up to a size is within bounds. -/
structure Sound (D : Dialect) (n : Nat) : Prop where
  expr {v : Value} {e : Expr} : sizeOf v < n → expr? D v = some e → e.Fits
  form {form : ExprForm} {fs : Fields} {e : Expr} : sizeOf fs < n → exprOf? D form fs = some e → e.Fits
  exprs {vs : List Value} {es : List Expr} : sizeOf vs < n → exprs? D vs = some es → ∀ e ∈ es, e.Fits
  receiver {v : Value} {r : Receiver} : sizeOf v < n → receiver? D v = some r →
    (∀ o ∈ r.object?, o.Fits) ∧ ∀ m ∈ r.typeName?, m.Fits
  binding {v : Value} {b : Binding} : sizeOf v < n → binding? D v = some b → b.Fits
  arms {vs : List Value} {as : List Arm} : sizeOf vs < n → arms? D vs = some as → ∀ a ∈ as, a.Fits

namespace Sound

variable {n : Nat} (ih : Sound D n)

include ih

theorem expr_succ {e : Expr} (hv : sizeOf v < n + 1) (h : expr? D v = some e) : e.Fits := by
  rw [expr?] at h
  split at h
  · cases h
  · exact ih.form (by omega) h

theorem form_succ {form : ExprForm} {e : Expr} (hfs : sizeOf fs < n + 1)
    (h : exprOf? D form fs = some e) : e.Fits := by
  have hpart (p : {w : Value // sizeOf w < sizeOf fs}) : sizeOf p.1 < n := by
    have := p.2
    omega
  have hlist (p : {w : Value // sizeOf w < sizeOf fs})
      (l : {vs : List Value // sizeOf vs < sizeOf p.1}) : sizeOf l.1 < n := by
    have := l.2
    have := hpart p
    omega
  cases form <;> simp only [exprOf?, Option.bind_eq_bind, Option.bind_eq_some_iff] at h
  case assign =>
    obtain ⟨p, -, m, hm, e, he, s, hs, ty, hty, h⟩ := h
    cases h
    exact .assign (fits_of_required_name hm) (ih.expr (hpart p) he) (fits_of_spanOf hs)
      (fits_of_tyOf hty)
  case call =>
    obtain ⟨p, -, q, -, l, -, r, hr, m, hm, args, hargs, s, hs, ty, hty, h⟩ := h
    cases h
    obtain ⟨hobject, hname⟩ := ih.receiver (hpart p) hr
    exact .call hobject hname (fits_of_required_name hm) (ih.exprs (hlist q l) hargs)
      (fits_of_spanOf hs) (fits_of_tyOf hty)
  case cond =>
    obtain ⟨p, -, q, -, r, -, a, ha, b, hb, c, hc, s, hs, ty, hty, h⟩ := h
    cases h
    exact .cond (ih.expr (hpart p) ha) (ih.expr (hpart q) hb) (ih.expr (hpart r) hc)
      (fits_of_spanOf hs) (fits_of_tyOf hty)
  case loop =>
    obtain ⟨p, -, q, -, a, ha, b, hb, s, hs, ty, hty, h⟩ := h
    cases h
    exact .loop (ih.expr (hpart p) ha) (ih.expr (hpart q) hb) (fits_of_spanOf hs) (fits_of_tyOf hty)
  case block =>
    obtain ⟨p, -, l, -, es, hes, s, hs, ty, hty, h⟩ := h
    cases h
    exact .block (ih.exprs (hlist p l) hes) (fits_of_spanOf hs) (fits_of_tyOf hty)
  case letIn =>
    obtain ⟨p, -, q, -, b, hb, e, he, s, hs, ty, hty, h⟩ := h
    cases h
    obtain ⟨hname, htype, hinit, hspan⟩ := ih.binding (hpart p) hb
    exact .letIn hname htype hinit hspan (ih.expr (hpart q) he) (fits_of_spanOf hs) (fits_of_tyOf hty)
  case caseOf =>
    obtain ⟨p, -, q, -, l, -, e, he, as, has, s, hs, ty, hty, h⟩ := h
    cases h
    have harms := ih.arms (hlist q l) has
    exact .caseOf (ih.expr (hpart p) he) (fun a ha => (harms a ha).name)
      (fun a ha => (harms a ha).typeName) (fun a ha => (harms a ha).body)
      (fun a ha => (harms a ha).span) (fits_of_spanOf hs) (fits_of_tyOf hty)
  case new =>
    obtain ⟨m, hm, s, hs, ty, hty, h⟩ := h
    cases h
    exact .new (fits_of_required_name hm) (fits_of_spanOf hs) (fits_of_tyOf hty)
  case binary =>
    obtain ⟨p, -, q, -, op, -, a, ha, b, hb, s, hs, ty, hty, h⟩ := h
    cases h
    exact .binary (ih.expr (hpart p) ha) (ih.expr (hpart q) hb) (fits_of_spanOf hs) (fits_of_tyOf hty)
  case unary =>
    obtain ⟨p, -, op, -, a, ha, s, hs, ty, hty, h⟩ := h
    cases h
    exact .unary (ih.expr (hpart p) ha) (fits_of_spanOf hs) (fits_of_tyOf hty)
  case ident =>
    obtain ⟨m, hm, ty, hty, h⟩ := h
    cases h
    exact .ident (fits_of_required_name hm) (fits_of_tyOf hty)
  case int =>
    obtain ⟨i, hi, s, hs, ty, hty, h⟩ := h
    cases h
    exact .int (of_required fits_of_symbol? hi) (fits_of_spanOf hs) (fits_of_tyOf hty)
  case string =>
    obtain ⟨i, hi, s, hs, ty, hty, h⟩ := h
    cases h
    exact .string (of_required fits_of_symbol? hi) (fits_of_spanOf hs) (fits_of_tyOf hty)
  case bool =>
    obtain ⟨b, -, s, hs, ty, hty, h⟩ := h
    cases h
    exact .bool (fits_of_spanOf hs) (fits_of_tyOf hty)
  case absent =>
    obtain ⟨s, hs, ty, hty, h⟩ := h
    cases h
    exact .absent (fits_of_spanOf hs) (fits_of_tyOf hty)

theorem exprs_succ {vs : List Value} {es : List Expr} (hvs : sizeOf vs < n + 1)
    (h : exprs? D vs = some es) : ∀ e ∈ es, e.Fits := by
  cases vs with
  | nil =>
    rw [exprs?] at h
    cases h
    simp
  | cons v rest =>
    have hhead := sizeOf_head_lt v rest
    have htail := sizeOf_tail_lt v rest
    simp only [exprs?, Option.bind_eq_bind, Option.bind_eq_some_iff] at h
    obtain ⟨e, he, es, hes, h⟩ := h
    cases h
    rw [List.forall_mem_cons]
    exact ⟨ih.expr (by omega) he, ih.exprs (by omega) hes⟩

theorem receiver_succ {r : Receiver} (hv : sizeOf v < n + 1) (h : receiver? D v = some r) :
    (∀ o ∈ r.object?, o.Fits) ∧ ∀ m ∈ r.typeName?, m.Fits := by
  rw [receiver?] at h
  split at h
  · split at h
    · cases h
      simp [Receiver.object?, Receiver.typeName?]
    · cases h
  · split at h
    · cases h
    · obtain ⟨o, ho, rfl⟩ := Option.map_eq_some_iff.mp h
      have := ih.expr (by omega) ho
      simpa [Receiver.object?, Receiver.typeName?]
  · split at h
    · cases h
    · simp only [Option.bind_eq_bind, Option.bind_eq_some_iff] at h
      obtain ⟨-, -, p, -, o, ho, m, hm, h⟩ := h
      cases h
      have hp := p.2
      have := ih.expr (by omega) ho
      have := fits_of_required_name hm
      simp_all [Receiver.object?, Receiver.typeName?]
  · cases h

theorem binding_succ {b : Binding} (hv : sizeOf v < n + 1) (h : binding? D v = some b) : b.Fits := by
  rw [binding?] at h
  split at h
  · cases h
  -- the initial value is left out, absent, or an expression
  · split at h
    · exact fits_of_parts (by simp) h
    · split at h
      · cases h
      · exact fits_of_parts (by simp) h
      · split at h
        · cases h
        · refine fits_of_parts (fun init hinit => ?_) h
          obtain ⟨e, he, rfl⟩ := Option.map_eq_some_iff.mp hinit
          rintro _ ⟨⟩
          exact ih.form (by omega) he

theorem arms_succ {vs : List Value} {as : List Arm} (hvs : sizeOf vs < n + 1)
    (h : arms? D vs = some as) : ∀ a ∈ as, a.Fits := by
  cases vs with
  | nil =>
    rw [arms?] at h
    cases h
    simp
  | cons v rest =>
    have hhead := sizeOf_head_lt v rest
    have htail := sizeOf_tail_lt v rest
    rw [arms?] at h
    split at h
    · cases h
    · simp only [Option.bind_eq_bind, Option.bind_eq_some_iff] at h
      obtain ⟨p, -, m, hm, ty, hty, e, he, s, hs, as, has, h⟩ := h
      cases h
      have hp := p.2
      rw [List.forall_mem_cons]
      exact ⟨⟨fits_of_required_name hm, fits_of_required_name hty, ih.expr (by omega) he,
        fits_of_spanOf hs⟩, ih.arms (by omega) has⟩

end Sound

theorem sound (D : Dialect) (n : Nat) : Sound D n := by
  induction n with
  | zero =>
    constructor <;> exact fun hlt => absurd hlt (Nat.not_lt_zero _)
  | succ n ih =>
    exact ⟨ih.expr_succ, ih.form_succ, ih.exprs_succ, ih.receiver_succ, ih.binding_succ, ih.arms_succ⟩

theorem fits_of_expr? {e : Expr} (h : expr? D v = some e) : e.Fits :=
  (sound D _).expr (Nat.lt_succ_self _) h

theorem fits_of_binding? {b : Binding} (h : binding? D v = some b) : b.Fits :=
  (sound D _).binding (Nat.lt_succ_self _) h

/-! ## Declarations -/

theorem fits_of_formal? {f : Formal} (h : formal? D v = some f) : f.Fits := by
  simp only [formal?, Option.bind_eq_bind, Option.bind_eq_some_iff] at h
  obtain ⟨p, -, m, hm, ty, hty, s, hs, h⟩ := h
  cases h
  exact ⟨fits_of_required_name hm, fits_of_required_name hty, fits_of_spanOf hs⟩

theorem of_mapM {α : Type} {P : α → Prop} {read : Value → Option α}
    (hread : ∀ {w a}, read w = some a → P a) {vs : List Value} {as : List α}
    (h : vs.mapM read = some as) : ∀ a ∈ as, P a := by
  induction vs generalizing as with
  | nil =>
    cases h
    simp
  | cons v rest ih =>
    rw [List.mapM_cons] at h
    obtain ⟨a, ha, h⟩ := Option.bind_eq_some_iff.mp h
    obtain ⟨as, has, h⟩ := Option.bind_eq_some_iff.mp h
    cases h
    exact List.forall_mem_cons.mpr ⟨hread ha, ih has⟩

/-- The parts of a list are as their reader gives them. -/
theorem of_items {α : Type} {P : α → Prop} {read : Value → Option α}
    (hread : ∀ {w a}, read w = some a → P a) {as : List α} (h : items read v = some as) :
    ∀ a ∈ as, P a := by
  obtain ⟨l, -, h⟩ := Option.bind_eq_some_iff.mp h
  exact of_mapM hread h

theorem fits_of_method? {m : Method} (h : method? D fs = some m) : m.Fits := by
  simp only [method?, Option.bind_eq_bind, Option.bind_eq_some_iff] at h
  obtain ⟨-, -, n, hn, ps, hps, ty, hty, e, he, s, hs, h⟩ := h
  cases h
  exact ⟨fits_of_required_name hn, of_required (of_items fits_of_formal?) hps,
    fits_of_required_name hty, of_required fits_of_expr? he, fits_of_spanOf hs⟩

theorem fits_of_feature? {f : Feature} (h : feature? D v = some f) : f.Fits := by
  unfold feature? at h
  split at h
  · simp only [Option.bind_eq_bind, Option.bind_eq_some_iff] at h
    obtain ⟨p, -, q, -, b, hb, h⟩ := h
    cases h
    exact fits_of_binding? hb
  · simp only [Option.bind_eq_bind, Option.bind_eq_some_iff] at h
    obtain ⟨p, -, m, hm, h⟩ := h
    cases h
    exact fits_of_method? hm
  · cases h

theorem fits_of_class? {c : Class} (h : class? D v = some c) : c.Fits := by
  simp only [class?, Option.bind_eq_bind, Option.bind_eq_some_iff] at h
  obtain ⟨p, -, n, hn, parent, hparent, file, hfile, features, hfeatures, s, hs, h⟩ := h
  cases h
  exact ⟨fits_of_required_name hn, fits_of_required_name hparent,
    of_required fits_of_symbol? hfile, of_required (of_items fits_of_feature?) hfeatures,
    fits_of_spanOf hs⟩

theorem fits_of_program? {p : Program} (h : program? D v = some p) : p.Fits := by
  simp only [program?, Option.bind_eq_bind, Option.bind_eq_some_iff] at h
  obtain ⟨q, -, classes, hclasses, s, hs, h⟩ := h
  cases h
  exact ⟨of_required (of_items fits_of_class?) hclasses, fits_of_spanOf hs⟩

/-! ## Units -/

theorem eq_some_of_orMalformed {α : Type} {x : Option α} {a : α} (h : orMalformed x = .ok a) :
    x = some a := by
  cases x with
  | none => cases h
  | some b =>
    cases h
    rfl

/-- What holds before all fields of a record are read, and after each of them, holds in the end. -/
theorem of_readFields {σ : Type} {own : List String}
    {step : σ → String × Value → Except LoadError σ} {P : σ → Prop}
    (hstep : ∀ {p q f}, P p → step p f = .ok q → P q) {seen : List String} {p q : σ} (hp : P p)
    (h : readFields D own step seen p fs = .ok q) : P q := by
  induction fs generalizing seen p with
  | nil =>
    cases h
    exact hp
  | cons f fs ih =>
    rw [readFields] at h
    obtain ⟨_, _, h⟩ := bind_eq_ok.mp h
    obtain ⟨p', hp', h⟩ := bind_eq_ok.mp h
    exact ih (hstep hp hp') h

theorem fits_of_field {p q : Parts} {f : String × Value} (hp : ∀ x ∈ p.program, x.Fits)
    (h : Parts.field D p f = .ok q) : ∀ x ∈ q.program, x.Fits := by
  unfold Parts.field at h
  split at h
  · obtain ⟨t, _, h⟩ := bind_eq_ok.mp h
    cases h
    exact hp
  · obtain ⟨x, hx, h⟩ := bind_eq_ok.mp h
    cases h
    rintro _ ⟨⟩
    exact fits_of_program? (eq_some_of_orMalformed hx)
  · cases h
    exact hp

theorem fits_of_unit {u : CompilationUnit} (h : unit D v = .ok u) : u.program.Fits := by
  obtain ⟨⟨fs, _⟩, _, h⟩ := bind_eq_ok.mp h
  obtain ⟨p, hp, h⟩ := bind_eq_ok.mp h
  obtain ⟨t, _, h⟩ := bind_eq_ok.mp h
  obtain ⟨x, hx, h⟩ := bind_eq_ok.mp h
  cases h
  have hfits : ∀ x ∈ p.program, x.Fits := of_readFields fits_of_field (by simp) hp
  exact hfits x (eq_some_of_orMalformed hx)

end Decode

/-- What is loaded is within bounds. -/
theorem Notation.Codec.fits_of_load {c : Codec} {text : String} {u : CompilationUnit}
    (h : c.load text = .ok u) : u.program.Fits := by
  obtain ⟨v, hv, h⟩ := bind_eq_ok.mp h
  unfold Decode.whole at h
  split at h
  · cases h
    exact Decode.fits_of_unit hv
  · cases h

end CoolTypes
