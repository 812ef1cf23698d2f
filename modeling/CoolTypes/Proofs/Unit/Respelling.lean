import CoolTypes.Proofs.Notation.Described
import CoolTypes.Proofs.Unit.Bounds
import CoolTypes.Unit.Decode
import Mathlib.Data.List.Nodup

/-!
# Other spellings of a value

The value of a unit can be written in other ways than the printed one. The fields of a record can stand in
any order, among fields with other names, and some of them can be left out when they have a certain value
(`Value.Respells`). What must not happen is that a field without a default is missing or that a known field
is written twice (`Value.Misspells`). A reader settles a value if it reads every respelling of the value and
refuses every misspelling of it (`Settles`), and a record is settled field by field (`Settles.record`).
-/

namespace CoolTypes

open Notation

namespace Notation.Value

/-! ## Respellings -/

/-- The fields that can be left out: empty tables, the span that no text has, and no initial value. -/
def optionalFields : List (String × Value) :=
  [("strings", .list []), ("ints", .list []), ("span", Span.synthetic.toValue), ("init", .option none)]

/-- The keys of the fields that have a default. -/
def optionalKeys : List String := "ty" :: optionalFields.map Prod.fst

/-- The known fields that a value in a group of this name may not show: the static type of an expression. -/
def hiddenKeys (name : Option String) : List String :=
  if name.any fun w => (ExprForm.ofTitle? w).isSome then ["ty"] else []

/-- The second value is another spelling of the first one, in which records may have the fields `hidden`
as well. The fields of a record stand in any order, none of them twice and each with a respelling of its
value, if it is not one that can be left out. Fields with other names stand between them as one likes. -/
inductive Respells : List String → Value → Value → Prop
  | nat {hidden n} : Respells hidden (.nat n) (.nat n)
  | str {hidden s} : Respells hidden (.str s) (.str s)
  | word {hidden w} : Respells hidden (.word w) (.word w)
  | group {hidden name v w} : Respells (hiddenKeys name) v w →
      Respells hidden (.group name [v]) (.group name [w])
  | list {hidden vs ws} : vs.length = ws.length → (∀ p ∈ vs.zip ws, Respells [] p.1 p.2) →
      Respells hidden (.list vs) (.list ws)
  | record {hidden name fs gs} :
      (∀ key ∈ hidden, key ∈ fs.map Prod.fst ∨ key ∉ gs.map Prod.fst) →
      (∀ key ∈ fs.map Prod.fst, (gs.map Prod.fst).count key ≤ 1) →
      (∀ f ∈ fs, f.1 ∉ gs.map Prod.fst → f ∈ optionalFields) →
      (∀ f ∈ fs, ∀ g ∈ gs, g.1 = f.1 → Respells [] f.2 g.2) →
      Respells hidden (.record name fs) (ofFields name gs)

/-- The second value is a wrong spelling of the first one: somewhere in it a record lacks a field that has no
default or has a known field twice. It does not matter what else is in it. -/
inductive Misspells : List String → Value → Value → Prop
  | missing {hidden name fs gs f} : f ∈ fs → f.1 ∉ optionalKeys → f.1 ∉ gs.map Prod.fst →
      Misspells hidden (.record name fs) (ofFields name gs)
  | twice {hidden name fs gs key} : key ∈ fs.map Prod.fst ++ hidden →
      2 ≤ (gs.map Prod.fst).count key → Misspells hidden (.record name fs) (ofFields name gs)
  | field {hidden name fs gs f g} : f ∈ fs → g ∈ gs → g.1 = f.1 → Misspells [] f.2 g.2 →
      Misspells hidden (.record name fs) (ofFields name gs)
  | group {hidden name v w} : Misspells (hiddenKeys name) v w →
      Misspells hidden (.group name [v]) (.group name [w])
  | list {hidden vs ws v w} : v ∈ vs → w ∈ ws → Misspells [] v w →
      Misspells hidden (.list vs) (.list ws)

theorem ofFields_injective {name : Option String} {fs gs : List (String × Value)}
    (h : ofFields name fs = ofFields name gs) : fs = gs := by
  cases fs <;> cases gs <;> simp_all [ofFields]

/-- When a record is respelled by given fields. -/
theorem respells_record {hidden : List String} {name : Option String} {fs gs : List (String × Value)} :
    Respells hidden (.record name fs) (ofFields name gs) ↔
      (∀ key ∈ hidden, key ∈ fs.map Prod.fst ∨ key ∉ gs.map Prod.fst) ∧
        (∀ key ∈ fs.map Prod.fst, (gs.map Prod.fst).count key ≤ 1) ∧
        (∀ f ∈ fs, f.1 ∉ gs.map Prod.fst → f ∈ optionalFields) ∧
        ∀ f ∈ fs, ∀ g ∈ gs, g.1 = f.1 → Respells [] f.2 g.2 := by
  constructor
  · generalize hw : ofFields name gs = w
    intro h
    cases h with
    | record hhidden hcount hmissing hparts =>
      cases ofFields_injective hw
      exact ⟨hhidden, hcount, hmissing, hparts⟩
  · rintro ⟨hhidden, hcount, hmissing, hparts⟩
    exact .record hhidden hcount hmissing hparts

section Edits

variable {hidden : List String} {name : Option String} {fs gs gs' : List (String × Value)}
  {g : String × Value}

/-- The fields can be put in another order. -/
theorem Respells.perm (h : Respells hidden (.record name fs) (ofFields name gs)) (hperm : gs.Perm gs') :
    Respells hidden (.record name fs) (ofFields name gs') := by
  rw [respells_record] at h ⊢
  have hkeys := hperm.map Prod.fst
  simpa only [hkeys.mem_iff, hkeys.count_eq, hperm.mem_iff] using h

/-- A field that has its default can be left out. -/
theorem Respells.leaveOut (h : Respells hidden (.record name fs) (ofFields name (g :: gs)))
    (hg : ∀ f ∈ fs, f.1 = g.1 → f ∈ optionalFields) :
    Respells hidden (.record name fs) (ofFields name gs) := by
  rw [respells_record] at h ⊢
  obtain ⟨hhidden, hcount, hmissing, hparts⟩ := h
  refine ⟨?_, ?_, ?_, ?_⟩
  · intro key hkey
    exact (hhidden key hkey).imp_right fun hnot hmem => hnot (List.mem_cons_of_mem _ hmem)
  · intro key hkey
    exact Nat.le_trans ((List.sublist_cons_self _ _).count_le key) (hcount key hkey)
  · intro f hf hnot
    by_cases heq : f.1 = g.1
    · exact hg f hf heq
    · exact hmissing f hf fun hmem => (List.mem_cons.mp hmem).elim heq hnot
  · exact fun f hf g' hg' => hparts f hf g' (List.mem_cons_of_mem _ hg')

/-- A field with an unknown name can be added. -/
theorem Respells.add (h : Respells hidden (.record name fs) (ofFields name gs))
    (hg : g.1 ∉ fs.map Prod.fst) (hg' : g.1 ∉ hidden) :
    Respells hidden (.record name fs) (ofFields name (g :: gs)) := by
  rw [respells_record] at h ⊢
  obtain ⟨hhidden, hcount, hmissing, hparts⟩ := h
  refine ⟨?_, ?_, ?_, ?_⟩
  · intro key hkey
    refine (hhidden key hkey).imp_right fun hnot hmem => ?_
    rcases List.mem_cons.mp hmem with rfl | hmem
    · exact hg' hkey
    · exact hnot hmem
  · intro key hkey
    have hne : g.1 ≠ key := fun heq => hg (heq ▸ hkey)
    rw [List.map_cons, List.count_cons_of_ne hne]
    exact hcount key hkey
  · exact fun f hf hnot => hmissing f hf fun hmem => hnot (List.mem_cons_of_mem _ hmem)
  · intro f hf g' hmem heq
    rcases List.mem_cons.mp hmem with rfl | hmem
    · exact absurd (heq ▸ List.mem_map_of_mem hf) hg
    · exact hparts f hf g' hmem heq

end Edits

/-- What is printed is one of the spellings. -/
theorem Printable.respells {v : Value} (h : v.Printable) (hidden : List String) :
    v.Respells hidden v := by
  induction h generalizing hidden with
  | nat _ => exact .nat
  | str => exact .str
  | word _ _ => exact .word
  | group _ _ ih => exact .group (ih _)
  | @record name fields _ hne _ hnodup _ ih =>
    have hself : ofFields name fields = .record name fields := by
      cases fields with
      | nil => exact absurd rfl hne
      | cons f fields => rfl
    have hrecord : Respells hidden (.record name fields) (ofFields name fields) := by
      refine .record (fun _ _ => Classical.em _) ?_ ?_ ?_
      · exact fun key _ => List.nodup_iff_count_le_one.mp hnodup key
      · exact fun f hf hnot => absurd (List.mem_map_of_mem hf) hnot
      · intro f hf g hg heq
        rw [List.inj_on_of_nodup_map hnodup hg hf heq]
        exact ih f hf []
    rwa [hself] at hrecord
  | @list parts _ ih =>
    refine .list rfl fun p hp => ?_
    have hzip : parts.zip parts = parts.map fun v => (v, v) := by
      simpa using @List.zip_map' Value Value Value id id parts
    rw [hzip] at hp
    obtain ⟨v, hv, rfl⟩ := List.mem_map.mp hp
    exact ih v hv []

end Notation.Value

namespace Decode

open Notation.Value

/-! ## Fields by their keys -/

section Fit

variable {D : Dialect} (hD : D.Described) {own seen : List String} {gs : Fields}

include hD

/-- Known fields that come once and well-formed unknown ones are those of a record. -/
theorem fit_of_count (hcount : ∀ key ∈ own, (gs.map Prod.fst).count key ≤ 1)
    (hseen : ∀ key ∈ own, key ∈ seen → key ∉ gs.map Prod.fst)
    (hsound : ∀ g ∈ gs, isSound g.2 = true) : D.fit own seen gs = true := by
  induction gs generalizing seen with
  | nil => rfl
  | cons g gs ih =>
    rw [List.forall_mem_cons] at hsound
    have hrest : D.fit own (g.1 :: seen) gs = true := by
      refine ih (fun key hkey => ?_) (fun key hkey hmem hin => ?_) hsound.2
      · exact Nat.le_trans ((List.sublist_cons_self _ _).count_le key) (hcount key hkey)
      · rcases List.mem_cons.mp hmem with rfl | hmem
        · have honce := hcount _ hkey
          rw [List.map_cons, List.count_cons_self] at honce
          exact absurd (List.count_pos_iff.mpr hin) (by omega)
        · exact hseen key hkey hmem (List.mem_cons_of_mem _ hin)
    rw [Dialect.fit, hrest, Bool.and_true]
    by_cases hown : g.1 ∈ own
    · have hnew : g.1 ∉ seen := fun hmem => hseen g.1 hown hmem List.mem_cons_self
      rw [hD.own hown]
      simpa using hnew
    · exact hD.unknown hown hsound.1

/-- No known field of a record comes again. -/
theorem count_of_fit (h : D.fit own seen gs = true) {key : String} (hkey : key ∈ own) :
    (gs.map Prod.fst).count key ≤ 1 ∧ (key ∈ seen → key ∉ gs.map Prod.fst) := by
  induction gs generalizing seen with
  | nil => simp
  | cons g gs ih =>
    rw [Dialect.fit, Bool.and_eq_true] at h
    obtain ⟨hcount, hseen⟩ := ih h.2
    by_cases heq : g.1 = key
    · have hgoes := h.1
      rw [hD.own (heq ▸ hkey), heq] at hgoes
      have hnew : key ∉ seen := by simpa using hgoes
      have hnone : (gs.map Prod.fst).count key = 0 :=
        List.count_eq_zero.mpr (hseen (heq ▸ List.mem_cons_self))
      refine ⟨Nat.le_of_eq ?_, fun hmem => absurd hmem hnew⟩
      simp [heq, hnone]
    · rw [List.map_cons, List.count_cons_of_ne heq]
      refine ⟨hcount, fun hmem hin => ?_⟩
      rcases List.mem_cons.mp hin with rfl | hin
      · exact heq rfl
      · exact hseen (List.mem_cons_of_mem _ hmem) hin

end Fit

theorem lookup_eq_none {key : String} {gs : Fields} :
    gs.lookup key = none ↔ key ∉ gs.map Prod.fst := by
  rw [List.lookup_eq_none_iff]
  constructor
  · intro h hmem
    obtain ⟨g, hg, rfl⟩ := List.mem_map.mp hmem
    exact absurd (h g hg) (by simp)
  · intro h g hg
    rw [bne_iff_ne]
    rintro rfl
    exact h (List.mem_map_of_mem hg)

theorem mem_of_lookup {key : String} {v : Value} {gs : Fields} (h : gs.lookup key = some v) :
    (key, v) ∈ gs := by
  obtain ⟨before, after, rfl, _⟩ := List.lookup_eq_some_iff.mp h
  simp

/-- A field whose key is there only once is found by its key. -/
theorem lookup_of_mem {g : String × Value} {gs : Fields} (hg : g ∈ gs)
    (hcount : (gs.map Prod.fst).count g.1 ≤ 1) : gs.lookup g.1 = some g.2 := by
  obtain ⟨before, after, rfl⟩ := List.append_of_mem hg
  rw [List.map_append, List.count_append, List.map_cons, List.count_cons_self] at hcount
  have hbefore : (before.map Prod.fst).count g.1 = 0 := by omega
  rw [List.lookup_eq_some_iff]
  refine ⟨before, after, rfl, fun f hf => ?_⟩
  rw [bne_iff_ne]
  rintro heq
  exact List.count_eq_zero.mp hbefore (heq ▸ List.mem_map_of_mem hf)

theorem isSound_of_ofFields {name : Option String} {gs : Fields}
    (h : isSound (ofFields name gs) = true) : ∀ g ∈ gs, isSound g.2 = true := by
  cases gs with
  | nil => simp
  | cons g gs =>
    rw [ofFields, isSound, areSoundFields_eq, Bool.and_eq_true, List.all_eq_true] at h
    exact h.2

/-! ## Settled values -/

/-- A reader gets `a` from every respelling of a value and nothing from any misspelling of it. -/
structure Settles {α : Type} (read : Value → Option α) (hidden : List String) (v : Value) (a : α) :
    Prop where
  respelled : ∀ w, v.Respells hidden w → isSound w = true → read w = some a
  misspelled : ∀ w, v.Misspells hidden w → read w = none

section Settles

variable {α β : Type} {read : Value → Option α} {hidden : List String} {v : Value} {a : α}

theorem Settles.nat {n : Nat} (h : read (.nat n) = some a) : Settles read hidden (.nat n) a := by
  constructor
  · rintro w hw _
    cases hw
    exact h
  · rintro w hw
    cases hw

theorem Settles.str {s : String} (h : read (.str s) = some a) : Settles read hidden (.str s) a := by
  constructor
  · rintro w hw _
    cases hw
    exact h
  · rintro w hw
    cases hw

theorem Settles.word {u : String} (h : read (.word u) = some a) :
    Settles read hidden (.word u) a := by
  constructor
  · rintro w hw _
    cases hw
    exact h
  · rintro w hw
    cases hw

/-- A value that is made from what has been read. -/
theorem Settles.bind {b : β} (h : Settles read hidden v a) {make : α → Option β}
    (hmake : make a = some b) : Settles (fun w => (read w).bind make) hidden v b := by
  constructor
  · intro w hw hsound
    rw [h.respelled w hw hsound]
    exact hmake
  · intro w hw
    rw [h.misspelled w hw]
    rfl

theorem Settles.map (h : Settles read hidden v a) (make : α → β) :
    Settles (fun w => (read w).map make) hidden v (make a) := by
  have hmake : (some ∘ make) a = some (make a) := rfl
  simpa only [Option.map_eq_bind] using h.bind hmake

/-- A group is read by its part. -/
theorem Settles.group {name : Option String} {keys : List String} {readGroup : Value → Option α}
    (hkeys : hiddenKeys name = keys) (hread : ∀ w, readGroup (.group name [w]) = read w)
    (h : Settles read keys v a) : Settles readGroup hidden (.group name [v]) a := by
  subst hkeys
  constructor
  · rintro _ hw hsound
    cases hw with
    | @group _ _ _ w hw =>
      rw [isSound_group] at hsound
      have hpart : isSound w = true := by simpa using (Bool.and_eq_true_iff.mp hsound).2
      rw [hread, h.respelled w hw hpart]
  · rintro _ hw
    cases hw with
    | group hw => rw [hread, h.misspelled _ hw]

theorem mapM_eq_some {vs : List Value} {as : List α} (hlength : as.length = vs.length)
    (h : ∀ p ∈ as.zip vs, read p.2 = some p.1) : vs.mapM read = some as := by
  induction as generalizing vs with
  | nil =>
    rw [List.length_nil, eq_comm, List.length_eq_zero_iff] at hlength
    rw [hlength]
    rfl
  | cons a as ih =>
    cases vs with
    | nil => cases hlength
    | cons v vs =>
      rw [List.zip_cons_cons, List.forall_mem_cons] at h
      rw [List.mapM_cons, h.1, ih (Nat.succ.inj hlength) h.2]
      rfl

theorem mapM_eq_none {vs : List Value} (hv : v ∈ vs) (h : read v = none) : vs.mapM read = none := by
  induction vs with
  | nil => cases hv
  | cons w vs ih =>
    rw [List.mapM_cons]
    rcases List.mem_cons.mp hv with rfl | hv
    · rw [h]
      rfl
    · rw [ih hv]
      cases read w <;> rfl

/-- A list is read part by part. -/
theorem Settles.list {toValue : α → Value} {as : List α}
    (h : ∀ a ∈ as, Settles read [] (toValue a) a) :
    Settles (items read) hidden (.list (as.map toValue)) as := by
  constructor
  · rintro _ hw hsound
    cases hw with
    | @list _ _ ws hlength hparts =>
      rw [isSound, areSound_eq, List.all_eq_true] at hsound
      refine mapM_eq_some (by simpa using hlength) fun p hp => ?_
      have hpair : (toValue p.1, p.2) ∈ (as.map toValue).zip ws := by
        rw [List.zip_map_left]
        exact List.mem_map_of_mem (f := Prod.map toValue id) hp
      have hmem := List.of_mem_zip hp
      exact (h p.1 hmem.1).respelled p.2 (hparts _ hpair) (hsound p.2 hmem.2)
  · rintro _ hw
    cases hw with
    | @list _ _ ws v w hv hw hbad =>
      obtain ⟨a, ha, rfl⟩ := List.mem_map.mp hv
      exact mapM_eq_none hw ((h a ha).misspelled w hbad)

end Settles

/-! ## Records -/

/-- A known field of a record: its key, and the value that is printed for it, if one is. -/
abbrev Slot := String × Option Value

/-- The fields that are printed. -/
def shown (slots : List Slot) : Fields := slots.filterMap fun s => s.2.map (s.1, ·)

/-- A field is there with a respelling of its value, or can be left out. -/
structure Slot.Kept (s : Slot) (gs : Fields) : Prop where
  absent : gs.lookup s.1 = none → ∀ v ∈ s.2, (s.1, v) ∈ optionalFields
  present : ∀ w, gs.lookup s.1 = some w → ∃ v ∈ s.2, v.Respells [] w ∧ isSound w = true

/-- A field is missing although it has no default, or is there with a misspelling of its value. -/
def Slot.Spoilt (s : Slot) (gs : Fields) : Prop :=
  ∃ v ∈ s.2, (gs.lookup s.1 = none ∧ s.1 ∉ optionalKeys) ∨
    ∃ w, gs.lookup s.1 = some w ∧ v.Misspells [] w

/-- A reader of fields gets `a` if all slots are kept, and nothing if one of them is spoilt. -/
structure Reads {α : Type} (read : Fields → Option α) (slots : List Slot) (a : α) : Prop where
  kept : ∀ gs, (∀ s ∈ slots, s.Kept gs) → read gs = some a
  spoilt : ∀ gs, ∀ s ∈ slots, s.Spoilt gs → read gs = none

section Reads

variable {α β : Type} {key : String} {v : Value} {a : α}

theorem Reads.pure (a : α) : Reads (fun _ => some a) [] a :=
  ⟨fun _ _ => rfl, fun _ _ hs => absurd hs List.not_mem_nil⟩

/-- What is made of the fields that have been read takes one more. -/
theorem Reads.seq {make : Fields → Option (α → β)} {slots : List Slot} {f : α → β}
    (hmake : Reads make slots f) {read : Fields → Option α} {s : Slot} (hread : Reads read [s] a) :
    Reads (fun gs => make gs <*> read gs) (slots ++ [s]) (f a) := by
  constructor
  · intro gs hgs
    have hmade := hmake.kept gs fun t ht => hgs t (List.mem_append_left _ ht)
    have hs := hread.kept gs fun t ht => hgs t (List.mem_append_right _ ht)
    show make gs <*> read gs = _
    rw [hmade, hs]
    rfl
  · intro gs t ht hspoilt
    show make gs <*> read gs = _
    rcases List.mem_append.mp ht with ht | ht
    · rw [hmake.spoilt gs t ht hspoilt]
      rfl
    · rw [hread.spoilt gs t ht hspoilt]
      cases make gs <;> rfl

/-- A field that must be there. -/
theorem Reads.required {read : Value → Option α} (h : Settles read [] v a)
    (hkey : key ∉ optionalKeys) : Reads (Fields.required · key read) [(key, some v)] a := by
  have hfields : ∀ w, (key, w) ∉ optionalFields := fun w hw =>
    hkey (List.mem_cons_of_mem _ (List.mem_map_of_mem hw))
  constructor
  · intro gs hgs
    obtain ⟨habsent, hpresent⟩ := hgs _ List.mem_cons_self
    cases hlookup : gs.lookup key with
    | none => exact absurd (habsent hlookup v rfl) (hfields v)
    | some w =>
      obtain ⟨_, ⟨⟩, hw, hsound⟩ := hpresent w hlookup
      simp [Fields.required, hlookup, h.respelled w hw hsound]
  · intro gs s hs hspoilt
    cases List.mem_singleton.mp hs
    obtain ⟨_, ⟨⟩, ⟨hlookup, _⟩ | ⟨w, hlookup, hw⟩⟩ := hspoilt
    · simp [Fields.required, hlookup]
    · simp [Fields.required, hlookup, h.misspelled w hw]

/-- A field that can be left out if it has the value `default`. -/
theorem Reads.withDefault {read : Value → Option α} (h : Settles read [] v a) {default : α}
    (hkey : key ∈ optionalKeys) (hdefault : (key, v) ∈ optionalFields → a = default) :
    Reads (Fields.withDefault · key default read) [(key, some v)] a := by
  constructor
  · intro gs hgs
    obtain ⟨habsent, hpresent⟩ := hgs _ List.mem_cons_self
    cases hlookup : gs.lookup key with
    | none => simp [Fields.withDefault, hlookup, hdefault (habsent hlookup v rfl)]
    | some w =>
      obtain ⟨_, ⟨⟩, hw, hsound⟩ := hpresent w hlookup
      simp [Fields.withDefault, hlookup, h.respelled w hw hsound]
  · intro gs s hs hspoilt
    cases List.mem_singleton.mp hs
    obtain ⟨_, ⟨⟩, ⟨_, hmissing⟩ | ⟨w, hlookup, hw⟩⟩ := hspoilt
    · exact absurd hkey hmissing
    · simp [Fields.withDefault, hlookup, h.misspelled w hw]

theorem mem_shown {slots : List Slot} {f : String × Value} :
    f ∈ shown slots ↔ (f.1, some f.2) ∈ slots := by
  simp only [shown, List.mem_filterMap, Option.map_eq_some_iff]
  constructor
  · rintro ⟨⟨key, _⟩, hs, v, rfl, rfl⟩
    exact hs
  · intro hf
    exact ⟨_, hf, f.2, rfl, rfl⟩

/-- A record is settled if its fields are. -/
theorem Settles.record {D : Dialect} (hD : D.Described) {readRecord : Value → Option α}
    {name : Option String} {own : List String} {read : Fields → Option α} {slots : List Slot}
    {hidden : List String}
    (hrecord : ∀ gs, readRecord (ofFields name gs) =
      (require (D.fit own [] gs)).bind fun _ => read gs)
    (hread : Reads read slots a) (hown : slots.map Prod.fst = own) (hnodup : own.Nodup)
    (hhidden : hidden ⊆ own) (habsent : ∀ s ∈ slots, s.2 = none → s.1 ∈ hidden) :
    Settles readRecord hidden (.record name (shown slots)) a := by
  have hkeys : (shown slots).map Prod.fst ⊆ own := by
    rw [← hown]
    rintro _ hkey
    obtain ⟨f, hf, rfl⟩ := List.mem_map.mp hkey
    exact List.mem_map_of_mem (mem_shown.mp hf)
  constructor
  · intro w hw hsound
    cases hw with
    | @record _ _ _ gs hrest hcount hmissing hparts =>
      -- what is not printed is not there either
      have hnone : ∀ s ∈ slots, s.2 = none → s.1 ∉ gs.map Prod.fst := by
        intro s hs hs2
        refine (hrest s.1 (habsent s hs hs2)).resolve_left fun hmem => ?_
        obtain ⟨f, hf, hkey⟩ := List.mem_map.mp hmem
        have heq := List.inj_on_of_nodup_map (hown ▸ hnodup) (mem_shown.mp hf) hs hkey
        rw [← heq] at hs2
        cases hs2
      have hfit : D.fit own [] gs = true := by
        refine fit_of_count hD (fun key hkey => ?_) (by simp) (isSound_of_ofFields hsound)
        rw [← hown] at hkey
        obtain ⟨⟨key, _ | v⟩, hs, rfl⟩ := List.mem_map.mp hkey
        · rw [List.count_eq_zero.mpr (hnone _ hs rfl)]
          exact Nat.zero_le 1
        · exact hcount key (List.mem_map.mpr ⟨(key, v), mem_shown.mpr hs, rfl⟩)
      rw [hrecord, hfit]
      refine hread.kept gs fun s hs => ⟨fun hlookup v hv => ?_, fun w hlookup => ?_⟩
      · obtain ⟨key, _⟩ := s
        cases hv
        exact hmissing (key, v) (mem_shown.mpr hs) (lookup_eq_none.mp hlookup)
      · have hw := mem_of_lookup hlookup
        obtain ⟨key, _ | v⟩ := s
        · exact absurd (List.mem_map_of_mem hw) (hnone _ hs rfl)
        · exact ⟨v, rfl, hparts (key, v) (mem_shown.mpr hs) _ hw rfl, isSound_of_ofFields hsound _ hw⟩
  · intro w hw
    have hunread : ∀ gs, read gs = none → readRecord (ofFields name gs) = none := by
      intro gs h
      rw [hrecord, h]
      cases require (D.fit own [] gs) <;> rfl
    have hunfit : ∀ gs key, key ∈ own → 2 ≤ (List.map Prod.fst gs).count key →
        readRecord (ofFields name gs) = none := by
      intro gs key hkey hcount
      have hfit : D.fit own [] gs = false := by
        rw [Bool.eq_false_iff]
        intro h
        have honce := (count_of_fit hD h hkey).1
        omega
      rw [hrecord, hfit]
      rfl
    cases hw with
    | @missing _ _ _ gs f hf hkey hnot =>
      exact hunread gs (hread.spoilt gs _ (mem_shown.mp hf)
        ⟨f.2, rfl, .inl ⟨lookup_eq_none.mpr hnot, hkey⟩⟩)
    | @twice _ _ _ gs key hkey hcount =>
      exact hunfit gs key ((List.mem_append.mp hkey).elim (hkeys ·) (hhidden ·)) hcount
    | @field _ _ _ gs f g hf hg hkey hbad =>
      by_cases hcount : (gs.map Prod.fst).count g.1 ≤ 1
      · have hlookup := lookup_of_mem hg hcount
        rw [hkey] at hlookup
        exact hunread gs (hread.spoilt gs _ (mem_shown.mp hf) ⟨f.2, rfl, .inr ⟨g.2, hlookup, hbad⟩⟩)
      · rw [hkey] at hcount
        exact hunfit gs f.1 (hkeys (List.mem_map_of_mem hf)) (by omega)

end Reads

end Decode

end CoolTypes
