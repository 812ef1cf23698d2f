import CoolTypes.Proofs.Classes.Within

/-!
# Symbols of signatures

Over symbol-valid classes and a hierarchy of symbols of the table, the reports about the signatures that
are collected name symbols of the table only (`collect_symbolValid`), whether or not the classes form a
well-formed hierarchy.
-/

namespace CoolTypes

/-- All reports name symbols of the table only. -/
def ReportsValid (t : SymbolTables) (rs : List Report) : Prop := ∀ r ∈ rs, r.SymbolValid t

namespace ReportsValid

variable {t : SymbolTables} {rs rs' : List Report}

theorem nil : ReportsValid t [] := List.forall_mem_nil _

theorem append (h : ReportsValid t rs) (h' : ReportsValid t rs') : ReportsValid t (rs ++ rs') :=
  List.forall_mem_append.mpr ⟨h, h'⟩

theorem one {v : Violation Symbol Ty} (h : v.SymbolValid t) (span : Span) :
    ReportsValid t [v.place span] :=
  List.forall_mem_singleton.mpr (Violation.symbolValid_place.mpr h)

theorem flatMap {α : Type} {f : α → List Report} {l : List α}
    (h : ∀ a ∈ l, ReportsValid t (f a)) : ReportsValid t (l.flatMap f) :=
  List.forall_mem_flatMap.mpr h

end ReportsValid

/-! ## Features -/

theorem Class.SymbolValid.attributes {t : SymbolTables} {c : Class} (h : c.SymbolValid t) :
    ∀ b ∈ c.attributes, b.SymbolValid t := fun _ hb =>
  h.features _ (feature_of_mem_attributes hb)

theorem Class.SymbolValid.methods {t : SymbolTables} {c : Class} (h : c.SymbolValid t) :
    ∀ m ∈ c.methods, m.SymbolValid t := fun _ hm =>
  h.features _ (feature_of_mem_methods hm)

namespace Signatures

variable {Γ : Ground}

/-! ## One declaration -/

theorem declaredType_reportsValid {n : Name} (hn : n.SymbolValid Γ.tables) :
    ReportsValid Γ.tables (declaredType Γ n).2 := by
  unfold declaredType
  split
  · exact .nil
  · split
    · exact .nil
    · exact .one (v := .undeclaredType n.symbol) hn _

theorem paramType_reportsValid {n : Name} (hn : n.SymbolValid Γ.tables) :
    ReportsValid Γ.tables (paramType Γ n).2 := by
  have hrs := declaredType_reportsValid hn
  unfold paramType
  cases heq : declaredType Γ n with
  | mk ty rs =>
    rw [heq] at hrs
    cases ty with
    | named c => exact hrs
    | selfType => exact hrs.append (.one (v := .illegalSelfType .parameter) trivial _)

theorem attrType_reportsValid (basic : Bool) {n : Name} (hn : n.SymbolValid Γ.tables) :
    ReportsValid Γ.tables (attrType Γ basic n).2 := by
  unfold attrType
  split
  · exact .nil
  · exact declaredType_reportsValid hn

theorem methodSig_reportsValid {c : Symbol} {m : Method} (hm : m.SymbolValid Γ.tables) :
    ReportsValid Γ.tables (methodSig Γ c m).2 := by
  simp only [methodSig, List.flatMap_map]
  refine .append (.flatMap fun f hf => ?_) (declaredType_reportsValid hm.returnType)
  exact paramType_reportsValid (hm.params f hf).typeName

/-! ## One class -/

theorem addAttr_reportsValid {c : Symbol} {basic : Bool} {acc : Collected}
    (hacc : ReportsValid Γ.tables acc.2) {b : Binding} (hb : b.SymbolValid Γ.tables) :
    ReportsValid Γ.tables (addAttr Γ c basic acc b).2 := by
  have hlog := hacc.append (attrType_reportsValid basic hb.typeName)
  unfold addAttr
  dsimp only
  split
  · exact hlog.append (.one (v := .illegalSelf) trivial _)
  · split
    · refine hlog.append (.one ?_ _)
      exact hb.name
    · exact hlog

/-- A report about a method names the class that defines the method it overrides. -/
theorem addMethod_reportsValid {c : Symbol} {acc : Collected} (htable : acc.1.In (Γ.tables.Has .ids))
    (hacc : ReportsValid Γ.tables acc.2) {m : Method} (hm : m.SymbolValid Γ.tables) :
    ReportsValid Γ.tables (addMethod Γ c acc m).2 := by
  have hlog := hacc.append (methodSig_reportsValid (c := c) hm)
  unfold addMethod
  dsimp only
  cases hprev : acc.1.methods.get? m.name.symbol with
  | none => exact hlog
  | some previous =>
    dsimp only
    split
    · refine hlog.append (.one ?_ _)
      exact hm.name
    · split
      · exact hlog
      · refine hlog.append (.one ?_ _)
        exact ⟨hm.name, (htable.methods _ _ hprev).definedIn⟩

theorem ownTable_reportsValid (hroot : Γ.tables.Has .ids Γ.hierarchy.root) {c : Class}
    (hc : c.SymbolValid Γ.tables) {start : ClassTable} (hstart : start.In (Γ.tables.Has .ids)) :
    ReportsValid Γ.tables (ownTable Γ c start).2 := by
  have htypes := hc.typesIn
  have hattrs := List.foldlRecOn (motive := fun acc : Collected =>
      acc.1.In (Γ.tables.Has .ids) ∧ ReportsValid Γ.tables acc.2) c.attributes
    (addAttr Γ c.name.symbol (c.file == Γ.tables.known .basicFile)) (b := (start, []))
    ⟨hstart, .nil⟩ fun acc hacc b hb =>
      ⟨addAttr_in hroot hacc.1 (htypes.attributes b hb),
        addAttr_reportsValid hacc.2 (hc.attributes b hb)⟩
  exact (List.foldlRecOn (motive := fun acc : Collected =>
      acc.1.In (Γ.tables.Has .ids) ∧ ReportsValid Γ.tables acc.2) c.methods
    (addMethod Γ c.name.symbol) hattrs fun acc hacc m hm =>
      ⟨addMethod_in hroot htypes.name hacc.1 (htypes.methods m hm),
        addMethod_reportsValid hacc.1 hacc.2 (hc.methods m hm)⟩).2

/-! ## All classes -/

theorem addClass_reportsValid (hroot : Γ.tables.Has .ids Γ.hierarchy.root)
    {acc : Signatures × List Report}
    (htables : ∀ c tab, acc.1.get? c = some tab → tab.In (Γ.tables.Has .ids))
    (hacc : ReportsValid Γ.tables acc.2) {c : Class} (hc : c.SymbolValid Γ.tables) :
    ReportsValid Γ.tables (addClass Γ acc c).2 := by
  cases hnew : acc.1.contains c.name.symbol with
  | true =>
    rw [addClass, if_pos hnew]
    exact hacc
  | false =>
    rw [addClass_eq hnew]
    exact hacc.append (ownTable_reportsValid hroot hc (inherited_in htables _))

/-- What is reported about the signatures of symbol-valid classes. -/
theorem collect_symbolValid {t : SymbolTables} {h : ClassHierarchy} (hroot : t.Has .ids h.root)
    {classes : List Class} (hclasses : ∀ c ∈ classes, c.SymbolValid t) :
    ReportsValid t (collect t h classes).2 := by
  refine (List.foldlRecOn (motive := fun acc : Signatures × List Report =>
    (∀ c tab, acc.1.get? c = some tab → tab.In (t.Has .ids)) ∧ ReportsValid t acc.2) _
    (addClass ⟨t, h⟩) ⟨fun _ _ h => absurd h (by simp [get?]), .nil⟩ fun acc hacc c hc => ?_).2
  obtain ⟨_, _, hc⟩ := List.mem_flatMap.mp hc
  have hc := hclasses c (List.mem_of_mem_filter (List.mem_of_mem_filter hc))
  exact ⟨addClass_in (Γ := ⟨t, h⟩) hroot hacc.1 hc.typesIn,
    addClass_reportsValid (Γ := ⟨t, h⟩) hroot hacc.1 hacc.2 hc⟩

end Signatures

end CoolTypes
