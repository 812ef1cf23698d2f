import CoolTypes.Proofs.Classes.Joins

/-!
# Conformance as an order

Conformance follows parents between classes, and the self type stands below the current class. Hence the
laws of the relation `Conforms` are laws of paths in the inheritance graph: it is reflexive and transitive
in every graph, antisymmetric where no class is on a cycle, and it grows when the current class moves down.
`conformance_is_partial_order` states them for the computed conformance of the hierarchies that the check
accepts, over the parents that the classes declare.
-/

namespace CoolTypes

/-- A class other than the root is declared with this parent. -/
def HeirOf (t : SymbolTables) (classes : List Class) (a b : Symbol) : Prop :=
  a ≠ t.known .object ∧ ParentOf classes a b

namespace InheritanceGraph

variable {g : InheritanceGraph} {current : Symbol}

/-! ## Laws in every graph -/

theorem Conforms.refl (a : Ty) : g.Conforms current a a := by
  cases a with
  | named c => exact .named .refl
  | selfType => exact .self

theorem Conforms.trans {a b c : Ty} (hab : g.Conforms current a b) (hbc : g.Conforms current b c) :
    g.Conforms current a c := by
  cases hab with
  | self => exact hbc
  | selfNamed hb =>
    cases hbc with
    | named hc => exact .selfNamed (hb.trans hc)
  | named hb =>
    cases hbc with
    | named hc => exact .named (hb.trans hc)

/-- The self type is above itself only, so a type and one above it that are below each other are classes
on a cycle or the same. -/
theorem Conforms.antisymm {a b : Ty} (hab : g.Conforms current a b) (hba : g.Conforms current b a)
    (ha : g.Ends (a.within current)) : a = b := by
  cases hab with
  | self => rfl
  | selfNamed _ => cases hba
  | named hcd =>
    cases hba with
    | named hdc => rw [Reaches.antisymm hcd hdc ha]

/-- What conforms inside a class conforms inside of its descendants. -/
theorem Conforms.descend {a b : Ty} {D : Symbol} (h : g.Conforms current a b)
    (hD : g.Reaches D current) : g.Conforms D a b := by
  cases h with
  | self => exact .self
  | selfNamed hd => exact .selfNamed (hD.trans hd)
  | named hcd => exact .named hcd

/-- Below a class without heirs there are only itself and, inside of it, the self type. -/
theorem conforms_named_iff_of_final {p : Symbol} (hfinal : ∀ c, g.Reaches c p → c = p) {a : Ty} :
    g.Conforms current a (.named p) ↔ a = .named p ∨ a = .selfType ∧ current = p := by
  constructor
  · intro h
    cases h with
    | selfNamed hp => exact .inr ⟨rfl, hfinal _ hp⟩
    | named hcp => exact .inl (congrArg Ty.named (hfinal _ hcp))
  · rintro (rfl | ⟨rfl, rfl⟩)
    · exact .refl _
    · exact .selfNamed .refl

end InheritanceGraph

/-! ## Accepted hierarchies -/

variable {t : SymbolTables} {classes : List Class}

namespace WellFormedHierarchy

/-- The recorded edges are the declared parents of all classes but the root. -/
theorem edge_iff (hw : WellFormedHierarchy t classes) {a b : Symbol} :
    (hierarchyOf t classes).graph.Edge a b ↔ HeirOf t classes a b := by
  constructor
  · intro h
    exact ⟨(soundEdge_of_get? h).notRoot, (soundEdge_of_get? h).parentOf⟩
  · rintro ⟨hroot, c, hc, rfl, rfl⟩
    exact hw.classesOk.get? hc hroot

theorem reaches_iff (hw : WellFormedHierarchy t classes) {a b : Symbol} :
    (hierarchyOf t classes).graph.Reaches a b ↔ Relation.ReflTransGen (HeirOf t classes) a b := by
  have hedge : InheritanceGraph.Edge (hierarchyOf t classes).graph = HeirOf t classes :=
    funext₂ fun _ _ => propext hw.edge_iff
  rw [InheritanceGraph.Reaches, hedge]

end WellFormedHierarchy

/-- In a hierarchy that the check accepts, conformance inside a declared class is a partial order on the
self type and the declared classes, with the root class on top. Between classes it is the
reflexive-transitive closure of the parent relation; the self type conforms to what the current class
conforms to, and nothing else conforms to the self type; nothing but itself is below a primitive class.
What conforms inside a class conforms inside all of its descendants. -/
theorem conformance_is_partial_order {current : Symbol}
    (hvalid : (checkInheritance t classes).isValid = true)
    (hcurrent : current ∈ classes.map (·.name.symbol)) :
    let h := hierarchyOf t classes
    let Declared := Ty.In (· ∈ classes.map (·.name.symbol))
    (∀ a b, h.graph.get? a = some b ↔ HeirOf t classes a b) ∧
    (∀ a, Declared a → h.conforms current a a = true) ∧
    (∀ a b c, Declared a → Declared b → Declared c → h.conforms current a b = true →
      h.conforms current b c = true → h.conforms current a c = true) ∧
    (∀ a b, Declared a → Declared b → h.conforms current a b = true →
      h.conforms current b a = true → a = b) ∧
    (∀ a, Declared a → h.conforms current a (.named (t.known .object)) = true) ∧
    (∀ a, h.conforms current a .selfType = true ↔ a = .selfType) ∧
    (∀ c, h.conforms current .selfType (.named c) = true ↔
      h.conforms current (.named current) (.named c) = true) ∧
    (∀ c d, Declared (.named c) → (h.conforms current (.named c) (.named d) = true ↔
      Relation.ReflTransGen (HeirOf t classes) c d)) ∧
    (∀ a p, Declared a → t.IsPrimitive p → (h.conforms current a (.named p) = true ↔
      a = .named p ∨ a = .selfType ∧ current = p)) ∧
    ∀ D, Relation.ReflTransGen (HeirOf t classes) D current → ∀ a b, Declared a →
      h.conforms current a b = true → h.conforms D a b = true := by
  intro h Declared
  have hw := isValid_iff_wellFormed.mp hvalid
  have hr : h.Rooted := hw.rooted_hierarchy
  have hC : h.contains current = true := hw.contains_iff.mpr hcurrent
  have hin : ∀ {a}, Declared a → h.Declares a := by
    intro a ha
    cases a with
    | named c => exact hw.contains_iff.mpr ha
    | selfType => trivial
  -- on declared types the computed conformance is the relation, so it has the laws of the relation
  have hiff : ∀ {a b}, Declared a →
      (h.conforms current a b = true ↔ h.graph.Conforms current a b) :=
    fun ha => hr.conforms_iff hC (hin ha)
  refine ⟨fun a b => hw.edge_iff, fun a ha => ?_, fun a b c ha hb _ hab hbc => ?_,
    fun a b ha hb hab hba => ?_, fun a ha => ?_, fun a => ?_, fun c => Iff.rfl, fun c d hc => ?_,
    fun a p ha hp => ?_, fun D hD a b ha hab => ?_⟩
  · exact (hiff ha).mpr (.refl a)
  · exact (hiff ha).mpr (((hiff ha).mp hab).trans ((hiff hb).mp hbc))
  · exact ((hiff ha).mp hab).antisymm ((hiff hb).mp hba) (hr.ends ((hin ha).contains_within hC))
  · have hwithin := (hin ha).contains_within hC
    exact (hr.conforms_named_iff hwithin).mpr (hr.reaches_root _ hwithin)
  · cases a <;> simp [ClassHierarchy.conforms]
  · rw [← hw.reaches_iff]
    exact hr.conforms_named_iff ((hin hc).contains_within hC)
  · rw [hiff ha]
    exact InheritanceGraph.conforms_named_iff_of_final fun c => eq_of_reaches_primitive hp
  · -- a descendant is a declared class too, since its path leads to one
    have hreach := hw.reaches_iff.mpr hD
    have hDin : h.contains D = true := by
      rcases Relation.ReflTransGen.cases_head hreach with rfl | ⟨p, hp, _⟩
      · exact hC
      · exact ClassHierarchy.contains_iff.mpr (.inr ⟨p, hp⟩)
    exact (hr.conforms_iff hDin (hin ha)).mpr (((hiff ha).mp hab).descend hreach)

/-- In a main class with two heirs the self type is below the main class, inside of an heir too, and the main
class is below neither the self type nor an heir. -/
theorem conformance_is_partial_order_siblings :
    let h := hierarchyOf .initial siblingClasses
    let main := SymbolTables.known .initial .main
    let abort := SymbolTables.known .initial .abort
    (checkInheritance .initial siblingClasses).isValid = true ∧
      main ∈ siblingClasses.map (·.name.symbol) ∧
      Relation.ReflTransGen (HeirOf .initial siblingClasses) abort main ∧
      h.conforms abort .selfType (.named main) = true ∧
      h.conforms main (.named main) .selfType = false ∧
      ¬ Relation.ReflTransGen (HeirOf .initial siblingClasses) main abort := by
  intro h main abort
  have hvalid : (checkInheritance .initial siblingClasses).isValid = true := by decide +kernel
  have hmain : main ∈ siblingClasses.map (·.name.symbol) := by decide +kernel
  obtain ⟨hedge, _, _, _, _, hself, _, hnamed, _, hdescend⟩ :=
    conformance_is_partial_order hvalid hmain
  have hheir : Relation.ReflTransGen (HeirOf .initial siblingClasses) abort main :=
    .single ((hedge abort main).mp (by decide +kernel))
  have hbelow : h.conforms main .selfType (.named main) = true := by decide +kernel
  refine ⟨hvalid, hmain, hheir, hdescend abort hheir .selfType (.named main) trivial hbelow, ?_, ?_⟩
  · rw [← Bool.not_eq_true, hself]
    simp
  · rw [← hnamed main abort hmain]
    decide +kernel

end CoolTypes
