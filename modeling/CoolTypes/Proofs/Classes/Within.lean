import CoolTypes.Proofs.Classes.Inherited
import CoolTypes.Proofs.Syntax.TypeNames

/-!
# Classes that signatures come to

If the root, all parents and all type names of the declarations are among some classes, then so are the
ancestors of these classes, their common ancestors, and the types in the signatures that are collected
(`collect_within`), whether or not the classes form a well-formed hierarchy.
-/

namespace CoolTypes

variable {S : Symbol → Prop}

/-- The root and all parents are among some classes. -/
structure ClassHierarchy.Within (S : Symbol → Prop) (h : ClassHierarchy) : Prop where
  root : S h.root
  parent : ∀ c p, h.graph.get? c = some p → S p

namespace ClassHierarchy.Within

variable {h : ClassHierarchy}

theorem ancestors (hh : h.Within S) {c : Symbol} (hc : S c) : ∀ d ∈ h.ancestors c, S d := by
  unfold ClassHierarchy.ancestors
  generalize h.graph.size = fuel
  induction fuel generalizing c with
  | zero => simpa [InheritanceGraph.chain] using hc
  | succ fuel ih =>
    unfold InheritanceGraph.chain
    cases hp : h.graph.get? c with
    | none => simpa using hc
    | some p => exact List.forall_mem_cons.mpr ⟨hc, ih (hh.parent c p hp)⟩

/-- The least common ancestor is an ancestor or the root. -/
theorem join (hh : h.Within S) {C : Symbol} {a b : Ty} (ha : S (a.within C)) :
    S (h.join C a b) := by
  unfold ClassHierarchy.join
  dsimp only
  split
  · exact ha
  · obtain ⟨p, hp, _, hlast, _⟩ := exists_prefix_lastCommon
      (h.ancestors (a.within C)).reverse (h.ancestors (b.within C)).reverse
    rw [hlast]
    cases hj : p.getLast? with
    | none => exact hh.root
    | some j =>
      have hmem := hp.subset (List.mem_of_getLast? hj)
      exact hh.ancestors ha j (List.mem_reverse.mp hmem)

theorem joinAll? (hh : h.Within S) {C : Symbol} {tys : List Ty}
    (htys : ∀ ty ∈ tys, S (ty.within C)) : ∀ j ∈ h.joinAll? C tys, S j := by
  cases tys with
  | nil => simp [ClassHierarchy.joinAll?]
  | cons ty rest =>
    intro j hj
    cases hj
    exact List.foldlRecOn rest _ (htys ty List.mem_cons_self) fun c hc _ _ =>
      hh.join (a := .named c) hc

end ClassHierarchy.Within

/-- Every parent in the hierarchy of some classes is the parent of one of them. -/
theorem hierarchyOf_within {t : SymbolTables} {classes : List Class}
    (hroot : S (t.known .object)) (hclasses : ∀ c ∈ classes, c.TypesIn S) :
    (hierarchyOf t classes).Within S := by
  refine ⟨hroot, fun c p hp => ?_⟩
  obtain ⟨d, hd, _, rfl⟩ := (soundEdge_of_get? hp).parentOf
  exact (hclasses d hd).parent

/-- The types of a method signature and the class that defines it are among some classes. -/
structure MethodSig.In (S : Symbol → Prop) (sig : MethodSig) : Prop where
  params : ∀ ty ∈ sig.params, ty.In S
  ret : sig.ret.In S
  definedIn : S sig.definedIn

/-- The types and classes of the entries of a table are among some classes. -/
structure ClassTable.In (S : Symbol → Prop) (tab : ClassTable) : Prop where
  methods : ∀ n sig, tab.methods.get? n = some sig → sig.In S
  attrs : ∀ n a, tab.attrs.get? n = some a → a.ty.In S

theorem ClassTable.In.empty : ClassTable.In S {} :=
  ⟨fun _ _ h => absurd h (by simp), fun _ _ h => absurd h (by simp)⟩

namespace Signatures

variable {Γ : Ground} (hroot : S Γ.hierarchy.root)

include hroot

/-! ## One declaration -/

theorem declaredType_in {n : Name} (hn : S n.symbol) : (declaredType Γ n).1.In S := by
  unfold declaredType
  split
  · trivial
  · split
    · exact hn
    · exact hroot

theorem paramType_in {n : Name} (hn : S n.symbol) : (paramType Γ n).1.In S := by
  have hty := declaredType_in hroot hn
  unfold paramType
  cases heq : declaredType Γ n with
  | mk ty rs =>
    rw [heq] at hty
    cases ty with
    | named c => exact hty
    | selfType => exact hroot

theorem attrType_in (basic : Bool) {n : Name} (hn : S n.symbol) : (attrType Γ basic n).1.In S := by
  unfold attrType
  split
  · exact hn
  · exact declaredType_in hroot hn

theorem methodSig_in {c : Symbol} (hc : S c) {m : Method} (hm : m.TypesIn S) :
    (methodSig Γ c m).1.In S := by
  refine ⟨fun ty hty => ?_, declaredType_in hroot hm.returnType, hc⟩
  simp only [methodSig, List.map_map] at hty
  obtain ⟨f, hf, rfl⟩ := List.mem_map.mp hty
  exact paramType_in hroot (hm.params f hf)

/-! ## One class -/

theorem addAttr_in {c : Symbol} {basic : Bool} {acc : Collected} (hacc : acc.1.In S) {b : Binding}
    (hb : b.TypesIn S) : (addAttr Γ c basic acc b).1.In S := by
  refine ⟨fun n sig h => ?_, fun n a h => ?_⟩
  · rw [methods_addAttr] at h
    exact hacc.methods n sig h
  · rcases attrs_addAttr.2 a h with h | ⟨_, rfl⟩
    · exact hacc.attrs n a h
    · exact attrType_in hroot basic hb.typeName

theorem addMethod_in {c : Symbol} (hc : S c) {acc : Collected} (hacc : acc.1.In S) {m : Method}
    (hm : m.TypesIn S) : (addMethod Γ c acc m).1.In S := by
  rcases addMethod_cases Γ c acc m with ⟨_, _, _, htable⟩ | ⟨_, htable⟩
  · rw [htable]
    exact hacc
  · rw [htable]
    refine ⟨fun n sig h => ?_, hacc.attrs⟩
    rcases SymbolMap.get?_insert_cases h with h | ⟨_, rfl⟩
    · exact hacc.methods n sig h
    · exact methodSig_in hroot hc hm

theorem ownTable_in {c : Class} (hc : c.TypesIn S) {start : ClassTable} (hstart : start.In S) :
    (ownTable Γ c start).1.In S := by
  have hattrs := List.foldlRecOn (motive := fun acc : Collected => acc.1.In S) c.attributes
    (addAttr Γ c.name.symbol (c.file == Γ.tables.known .basicFile)) (b := (start, [])) hstart
    fun acc hacc b hb => addAttr_in hroot hacc (hc.attributes b hb)
  exact List.foldlRecOn (motive := fun acc : Collected => acc.1.In S) c.methods
    (addMethod Γ c.name.symbol) hattrs
    fun acc hacc m hm => addMethod_in hroot hc.name hacc (hc.methods m hm)

/-! ## All classes -/

omit hroot in
theorem inherited_in {s : Signatures} (hs : ∀ c tab, s.get? c = some tab → tab.In S) (c : Symbol) :
    (inherited Γ s c).In S := by
  unfold inherited
  split
  · exact .empty
  · next p _ =>
    have hparent : ((s.get? p).getD {}).In S := by
      cases htab : s.get? p with
      | none => exact .empty
      | some tab => exact hs p tab htab
    exact ⟨hparent.methods, hparent.attrs⟩

theorem addClass_in {acc : Signatures × List Report}
    (hacc : ∀ c tab, acc.1.get? c = some tab → tab.In S) {c : Class} (hc : c.TypesIn S) :
    ∀ d tab, (addClass Γ acc c).1.get? d = some tab → tab.In S := by
  intro d tab htab
  cases hnew : acc.1.contains c.name.symbol with
  | true =>
    rw [addClass, if_pos hnew] at htab
    exact hacc d tab htab
  | false =>
    rw [addClass_eq hnew] at htab
    rcases SymbolMap.get?_insert_cases htab with h | ⟨_, rfl⟩
    · exact hacc d tab h
    · exact ownTable_in hroot hc (inherited_in hacc _)

omit hroot in
/-- The tables of classes whose type names are among some classes. -/
theorem collect_within {t : SymbolTables} {h : ClassHierarchy} (hroot : S h.root)
    {classes : List Class} (hclasses : ∀ c ∈ classes, c.TypesIn S) :
    ∀ c tab, (collect t h classes).1.get? c = some tab → tab.In S := by
  refine List.foldlRecOn (motive := fun acc : Signatures × List Report =>
    ∀ c tab, acc.1.get? c = some tab → tab.In S) _ (addClass ⟨t, h⟩)
    (fun _ _ h => absurd h (by simp [get?])) fun acc hacc c hc => ?_
  obtain ⟨_, _, hc⟩ := List.mem_flatMap.mp hc
  have hmem : c ∈ classes := List.mem_of_mem_filter (List.mem_of_mem_filter hc)
  exact addClass_in (Γ := ⟨t, h⟩) hroot hacc (hclasses c hmem)

end Signatures

end CoolTypes
