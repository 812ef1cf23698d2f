import CoolTypes.Proofs.Classes.Acceptance
import CoolTypes.Proofs.Classes.Cycles
import CoolTypes.Proofs.Typing.Declarations
import CoolTypes.Proofs.Typing.Units

/-!
# The basic classes among others

The basic classes stand in front of the classes of a program, whatever these are called and do. So the check
of the inheritance relation accepts them (`BasicClass.verdicts_silent`), none of them is on a cycle
(`BasicClass.not_onCycle`), and nothing is reported about their signatures and their code
(`BasicClass.ownTable_silent`, `BasicClass.codeReports_silent`).
-/

namespace CoolTypes

theorem BasicClass.all_addClassLiterals (t : SymbolTables) :
    BasicClass.all t.addClassLiterals = BasicClass.all t := by
  simp only [BasicClass.all, BasicClass.make, BasicClass.name, BasicClass.method, BasicClass.slot,
    BasicClass.formal, CompilationUnit.known_addClassLiterals]

/-- The classes of a unit stand behind the basic classes of the tables with their names among the literals. -/
theorem CompilationUnit.classes_installBasicClasses (u : CompilationUnit) :
    u.installBasicClasses.program.classes =
      BasicClass.all u.installBasicClasses.tables ++ u.program.classes := by
  show _ = BasicClass.all u.tables.addClassLiterals ++ _
  rw [BasicClass.all_addClassLiterals]
  rfl

namespace BasicClass

variable {t : SymbolTables} {own : List Class} {c : Class}

/-! ## What the basic classes have in common -/

theorem cases_of_mem_all (hc : c ∈ all t) :
    c.name.symbol = t.known .object ∨ c.parent.symbol = t.known .object := by
  simp only [all, List.mem_cons, List.not_mem_nil, or_false] at hc
  rcases hc with rfl | rfl | rfl | rfl | rfl
  · exact .inl rfl
  · exact .inr rfl
  · exact .inr rfl
  · exact .inr rfl
  · exact .inr rfl

theorem file_of_mem_all (hc : c ∈ all t) : c.file = t.known .basicFile := by
  simp only [all, List.mem_cons, List.not_mem_nil, or_false] at hc
  rcases hc with rfl | rfl | rfl | rfl | rfl <;> rfl

theorem attributes_of_mem_all (hc : c ∈ all t) :
    ∀ b ∈ c.attributes, b.name.symbol = t.known .val ∨ b.name.symbol = t.known .strField := by
  simp only [all, List.mem_cons, List.not_mem_nil, or_false] at hc
  rcases hc with rfl | rfl | rfl | rfl | rfl <;>
    simp [make, method, slot, Class.attributes, Feature.attr?, name]

theorem slots_of_mem_all (hc : c ∈ all t) :
    ∀ b ∈ c.attributes, b.typeName.symbol = t.known .primSlot := by
  simp only [all, List.mem_cons, List.not_mem_nil, or_false] at hc
  rcases hc with rfl | rfl | rfl | rfl | rfl <;>
    simp [make, method, slot, Class.attributes, Feature.attr?, name]

theorem nodup_of_mem_all (hc : c ∈ all t) :
    (c.attributes.map (·.name.symbol)).Nodup ∧ (c.methods.map (·.name.symbol)).Nodup := by
  simp only [all, List.mem_cons, List.not_mem_nil, or_false] at hc
  rcases hc with rfl | rfl | rfl | rfl | rfl <;>
    simp [make, method, slot, Class.attributes, Class.methods, Feature.attr?, Feature.method?, name]

/-- The types in the signatures of the basic classes are basic classes, and the self type as result. -/
theorem types_of_mem_all (hc : c ∈ all t) : ∀ m ∈ c.methods,
    (∀ f ∈ m.params, f.typeName.symbol ∈ (all t).map (·.name.symbol)) ∧
      (m.returnType.symbol = t.known .selfType ∨
        m.returnType.symbol ∈ (all t).map (·.name.symbol)) := by
  have hnames : (all t).map (·.name.symbol) =
      [t.known .object, t.known .io, t.known .int, t.known .bool, t.known .string] := rfl
  rw [hnames]
  simp only [all, List.mem_cons, List.not_mem_nil, or_false] at hc
  rcases hc with rfl | rfl | rfl | rfl | rfl <;>
    simp [make, method, slot, formal, Class.methods, Feature.method?, name]

theorem object_mem_names : t.known .object ∈ (all t ++ own).map (·.name.symbol) := by
  simp [all, make, name]

/-! ## The inheritance relation -/

/-- The check of the inheritance relation finds nothing wrong with the basic classes. -/
theorem verdicts_silent {declared : List Symbol} (hobject : t.known .object ∈ declared) :
    ∀ v ∈ checkClasses t declared [] (all t), v.reports = [] := by
  have hprim : ∀ w, w = .object ∨ w = .noClass → ¬ t.IsPrimitive (t.known w) := by
    rintro w (rfl | rfl) <;> simp [SymbolTables.IsPrimitive]
  simp only [all, checkClasses, List.forall_mem_cons, checkClass_reports_eq_nil_iff]
  refine ⟨?_, ?_, ?_, ?_, ?_, List.forall_mem_nil _⟩
  · exact ⟨hprim _ (.inr rfl), List.not_mem_nil, by simp [make, name], fun h => absurd rfl h⟩
  all_goals
    exact ⟨hprim _ (.inl rfl), by simp [make, name], by simp [make, name], fun _ => hobject⟩

/-- The edge of a basic class leads to the root. -/
theorem eq_object_of_edge (hc : c ∈ all t) {p : Symbol}
    (h : (checkInheritance t (all t ++ own)).graph.get? c.name.symbol = some p) :
    p = t.known .object := by
  rw [SymbolMap.get?_eq_some_iff, graph_entries, deservedEdges, List.mem_map] at h
  obtain ⟨i, hi, heq⟩ := h
  have hi : GetsEdge t (all t ++ own) i := by simpa using List.of_mem_filter hi
  injection heq with hname hparent
  -- only the first class of a name gets an edge, so it is a basic one
  have hbasic : (all t ++ own)[i] ∈ all t := by
    obtain ⟨j, hj, rfl⟩ := List.mem_iff_getElem.mp hc
    have hle : ¬ j < i.val := fun hlt => by
      refine hi.first ⟨j, by rw [List.length_append]; omega⟩ hlt ?_
      rw [hname]
      simp [List.getElem_append_left hj]
    have hlt : i.val < (all t).length := by omega
    simp [List.getElem_append_left hlt]
  rw [← hparent]
  exact (cases_of_mem_all hbasic).resolve_left hi.notRoot

/-- Whatever classes follow them, no basic class is on a cycle. -/
theorem not_onCycle (hc : c ∈ all t) :
    ¬ (checkInheritance t (all t ++ own)).graph.OnCycle c.name.symbol := by
  intro hcycle
  obtain ⟨p, hp⟩ := hcycle.exists_edge
  have hroot := eq_object_of_edge hc hp
  exact hcycle.not_reaches graph_get?_root (.single (hroot ▸ hp))

/-! ## Signatures -/

section WellFormed

variable (hw : WellFormedHierarchy t (all t ++ own))
include hw

/-- Above a basic class there is the root only. -/
theorem object_of_inherits (hc : c ∈ all t) {x : Symbol}
    (h : Relation.TransGen (InheritsFrom t (all t ++ own)) c.name.symbol x) :
    c.name.symbol ≠ t.known .object ∧ x = t.known .object := by
  have hroot : ∀ y, ¬ InheritsFrom t (all t ++ own) (t.known .object) y := fun _ h => h.1 rfl
  have hstep : ∀ y, InheritsFrom t (all t ++ own) c.name.symbol y → y = t.known .object := by
    intro y hy
    rw [← Signatures.edge_iff hw] at hy
    exact eq_object_of_edge hc hy
  obtain ⟨y, hy, hyx⟩ := Relation.TransGen.head'_iff.mp h
  refine ⟨hy.1, ?_⟩
  rw [hstep y hy] at hyx
  rcases Relation.ReflTransGen.cases_head hyx with heq | ⟨z, hz, _⟩
  · exact heq.symm
  · exact absurd hz (hroot z)

/-- The root has no attributes, and its methods have names of their own. -/
theorem members_of_object {d : Class} (hd : d ∈ all t ++ own) (hname : d.name.symbol = t.known .object) :
    d.attributes = [] ∧ ∀ m ∈ d.methods, ∀ c ∈ all t, c.name.symbol ≠ t.known .object →
      ∀ m' ∈ c.methods, m.name.symbol ≠ m'.name.symbol := by
  have hroot : d = make t .object .noClass [method t .abort [] .object, method t .typeName [] .string,
      method t .copy [] .selfType] :=
    List.inj_on_of_nodup_map hw.names hd (List.mem_append_left _ List.mem_cons_self) hname
  rw [hroot]
  refine ⟨rfl, fun m hm c hc hne m' hm' => ?_⟩
  simp only [all, List.mem_cons, List.not_mem_nil, or_false] at hc
  rcases hc with rfl | rfl | rfl | rfl | rfl
  · exact absurd rfl hne
  all_goals
    simp [make, method, slot, Class.methods, Feature.method?, name] at hm hm'
  all_goals
    rcases hm with rfl | rfl | rfl <;> rcases hm' with rfl | rfl | rfl | rfl <;> simp

/-- The types of the methods of a basic class are declared. -/
theorem namesTypes (hc : c ∈ all t) {m : Method} (hm : m ∈ c.methods) :
    m.NamesTypes t (all t ++ own) := by
  have hdeclared : ∀ n ∈ (all t).map (·.name.symbol), n ∈ (all t ++ own).map (·.name.symbol) := by
    intro n hn
    rw [List.map_append]
    exact List.mem_append_left _ hn
  obtain ⟨hparams, hret⟩ := types_of_mem_all hc m hm
  refine ⟨fun f hf => .inr (hdeclared _ (hparams f hf)), fun f hf => ?_, hret.imp_right (hdeclared _)⟩
  obtain ⟨d, hd, hname⟩ := List.mem_map.mp (hdeclared _ (hparams f hf))
  exact hname ▸ hw.notSelfType d hd

/-- Nothing is reported about the signatures of the basic classes. -/
theorem ownTable_silent (hc : c ∈ all t) :
    let h := hierarchyOf t (all t ++ own)
    let start := Signatures.inherited ⟨t, h⟩ (Signatures.collect t h (all t ++ own)).1 c.name.symbol
    (Signatures.ownTable ⟨t, h⟩ c start).2 = [] := by
  intro h start
  have hmem : c ∈ all t ++ own := List.mem_append_left _ hc
  refine (Signatures.class_silent_iff hw hmem).mpr ⟨⟨fun b hb => ⟨.inl ?_, ?_, ?_⟩, ?_⟩,
    fun m hm => ⟨?_, fun sig hsig => ?_⟩, ?_⟩
  · exact ⟨file_of_mem_all hc, slots_of_mem_all hc b hb⟩
  · rcases attributes_of_mem_all hc b hb with hname | hname <;> simp [hname]
  · intro d hd hcd b' hb'
    obtain ⟨_, hroot⟩ := object_of_inherits hw hc hcd
    rw [(members_of_object hw hd hroot).1] at hb'
    exact absurd hb' List.not_mem_nil
  · exact (nodup_of_mem_all hc).1
  · exact namesTypes hw hc hm
  · obtain ⟨_, d, hd, hcd, m', hm', hname, _⟩ := Signatures.exists_method_of_inherited hw hmem hsig
    obtain ⟨hne, hroot⟩ := object_of_inherits hw hc hcd
    exact absurd hname ((members_of_object hw hd hroot).2 m' hm' c hc hne m hm)
  · exact (nodup_of_mem_all hc).2

end WellFormed

/-! ## Code -/

/-- Nothing is reported in the code of the basic classes. -/
theorem codeReports_silent {Γ : Setting} (hΓ : ∀ w, Γ.tables.known w = t.known w) (env : Env)
    (hc : c ∈ all t) : Γ.codeReports env c = [] := by
  have hfeatures : ∀ f ∈ c.features, Γ.featureReports c.name.symbol env f = [] := by
    simp only [all, List.mem_cons, List.not_mem_nil, or_false] at hc
    rcases hc with rfl | rfl | rfl | rfl | rfl <;>
      simp [make, method, slot, name, formal, Setting.featureReports, Setting.methodReports,
        Setting.paramReports, Setting.formalReports, Setting.bindFormal, Setting.reports,
        Setting.returnReports, Setting.initReports, Expr.isAbsent, hΓ, SymbolMap.get?_insert]
  unfold Setting.codeReports
  split
  · exact List.flatMap_eq_nil_iff.mpr hfeatures
  · rfl

end BasicClass

end CoolTypes
