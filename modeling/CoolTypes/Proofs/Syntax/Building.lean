import CoolTypes.Proofs.Syntax.Validity
import CoolTypes.Syntax.Builder

/-!
# Runs of a builder

A run of a builder calls it any number of times, each time with nodes that are there already. Every call
keeps what has been built valid and builds something valid (`Sound.call`), so whatever a run has built is
symbol-valid over the tables at its end (`Run.sound`).
-/

namespace CoolTypes

namespace Builder

/-- The file of a builder belongs to its identifier table. -/
def FileValid (b : Builder) : Prop := b.tables.Has .ids b.file

/-- From tables that have grown out of `t`, the builder only adds to its tables, and its result has the
property over the new ones. -/
def Makes {α : Type} (t : SymbolTables) (x : Build α) (P : SymbolTables → α → Prop) : Prop :=
  ∀ b : Builder, t.Le b.tables → b.FileValid → b.tables.Le (x.run b).2.tables ∧
    (x.run b).2.FileValid ∧ P (x.run b).2.tables (x.run b).1

namespace Makes

variable {α β : Type} {t : SymbolTables} {P : SymbolTables → α → Prop}
  {Q : SymbolTables → β → Prop}

theorem pure {a : α} (h : ∀ u, t.Le u → P u a) : Makes t (Pure.pure a) P :=
  fun b htb hb => ⟨.refl _, hb, h b.tables htb⟩

theorem bind {x : Build α} {f : α → Build β} (hx : Makes t x P)
    (hf : ∀ a u, t.Le u → P u a → Makes u (f a) Q) : Makes t (x >>= f) Q := by
  intro b htb hb
  obtain ⟨hgrow, hfile, ha⟩ := hx b htb hb
  obtain ⟨hgrow', hfile', hb'⟩ := hf _ _ (htb.trans hgrow) ha _ (.refl _) hfile
  exact ⟨hgrow.trans hgrow', hfile', hb'⟩

theorem map {x : Build α} (f : α → β) (hx : Makes t x P)
    (hf : ∀ a u, P u a → Q u (f a)) : Makes t (f <$> x) Q := by
  intro b htb hb
  obtain ⟨hgrow, hfile, ha⟩ := hx b htb hb
  exact ⟨hgrow, hfile, hf _ _ ha⟩

theorem here {f : Span → Build β} (hf : ∀ s, Makes t (f s) Q) : Makes t (Builder.here >>= f) Q :=
  fun b htb hb => hf b.span b htb hb

theorem get {f : Builder → Build β} (hf : ∀ b : Builder, t.Le b.tables → b.FileValid →
    Makes b.tables (f b) Q) : Makes t (MonadState.get >>= f) Q :=
  fun b htb hb => hf b htb hb b (.refl _) hb

end Makes

/-! ## What each call makes -/

variable {t : SymbolTables}

theorem symbol_valid (text : String) : Makes t (symbol text) fun u s => u.Has .ids s :=
  fun b _ hb => ⟨b.tables.le_addId text, hb.mono (b.tables.le_addId text), b.tables.has_addId text⟩

theorem literal_valid (text : String) : Makes t (literal text) fun u s => u.Has .strings s :=
  fun b _ hb =>
    ⟨b.tables.le_addString text, hb.mono (b.tables.le_addString text), b.tables.has_addString text⟩

theorem number_valid (value : Int) : Makes t (number value) fun u s => u.Has .ints s :=
  fun b _ hb =>
    ⟨b.tables.le_addInt _, hb.mono (b.tables.le_addInt _), b.tables.has_addInt (toString value)⟩

theorem name_valid (text : String) : Makes t (name text) fun u n => n.SymbolValid u :=
  (symbol_valid text).bind fun _ _ _ hs => .here fun _ => .pure fun _ huv => hs.mono huv

theorem binding_valid (n tn : String) {init : Option Expr} (hi : ∀ i ∈ init, i.SymbolValid t) :
    Makes t (binding n tn init) fun u b => b.SymbolValid u := by
  refine (name_valid n).bind fun n u htu hn => (name_valid tn).bind fun tn v huv htn => ?_
  refine .here fun s => .pure fun w hvw => ⟨hn.mono (huv.trans hvw), htn.mono hvw, fun i h => ?_⟩
  exact (hi i h).mono (htu.trans (huv.trans hvw))

theorem callOn_valid {r : Receiver} (m : String) {args : List Expr}
    (ho : ∀ o ∈ r.object?, o.SymbolValid t) (hn : ∀ n ∈ r.typeName?, n.SymbolValid t)
    (hargs : ∀ e ∈ args, e.SymbolValid t) :
    Makes t (callOn r m args) fun u e => e.SymbolValid u := by
  refine (name_valid m).bind fun m u htu hm => .here fun s => .pure fun v huv => ?_
  have htv := htu.trans huv
  exact .call (fun o h => (ho o h).mono htv) (fun n h => (hn n h).mono htv) (hm.mono huv)
    (fun e h => (hargs e h).mono htv) (by simp)

/-! ### Expressions -/

theorem int_valid (value : Int) : Makes t (int value) fun u e => e.SymbolValid u :=
  (number_valid value).bind fun _ _ _ hv => .here fun _ => .pure fun _ huv =>
    .int (hv.mono huv) (by simp)

theorem string_valid (text : String) : Makes t (string text) fun u e => e.SymbolValid u :=
  (literal_valid text).bind fun _ _ _ hv => .here fun _ => .pure fun _ huv =>
    .string (hv.mono huv) (by simp)

theorem bool_valid (value : Bool) : Makes t (bool value) fun u e => e.SymbolValid u :=
  .here fun _ => .pure fun _ _ => .bool (by simp)

theorem ident_valid (n : String) : Makes t (ident n) fun u e => e.SymbolValid u :=
  (name_valid n).bind fun _ _ _ hn => .pure fun _ huv => .ident (hn.mono huv) (by simp)

theorem absent_valid : Makes t absent fun u e => e.SymbolValid u :=
  .here fun _ => .pure fun _ _ => .absent (by simp)

theorem new_valid (tn : String) : Makes t (new tn) fun u e => e.SymbolValid u :=
  (name_valid tn).bind fun _ _ _ hn => .here fun _ => .pure fun _ huv =>
    .new (hn.mono huv) (by simp)

theorem assign_valid (n : String) {e : Expr} (he : e.SymbolValid t) :
    Makes t (assign n e) fun u e => e.SymbolValid u := by
  refine (name_valid n).bind fun n u htu hn => .here fun s => .pure fun v huv => ?_
  exact .assign (hn.mono huv) (he.mono (htu.trans huv)) (by simp)

theorem block_valid {es : List Expr} (hes : ∀ e ∈ es, e.SymbolValid t) :
    Makes t (block es) fun u e => e.SymbolValid u :=
  .here fun _ => .pure fun _ htu => .block (fun e he => (hes e he).mono htu) (by simp)

theorem cond_valid {a b c : Expr} (ha : a.SymbolValid t) (hb : b.SymbolValid t)
    (hc : c.SymbolValid t) : Makes t (cond a b c) fun u e => e.SymbolValid u :=
  .here fun _ => .pure fun _ htu => .cond (ha.mono htu) (hb.mono htu) (hc.mono htu) (by simp)

theorem loop_valid {a b : Expr} (ha : a.SymbolValid t) (hb : b.SymbolValid t) :
    Makes t (loop a b) fun u e => e.SymbolValid u :=
  .here fun _ => .pure fun _ htu => .loop (ha.mono htu) (hb.mono htu) (by simp)

theorem letIn_valid (n tn : String) {init : Option Expr} {e : Expr}
    (hi : ∀ i ∈ init, i.SymbolValid t) (he : e.SymbolValid t) :
    Makes t (letIn n tn init e) fun u e => e.SymbolValid u := by
  refine (binding_valid n tn hi).bind fun b u htu hb => .here fun s => .pure fun v huv => ?_
  have hbv := hb.mono huv
  exact .letIn hbv.name hbv.typeName hbv.init (he.mono (htu.trans huv)) (by simp)

theorem arm_valid (n tn : String) {e : Expr} (he : e.SymbolValid t) :
    Makes t (arm n tn e) fun u a => a.SymbolValid u := by
  refine (name_valid n).bind fun n u htu hn => (name_valid tn).bind fun tn v huv htn => ?_
  refine .here fun s => .pure fun w hvw => ?_
  exact ⟨hn.mono (huv.trans hvw), htn.mono hvw, he.mono (htu.trans (huv.trans hvw))⟩

theorem caseOf_valid {e : Expr} {arms : List Arm} (he : e.SymbolValid t)
    (harms : ∀ arm ∈ arms, arm.SymbolValid t) :
    Makes t (caseOf e arms) fun u e => e.SymbolValid u :=
  .here fun _ => .pure fun _ htu => .caseOf (he.mono htu) (fun a h => ((harms a h).mono htu).name)
    (fun a h => ((harms a h).mono htu).typeName) (fun a h => ((harms a h).mono htu).body) (by simp)

theorem binary_valid (op : BinaryOp) {a b : Expr} (ha : a.SymbolValid t) (hb : b.SymbolValid t) :
    Makes t (binary op a b) fun u e => e.SymbolValid u :=
  .here fun _ => .pure fun _ htu => .binary (ha.mono htu) (hb.mono htu) (by simp)

theorem unary_valid (op : UnaryOp) {a : Expr} (ha : a.SymbolValid t) :
    Makes t (unary op a) fun u e => e.SymbolValid u :=
  .here fun _ => .pure fun _ htu => .unary (ha.mono htu) (by simp)

theorem call_valid (m : String) {o : Option Expr} {args : List Expr}
    (ho : ∀ e ∈ o, e.SymbolValid t) (hargs : ∀ e ∈ args, e.SymbolValid t) :
    Makes t (call o m args) fun u e => e.SymbolValid u := by
  cases o with
  | none => exact callOn_valid m (by simp [Receiver.object?]) (by simp [Receiver.typeName?]) hargs
  | some o =>
    refine callOn_valid m ?_ (by simp [Receiver.typeName?]) hargs
    simpa [Receiver.object?] using ho o rfl

theorem staticCall_valid (tn m : String) {o : Expr} {args : List Expr} (ho : o.SymbolValid t)
    (hargs : ∀ e ∈ args, e.SymbolValid t) :
    Makes t (staticCall o tn m args) fun u e => e.SymbolValid u := by
  refine (name_valid tn).bind fun n u htu hn => callOn_valid m ?_ ?_ fun e he => (hargs e he).mono htu
  · simpa [Receiver.object?] using ho.mono htu
  · simpa [Receiver.typeName?] using hn

/-! ### Declarations -/

theorem formal_valid (n tn : String) : Makes t (formal n tn) fun u f => f.SymbolValid u := by
  refine (name_valid n).bind fun n u htu hn => (name_valid tn).bind fun tn v huv htn => ?_
  exact .here fun s => .pure fun w hvw => ⟨hn.mono (huv.trans hvw), htn.mono hvw⟩

theorem method_valid (n ret : String) {params : List Formal} {e : Expr}
    (hparams : ∀ f ∈ params, f.SymbolValid t) (he : e.SymbolValid t) :
    Makes t (method n params ret e) fun u f => f.SymbolValid u := by
  refine (name_valid n).bind fun n u htu hn => (name_valid ret).bind fun ret v huv hret => ?_
  refine .here fun s => .pure fun w hvw => ?_
  have htw := htu.trans (huv.trans hvw)
  exact ⟨Name.SymbolValid.mono hn (huv.trans hvw), fun f hf => (hparams f hf).mono htw,
    hret.mono hvw, he.mono htw⟩

theorem attribute_valid (n tn : String) {init : Option Expr}
    (hi : ∀ i ∈ init, i.SymbolValid t) :
    Makes t («attribute» n tn init) fun u f => f.SymbolValid u :=
  (binding_valid n tn hi).bind fun _ _ _ hb => .pure fun _ huv => Binding.SymbolValid.mono hb huv

theorem class_valid (n parent : String) {features : List Feature}
    (hfeatures : ∀ f ∈ features, f.SymbolValid t) :
    Makes t («class» n parent features) fun u c => c.SymbolValid u := by
  refine (name_valid n).bind fun n u htu hn => (name_valid parent).bind fun p v huv hp => ?_
  refine .get fun b hvb hfile => .here fun s => .pure fun w hbw => ?_
  have hvw := hvb.trans hbw
  exact ⟨hn.mono (huv.trans hvw), hp.mono hvw, hfile.mono hbw,
    fun f hf => (hfeatures f hf).mono (htu.trans (huv.trans hvw))⟩

theorem program_valid {classes : List Class} (h : ∀ c ∈ classes, c.SymbolValid t) :
    Makes t (program classes) fun u p => p.SymbolValid u :=
  .here fun _ => .pure fun _ htu c hc => (h c hc).mono htu

end Builder

/-- Something that a builder hands out. -/
inductive BuiltNode where
  | symbol (s : Symbol)
  | name (n : Name)
  | expr (e : Expr)
  | arm (a : Arm)
  | formal (f : Formal)
  | feature (f : Feature)
  | «class» (c : Class)
  | program (p : Program)

/-- All symbols of a node belong to their tables. -/
def BuiltNode.SymbolValid (t : SymbolTables) : BuiltNode → Prop
  | symbol s => t.Has .ids s
  | name n => n.SymbolValid t
  | expr e => e.SymbolValid t
  | arm a => a.SymbolValid t
  | formal f => f.SymbolValid t
  | feature f => f.SymbolValid t
  | «class» c => c.SymbolValid t
  | program p => p.SymbolValid t

theorem BuiltNode.SymbolValid.mono {t u : SymbolTables} {n : BuiltNode} (h : n.SymbolValid t)
    (htu : t.Le u) : n.SymbolValid u := by
  cases n with
  | symbol s => exact SymbolTables.Has.mono h htu
  | name n => exact Name.SymbolValid.mono h htu
  | expr e => exact Expr.SymbolValid.mono h htu
  | arm a => exact Arm.SymbolValid.mono h htu
  | formal f => exact Formal.SymbolValid.mono h htu
  | feature f => exact Feature.SymbolValid.mono h htu
  | «class» c => exact Class.SymbolValid.mono h htu
  | program p => exact Program.SymbolValid.mono h htu

namespace Builder

/-- A call of a builder over nodes that have been built. -/
inductive Call (built : BuiltNode → Prop) : Build BuiltNode → Prop where
  | symbol (text) : Call built (.symbol <$> symbol text)
  | name (text) : Call built (.name <$> name text)
  | int (value) : Call built (.expr <$> int value)
  | string (text) : Call built (.expr <$> string text)
  | bool (value) : Call built (.expr <$> bool value)
  | ident (n) : Call built (.expr <$> ident n)
  | absent : Call built (.expr <$> absent)
  | new (tn) : Call built (.expr <$> new tn)
  | assign (n) {e} : built (.expr e) → Call built (.expr <$> assign n e)
  | block {es} : (∀ e ∈ es, built (.expr e)) → Call built (.expr <$> block es)
  | cond {a b c} : built (.expr a) → built (.expr b) → built (.expr c) →
      Call built (.expr <$> cond a b c)
  | loop {a b} : built (.expr a) → built (.expr b) → Call built (.expr <$> loop a b)
  | letIn (n tn) {init e} : (∀ i ∈ init, built (.expr i)) → built (.expr e) →
      Call built (.expr <$> letIn n tn init e)
  | caseOf {e arms} : built (.expr e) → (∀ a ∈ arms, built (.arm a)) →
      Call built (.expr <$> caseOf e arms)
  | arm (n tn) {e} : built (.expr e) → Call built (.arm <$> arm n tn e)
  | binary (op) {a b} : built (.expr a) → built (.expr b) → Call built (.expr <$> binary op a b)
  | unary (op) {a} : built (.expr a) → Call built (.expr <$> unary op a)
  | call (m) {o args} : (∀ e ∈ o, built (.expr e)) → (∀ e ∈ args, built (.expr e)) →
      Call built (.expr <$> call o m args)
  | staticCall (tn m) {o args} : built (.expr o) → (∀ e ∈ args, built (.expr e)) →
      Call built (.expr <$> staticCall o tn m args)
  | formal (n tn) : Call built (.formal <$> formal n tn)
  | method (n ret) {params e} : (∀ f ∈ params, built (.formal f)) → built (.expr e) →
      Call built (.feature <$> method n params ret e)
  | attribute (n tn) {init} : (∀ i ∈ init, built (.expr i)) →
      Call built (.feature <$> «attribute» n tn init)
  | «class» (n parent) {features} : (∀ f ∈ features, built (.feature f)) →
      Call built (.class <$> «class» n parent features)
  | program {classes} : (∀ c ∈ classes, built (.class c)) →
      Call built (.program <$> program classes)

variable {t : SymbolTables}

theorem Makes.node {α : Type} {x : Build α} {f : α → BuiltNode}
    (h : Makes t x fun u a => (f a).SymbolValid u) : Makes t (f <$> x) fun u n => n.SymbolValid u :=
  h.map f fun _ _ ha => ha

theorem Call.makes {built : BuiltNode → Prop} {x : Build BuiltNode} (h : Call built x)
    (hbuilt : ∀ n, built n → n.SymbolValid t) : Makes t x fun u n => n.SymbolValid u := by
  have hexprs : ∀ {es : List Expr}, (∀ e ∈ es, built (.expr e)) → ∀ e ∈ es, e.SymbolValid t :=
    fun h e he => hbuilt _ (h e he)
  have hinit : ∀ {i : Option Expr}, (∀ e ∈ i, built (.expr e)) → ∀ e ∈ i, e.SymbolValid t :=
    fun h e he => hbuilt _ (h e he)
  cases h with
  | symbol text => exact (symbol_valid text).node
  | name text => exact (name_valid text).node
  | int value => exact (int_valid value).node
  | string text => exact (string_valid text).node
  | bool value => exact (bool_valid value).node
  | ident n => exact (ident_valid n).node
  | absent => exact absent_valid.node
  | new tn => exact (new_valid tn).node
  | assign n he => exact (assign_valid n (hbuilt _ he)).node
  | block hes => exact (block_valid (hexprs hes)).node
  | cond ha hb hc =>
    exact (cond_valid (hbuilt _ ha) (hbuilt _ hb) (hbuilt _ hc)).node
  | loop ha hb => exact (loop_valid (hbuilt _ ha) (hbuilt _ hb)).node
  | letIn n tn hi he => exact (letIn_valid n tn (hinit hi) (hbuilt _ he)).node
  | caseOf he harms =>
    exact (caseOf_valid (hbuilt _ he) fun a h => hbuilt _ (harms a h)).node
  | arm n tn he => exact (arm_valid n tn (hbuilt _ he)).node
  | binary op ha hb => exact (binary_valid op (hbuilt _ ha) (hbuilt _ hb)).node
  | unary op ha => exact (unary_valid op (hbuilt _ ha)).node
  | call m ho hargs => exact (call_valid m (hinit ho) (hexprs hargs)).node
  | staticCall tn m ho hargs =>
    exact (staticCall_valid tn m (hbuilt _ ho) (hexprs hargs)).node
  | formal n tn => exact (formal_valid n tn).node
  | method n ret hparams he =>
    exact (method_valid n ret (fun f h => hbuilt _ (hparams f h)) (hbuilt _ he)).node
  | «attribute» n tn hi => exact (attribute_valid n tn (hinit hi)).node
  | «class» n parent hfs =>
    exact (class_valid n parent fun f h => hbuilt _ (hfs f h)).node
  | program hcs => exact (program_valid fun c h => hbuilt _ (hcs c h)).node

/-! ## Runs -/

/-- A builder that comes from tables by a sequence of calls, and what it has built. Another builder can
take over the tables. -/
inductive Run (t : SymbolTables) : Builder → List BuiltNode → Prop where
  | start (file) : Run t (.start t file) []
  | restart {b nodes} (file) : Run t b nodes → Run t (.start b.tables file) nodes
  | moveTo {b nodes} (line col) : Run t b nodes → Run t ((moveTo line col).run b).2 nodes
  | call {b nodes x} : Run t b nodes → Call (· ∈ nodes) x →
      Run t (x.run b).2 ((x.run b).1 :: nodes)

/-- Everything that has been built is valid over the tables. -/
structure Sound (b : Builder) (nodes : List BuiltNode) : Prop where
  file : b.FileValid
  nodes : ∀ n ∈ nodes, n.SymbolValid b.tables

theorem Sound.start (t : SymbolTables) (file : String) : Sound (.start t file) [] :=
  ⟨t.has_addId file, List.forall_mem_nil _⟩

theorem Sound.restart {b : Builder} {nodes : List BuiltNode} (h : Sound b nodes) (file : String) :
    Sound (.start b.tables file) nodes :=
  ⟨b.tables.has_addId file, fun n hn => (h.nodes n hn).mono (b.tables.le_addId file)⟩

theorem Sound.call {b : Builder} {nodes : List BuiltNode} (h : Sound b nodes)
    {x : Build BuiltNode} (hx : Call (· ∈ nodes) x) :
    Sound (x.run b).2 ((x.run b).1 :: nodes) := by
  obtain ⟨hgrow, hfile, hnew⟩ := hx.makes h.nodes b (.refl _) h.file
  exact ⟨hfile, List.forall_mem_cons.mpr ⟨hnew, fun n hn => (h.nodes n hn).mono hgrow⟩⟩

theorem Run.sound {b : Builder} {nodes : List BuiltNode} (h : Run t b nodes) : Sound b nodes := by
  induction h with
  | start file => exact .start t file
  | restart file _ ih => exact ih.restart file
  | moveTo line col _ ih => exact ⟨ih.file, ih.nodes⟩
  | call _ hx ih => exact ih.call hx

end Builder

end CoolTypes
