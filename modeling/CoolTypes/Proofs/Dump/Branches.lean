import CoolTypes.Proofs.Dump.Labels

/-!
# Forests of rows

A forest is written down row by row, a child one level deeper than its parent. The depths of the rows tell
the forest, whatever follows above it (`Branch.rowsAll_append_cancel`).
-/

namespace CoolTypes

namespace Outline

/-- A line with what is below it. -/
inductive Branch where
  | node (label : Label) (ty : Option String) (children : List Branch)

namespace Branch

mutual

/-- The rows of a branch that stands at a depth: its own, then those of its children, one level deeper. -/
def rows (depth : Nat) : Branch → List Row
  | node l ty children => ⟨depth, l, ty⟩ :: rowsAll (depth + 1) children

/-- The rows of branches that stand at a depth, one after the other. -/
def rowsAll (depth : Nat) : List Branch → List Row
  | [] => []
  | b :: rest => rows depth b ++ rowsAll depth rest

end

theorem rowsAll_append (depth : Nat) (bs cs : List Branch) :
    rowsAll depth (bs ++ cs) = rowsAll depth bs ++ rowsAll depth cs := by
  induction bs with
  | nil => rfl
  | cons b rest ih => simp [rowsAll, ih]

@[elab_as_elim]
theorem induction {P : Branch → Prop}
    (node : ∀ l ty children, (∀ b ∈ children, P b) → P (node l ty children)) (b : Branch) : P b :=
  @Branch.rec P (fun bs => ∀ b ∈ bs, P b) node (fun _ h => absurd h List.not_mem_nil)
    (fun _ _ hb hbs => List.forall_mem_cons.mpr ⟨hb, hbs⟩) b

/-- The rows go on with one above a depth, if they go on. -/
def Leaves (depth : Nat) (rs : List Row) : Prop := ∀ r ∈ rs.head?, r.depth < depth

theorem leaves_rowsAll {depth : Nat} {rs : List Row} (h : Leaves depth rs) (bs : List Branch) :
    Leaves (depth + 1) (rowsAll depth bs ++ rs) := by
  cases bs with
  | nil => exact fun r hr => Nat.lt_trans (h r hr) (Nat.lt_succ_self depth)
  | cons b rest =>
    obtain ⟨l, ty, children⟩ := b
    simp [rowsAll, rows, Leaves]

/-- What leaves a depth does not begin with a branch at the depth. -/
theorem Leaves.ne {depth : Nat} {rs : List Row} (h : Leaves depth rs) (b : Branch) (rest : List Branch)
    (rs' : List Row) : rs ≠ rowsAll depth (b :: rest) ++ rs' := by
  obtain ⟨l, ty, children⟩ := b
  rintro rfl
  exact absurd (h ⟨depth, l, ty⟩ rfl) (Nat.lt_irrefl depth)

/-- The branch is told by its rows, whatever follows above its children. -/
def Told (b : Branch) : Prop :=
  ∀ ⦃depth b' rs rs'⦄, Leaves (depth + 1) rs → Leaves (depth + 1) rs' →
    b.rows depth ++ rs = b'.rows depth ++ rs' → b = b' ∧ rs = rs'

theorem rowsAll_append_cancel_of_told {bs bs' : List Branch} (hbs : ∀ b ∈ bs, b.Told) {depth : Nat}
    {rs rs' : List Row} (h : Leaves depth rs) (h' : Leaves depth rs')
    (heq : rowsAll depth bs ++ rs = rowsAll depth bs' ++ rs') : bs = bs' ∧ rs = rs' := by
  induction bs generalizing bs' with
  | nil =>
    cases bs' with
    | nil => exact ⟨rfl, heq⟩
    | cons b' rest' => exact absurd heq (h.ne b' rest' rs')
  | cons b rest ih =>
    rw [List.forall_mem_cons] at hbs
    cases bs' with
    | nil => exact absurd heq.symm (h'.ne b rest rs)
    | cons b' rest' =>
      rw [rowsAll, rowsAll, List.append_assoc, List.append_assoc] at heq
      obtain ⟨rfl, hrest⟩ := hbs.1 (leaves_rowsAll h rest) (leaves_rowsAll h' rest') heq
      obtain ⟨rfl, hrs⟩ := ih hbs.2 hrest
      exact ⟨rfl, hrs⟩

theorem told (b : Branch) : b.Told := by
  induction b using Branch.induction with
  | node l ty children ih =>
    intro depth b' rs rs' h h' heq
    obtain ⟨l', ty', children'⟩ := b'
    obtain ⟨hrow, hrows⟩ := List.cons.inj heq
    obtain ⟨rfl, rfl⟩ : l = l' ∧ ty = ty' := by simpa using hrow
    obtain ⟨rfl, hrs⟩ := rowsAll_append_cancel_of_told ih h h' hrows
    exact ⟨rfl, hrs⟩

/-- A forest is told by its rows, whatever follows above it. -/
theorem rowsAll_append_cancel {bs bs' : List Branch} {depth : Nat} {rs rs' : List Row}
    (h : Leaves depth rs) (h' : Leaves depth rs')
    (heq : rowsAll depth bs ++ rs = rowsAll depth bs' ++ rs') : bs = bs' ∧ rs = rs' :=
  rowsAll_append_cancel_of_told (fun b _ => b.told) h h' heq

theorem rowsAll_injective (depth : Nat) : Function.Injective (rowsAll depth) := fun bs bs' heq =>
  (rowsAll_append_cancel (fun _ h => by simp at h) (fun _ h => by simp at h)
    (congrArg (· ++ []) heq)).1

/-! ## Lines -/

/-- The lines of branches that stand at a depth. -/
def lines (depth : Nat) (bs : List Branch) : List OutlineLine := (rowsAll depth bs).map Row.line

@[simp] theorem lines_nil (depth : Nat) : lines depth [] = [] := rfl

@[simp] theorem lines_node (depth : Nat) (l : Label) (ty : Option String)
    (children rest : List Branch) : lines depth (.node l ty children :: rest) =
      Row.line ⟨depth, l, ty⟩ :: (lines (depth + 1) children ++ lines depth rest) := by
  simp [lines, rowsAll, rows]

theorem lines_append (depth : Nat) (bs cs : List Branch) :
    lines depth (bs ++ cs) = lines depth bs ++ lines depth cs := by
  rw [lines, rowsAll_append, List.map_append, lines, lines]

theorem lines_cons (depth : Nat) (b : Branch) (rest : List Branch) :
    lines depth (b :: rest) = lines depth [b] ++ lines depth rest :=
  lines_append depth [b] rest

@[simp] theorem lines_cons_cons (depth : Nat) (b c : Branch) (rest : List Branch) :
    lines depth (b :: c :: rest) = lines depth [b] ++ lines depth (c :: rest) :=
  lines_cons depth b (c :: rest)

@[simp] theorem lines_cons_map {α : Type} (depth : Nat) (b : Branch) (f : α → Branch) (l : List α) :
    lines depth (b :: l.map f) = lines depth [b] ++ lines depth (l.map f) :=
  lines_cons depth b (l.map f)

/-- Branches made one by one have their lines one after the other. -/
theorem flatten_lines {α : Type} (depth : Nat) (f : α → Branch) (l : List α) :
    (l.map fun a => lines depth [f a]).flatten = lines depth (l.map f) := by
  induction l with
  | nil => rfl
  | cons a rest ih => rw [List.map_cons, List.flatten_cons, ih, List.map_cons, ← lines_cons]

end Branch

end Outline

end CoolTypes
