import FormulaTree.Proofs.Tree.Equality

/-!
# Completed trees

A formula cannot say everything that a tree can: operands in excess are not written, and a ternary
always has a default, which is the empty text where none is written.  The **completion** of a tree
has each operation's operands cut to the greatest number its operator takes, and the empty text as
the third operand of every ternary with two.  Canonical trees are complete (`completed_eq_self`).

`Tree.depth` is the number of nodes on the longest way from the root to a leaf; completion never
makes a tree deeper.
-/

namespace FormulaTree

/-- The operands of an operation, with the empty text for an absent default. -/
def Operator.fill : Operator → List Tree → List Tree
  | .ternary, [test, result] => [test, result, .text ""]
  | _, operands => operands

lemma Operator.fill_of_ne {op : Operator} (h : op ≠ .ternary) (ts : List Tree) :
    op.fill ts = ts := by
  unfold fill
  split
  · exact absurd rfl h
  · rfl

lemma Operator.fill_of_length {op : Operator} {ts : List Tree}
    (h : op = .ternary → ts.length = 3) : op.fill ts = ts := by
  unfold fill
  split
  · exact absurd (h rfl) (by simp)
  · rfl

namespace Arity

lemma clip_map {α β : Type} (a : Arity) (f : α → β) (xs : List α) :
    a.clip (xs.map f) = (a.clip xs).map f := by
  unfold clip
  split
  · rfl
  · exact List.map_take.symm

lemma clip_subset {α : Type} (a : Arity) (xs : List α) : a.clip xs ⊆ xs := by
  unfold clip
  split
  · exact List.Subset.refl xs
  · exact List.take_subset _ xs

lemma clip_of_admits {α : Type} {a : Arity} {xs : List α} (h : a.admits xs.length = true) :
    a.clip xs = xs := by
  unfold clip
  unfold admits at h
  cases hmax : a.max? with
  | none => rfl
  | some max =>
    rw [hmax, Bool.and_eq_true, decide_eq_true_iff, decide_eq_true_iff] at h
    exact List.take_of_length_le h.2

lemma admits_exactly {n count : Nat} : (exactly n).admits count = true ↔ count = n := by
  rw [admits, Bool.and_eq_true, decide_eq_true_iff]
  dsimp only [exactly]
  rw [decide_eq_true_iff]
  omega

/-- Enough elements stay enough. -/
lemma admits_length_clip {α : Type} {op : Operator} {xs : List α}
    (h : op.arity.min ≤ xs.length) : op.arity.admits (op.arity.clip xs).length = true := by
  cases op <;> simp_all [Operator.arity, admits, clip, atLeast, between, exactly]

end Arity

namespace Tree

mutual

/-- The tree without operands in excess and with every default. -/
def completed : Tree → Tree
  | .operation op operands => .operation op (op.fill (op.arity.clip (completeds operands)))
  | t => t

/-- The completions of the trees of a list. -/
def completeds : List Tree → List Tree
  | [] => []
  | t :: ts => completed t :: completeds ts

end

mutual

/-- The number of nodes on the longest way from the root to a leaf. -/
def depth : Tree → Nat
  | .operation _ operands => 1 + depths operands
  | _ => 1

/-- The depth of the deepest tree of a list. -/
def depths : List Tree → Nat
  | [] => 0
  | t :: ts => max (depth t) (depths ts)

end

lemma completeds_eq_map (ts : List Tree) : completeds ts = ts.map completed := by
  induction ts with
  | nil => rfl
  | cons t ts ih => rw [completeds, ih, List.map_cons]

/-- The default of a ternary, given its operands after the second. -/
def alternate : List Tree → Tree
  | [] => .text ""
  | t :: _ => t.completed

/-- The completion of a ternary. -/
lemma completed_ternary (test result : Tree) (rest : List Tree) :
    (operation .ternary (test :: result :: rest)).completed =
      .operation .ternary [test.completed, result.completed, alternate rest] := by
  cases rest <;> rfl

/-! ## Completion and equality -/

lemma fill_normals (op : Operator) (ts : List Tree) :
    op.fill (normals ts) = normals (op.fill ts) := by
  by_cases hop : op = .ternary
  · subst hop
    match ts with
    | [] | [_] | [_, _] | _ :: _ :: _ :: _ => rfl
  · rw [Operator.fill_of_ne hop, Operator.fill_of_ne hop]

mutual

lemma completed_normal : ∀ t : Tree, t.normal.completed = t.completed.normal
  | .text _ | .number _ | .boolean _ | .field _ => rfl
  | .operation op operands => by
    rw [normal, completed, completed, normal, completeds_normals operands, normals_eq_map,
      Arity.clip_map, ← normals_eq_map, fill_normals]

lemma completeds_normals : ∀ ts : List Tree, completeds (normals ts) = normals (completeds ts)
  | [] => rfl
  | t :: ts => by
    rw [normals, completeds, completeds, normals, completed_normal t, completeds_normals ts]

end

/-- Equal trees have equal completions. -/
lemma completed_normal_eq {t u : Tree} (h : t.normal = u.normal) :
    t.completed.normal = u.completed.normal := by
  rw [← completed_normal, h, completed_normal]

/-! ## Finite and canonical trees -/

lemma areFinite_fill {op : Operator} {ts : List Tree} (h : areFinite ts = true) :
    areFinite (op.fill ts) = true := by
  unfold Operator.fill
  split
  · simp_all [areFinite, isFinite]
  · exact h

mutual

lemma isFinite_completed : ∀ {t : Tree}, t.isFinite = true → t.completed.isFinite = true
  | .text _, h | .number _, h | .boolean _, h | .field _, h => h
  | .operation op operands, h => by
    have hoperands := areFinite_completeds h
    refine areFinite_fill (areFinite_iff.2 fun t ht => ?_)
    exact areFinite_iff.1 hoperands t (Arity.clip_subset _ _ ht)

lemma areFinite_completeds : ∀ {ts : List Tree}, areFinite ts = true →
    areFinite (completeds ts) = true
  | [], _ => rfl
  | t :: ts, h => by
    rw [areFinite, Bool.and_eq_true] at h
    rw [completeds, areFinite, isFinite_completed h.1, areFinite_completeds h.2]
    rfl

end

mutual

theorem completed_eq_self : ∀ {t : Tree}, t.isCanonical = true → t.completed = t
  | .text _, _ | .number _, _ | .boolean _, _ | .field _, _ => rfl
  | .operation op operands, h => by
    obtain ⟨⟨hadmits, hternary⟩, hoperands⟩ := isCanonical_operation.1 h
    rw [completed, completeds_eq_self hoperands, Arity.clip_of_admits hadmits,
      Operator.fill_of_length hternary]

lemma completeds_eq_self : ∀ {ts : List Tree}, (∀ t ∈ ts, t.isCanonical = true) →
    completeds ts = ts
  | [], _ => rfl
  | t :: ts, h => by
    rw [List.forall_mem_cons] at h
    rw [completeds, completed_eq_self h.1, completeds_eq_self h.2]

end

/-! ## Depth -/

lemma depth_pos (t : Tree) : 1 ≤ t.depth := by
  cases t <;> simp [depth]

lemma depths_le_iff {ts : List Tree} {bound : Nat} :
    depths ts ≤ bound ↔ ∀ t ∈ ts, t.depth ≤ bound := by
  induction ts with
  | nil => simp [depths]
  | cons t ts ih => rw [depths, Nat.max_le, ih, List.forall_mem_cons]

lemma depths_fill (op : Operator) (ts : List Tree) : depths (op.fill ts) = depths ts := by
  unfold Operator.fill
  split
  · rename_i test result
    have hpos := depth_pos test
    simp only [depths, depth]
    omega
  · rfl

mutual

lemma depth_completed_le : ∀ t : Tree, t.completed.depth ≤ t.depth
  | .text _ | .number _ | .boolean _ | .field _ => Nat.le_refl _
  | .operation op operands => by
    have hoperands := depths_completeds_le operands
    rw [completed, depth, depth, depths_fill]
    refine Nat.add_le_add_left (depths_le_iff.2 fun t ht => ?_) 1
    exact Nat.le_trans (depths_le_iff.1 (Nat.le_refl _) t (Arity.clip_subset _ _ ht)) hoperands

lemma depths_completeds_le : ∀ ts : List Tree, depths (completeds ts) ≤ depths ts
  | [] => Nat.le_refl _
  | t :: ts => by
    have hfirst := depth_completed_le t
    have hothers := depths_completeds_le ts
    rw [completeds, depths, depths]
    omega

end

end Tree

end FormulaTree
