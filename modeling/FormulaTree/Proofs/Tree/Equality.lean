import FormulaTree.Proofs.Number.Written
import FormulaTree.Proofs.Tree.Shape

/-!
# Equality of trees

`Tree.beq` compares numbers by value, so that zero equals negative zero and what is not a number
equals nothing.  The **normal form** of a tree is the same tree with no negative zero in it.  Equal
trees have the same normal form (`normal_eq_of_beq`), and trees of finite numbers with the same
normal form are equal (`beq_of_normal_eq`).  Facts on equality therefore become facts on `=`.
-/

namespace FormulaTree

/-! ## Numbers -/

namespace Number

/-- The number, or zero if it is negative zero. -/
def normal : Number → Number
  | .finite negative m => .finite (isBelowZero negative m) m
  | n => n

theorem normal_eq_of_beq {m n : Number} (h : m.beq n = true) : m.normal = n.normal := by
  cases m <;> cases n <;> simp only [beq, Bool.and_eq_true, Bool.or_eq_true, beq_iff_eq] at h
  case finite.finite s m t n =>
    obtain ⟨⟨hsignificand, hexponent⟩, hsign⟩ := h
    obtain rfl : m = n := by
      cases m
      cases n
      simp_all
    rcases hsign with rfl | hzero
    · rfl
    · simp [normal, isBelowZero, hzero]
  case infinite.infinite => rw [h]
  all_goals cases h

theorem beq_of_normal_eq {m n : Number} (hfinite : m.isFinite = true)
    (h : m.normal = n.normal) : m.beq n = true := by
  cases m with
  | finite s m =>
    cases n with
    | finite t n =>
      obtain ⟨hsign, rfl⟩ := Number.finite.inj h
      simp only [isBelowZero] at hsign
      simp only [beq, Bool.and_eq_true, Bool.or_eq_true, beq_iff_eq, true_and]
      by_cases hzero : m.significand = 0
      · exact .inr hzero
      · rw [bne_iff_ne.2 hzero, Bool.and_true, Bool.and_true] at hsign
        exact .inl hsign
    | infinite | notANumber => cases h
  | infinite | notANumber => cases hfinite

lemma normal_normal (n : Number) : n.normal.normal = n.normal := by
  cases n with
  | finite negative m =>
    rw [normal, normal, isBelowZero, isBelowZero, Bool.and_assoc, Bool.and_self]
  | infinite | notANumber => rfl

lemma isFinite_normal (n : Number) : n.normal.isFinite = n.isFinite := by
  cases n <;> rfl

/-- Equality does not tell a number from its normal form. -/
lemma beq_normal (m n : Number) : m.normal.beq n.normal = m.beq n := by
  cases m with
  | finite s m =>
    cases n with
    | finite t n =>
      simp only [normal, beq, isBelowZero]
      by_cases hsame : m.significand = n.significand
      · by_cases hzero : n.significand = 0
        · simp [hsame, hzero]
        · rw [hsame, bne_iff_ne.2 hzero, Bool.and_true, Bool.and_true]
      · simp only [beq_eq_false_iff_ne.2 hsame, Bool.false_and]
    | infinite | notANumber => rfl
  | infinite | notANumber => cases n <;> rfl

/-- A number equals itself if it is one. -/
lemma beq_self {n : Number} (h : n ≠ .notANumber) : n.beq n = true := by
  cases n with
  | finite => simp [beq]
  | infinite => simp [beq]
  | notANumber => exact absurd rfl h

end Number

/-! ## Trees -/

namespace Tree

mutual

/-- The tree with zero for negative zero. -/
def normal : Tree → Tree
  | .number n => .number n.normal
  | .operation op operands => .operation op (normals operands)
  | t => t

/-- The trees with zero for negative zero. -/
def normals : List Tree → List Tree
  | [] => []
  | t :: ts => normal t :: normals ts

end

lemma normals_eq_map (ts : List Tree) : normals ts = ts.map normal := by
  induction ts with
  | nil => rfl
  | cons t ts ih => rw [normals, ih, List.map_cons]

mutual

theorem normal_eq_of_beq : ∀ {t u : Tree}, t.beq u = true → t.normal = u.normal
  | .text _, .text _, h => by rw [eq_of_beq (show (_ == _) = true from h)]
  | .number _, .number _, h => by rw [normal, normal, Number.normal_eq_of_beq h]
  | .boolean _, .boolean _, h => by rw [eq_of_beq (show (_ == _) = true from h)]
  | .field _, .field _, h => by rw [eq_of_beq (show (_ == _) = true from h)]
  | .operation f ts, .operation g us, h => by
    rw [beq, Bool.and_eq_true, beq_iff_eq] at h
    rw [normal, normal, h.1, normals_eq_of_beqs h.2]

lemma normals_eq_of_beqs : ∀ {ts us : List Tree}, beqs ts us = true → normals ts = normals us
  | [], [], _ => rfl
  | t :: ts, u :: us, h => by
    rw [beqs, Bool.and_eq_true] at h
    rw [normals, normals, normal_eq_of_beq h.1, normals_eq_of_beqs h.2]

end

mutual

theorem beq_of_normal_eq : ∀ {t u : Tree}, t.isFinite = true → t.normal = u.normal →
    t.beq u = true
  | .text s, .text _, _, h => by
    obtain rfl := Tree.text.inj h
    exact beq_self_eq_true s
  | .number _, .number _, hfinite, h => Number.beq_of_normal_eq hfinite (Tree.number.inj h)
  | .boolean b, .boolean _, _, h => by
    obtain rfl := Tree.boolean.inj h
    exact beq_self_eq_true b
  | .field f, .field _, _, h => by
    obtain rfl := Tree.field.inj h
    exact beq_self_eq_true f
  | .operation f ts, .operation g us, hfinite, h => by
    obtain ⟨rfl, hoperands⟩ := Tree.operation.inj h
    rw [beq, beq_self_eq_true, Bool.true_and]
    exact beqs_of_normals_eq hfinite hoperands

lemma beqs_of_normals_eq : ∀ {ts us : List Tree}, areFinite ts = true →
    normals ts = normals us → beqs ts us = true
  | [], [], _, _ => rfl
  | t :: ts, u :: us, hfinite, h => by
    rw [areFinite, Bool.and_eq_true] at hfinite
    obtain ⟨hfirst, hothers⟩ := List.cons.inj h
    rw [beqs, beq_of_normal_eq hfinite.1 hfirst, beqs_of_normals_eq hfinite.2 hothers]
    rfl

end

mutual

/-- A tree in which every number is one equals itself. -/
lemma beq_self : ∀ {t : Tree}, t.isNumeric = true → t.beq t = true
  | .text s, _ => beq_self_eq_true s
  | .boolean b, _ => beq_self_eq_true b
  | .field f, _ => beq_self_eq_true f
  | .number n, h => Number.beq_self (by rintro rfl; cases h)
  | .operation op operands, h => by
    rw [beq, beq_self_eq_true, Bool.true_and]
    exact beqs_self h

lemma beqs_self : ∀ {ts : List Tree}, areNumeric ts = true → beqs ts ts = true
  | [], _ => rfl
  | t :: ts, h => by
    rw [areNumeric, Bool.and_eq_true] at h
    rw [beqs, beq_self h.1, beqs_self h.2]
    rfl

end

mutual

lemma normal_normal : ∀ t : Tree, t.normal.normal = t.normal
  | .text _ | .boolean _ | .field _ => rfl
  | .number n => by rw [normal, normal, Number.normal_normal]
  | .operation op operands => by rw [normal, normal, normals_normals operands]

lemma normals_normals : ∀ ts : List Tree, normals (normals ts) = normals ts
  | [] => rfl
  | t :: ts => by rw [normals, normals, normal_normal t, normals_normals ts]

end

mutual

lemma isFinite_normal : ∀ t : Tree, t.normal.isFinite = t.isFinite
  | .text _ | .boolean _ | .field _ => rfl
  | .number n => Number.isFinite_normal n
  | .operation _ operands => areFinite_normals operands

lemma areFinite_normals : ∀ ts : List Tree, areFinite (normals ts) = areFinite ts
  | [] => rfl
  | t :: ts => by rw [normals, areFinite, areFinite, isFinite_normal t, areFinite_normals ts]

end

mutual

/-- Equality does not tell a tree from its normal form. -/
lemma beq_normal : ∀ t u : Tree, t.normal.beq u.normal = t.beq u
  | .number m, .number n => Number.beq_normal m n
  | .operation f ts, .operation g us => by
    rw [normal, normal, beq, beq, beqs_normals ts us]
  | .text _, u | .boolean _, u | .field _, u => by cases u <;> rfl
  | .number _, .text _ | .number _, .boolean _ | .number _, .field _
  | .number _, .operation _ _ => rfl
  | .operation _ _, .text _ | .operation _ _, .boolean _ | .operation _ _, .field _
  | .operation _ _, .number _ => rfl

lemma beqs_normals : ∀ ts us : List Tree, beqs (normals ts) (normals us) = beqs ts us
  | [], [] => rfl
  | [], _ :: _ | _ :: _, [] => rfl
  | t :: ts, u :: us => by
    rw [normals, normals, beqs, beqs, beq_normal t u, beqs_normals ts us]

end

end Tree

end FormulaTree
