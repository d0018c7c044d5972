import FormulaTree.Tree.Call
import Mathlib.Tactic.Lemma

/-!
# Shapes of trees

Nothing in the type of trees ties the operands of an operation to its operator.  This file names
the conditions that the other modules speak of; each can be computed:

* `Tree.isSufficient`: no operation has too few operands;
* `Tree.isCanonical`: every operation has as many operands as its operator takes, and a ternary has
  all three;
* `Tree.isFinite`: every number of the tree is finite;
* `Tree.isNumeric`: every number of the tree is a number.
-/

namespace FormulaTree.Tree

mutual

/-- Every operation of the tree passes a test of its operator and its number of operands. -/
def everyOperation (p : Operator → Nat → Bool) : Tree → Bool
  | .operation op operands => p op operands.length && everyOperations p operands
  | _ => true

/-- The same for a list of trees. -/
def everyOperations (p : Operator → Nat → Bool) : List Tree → Bool
  | [] => true
  | t :: ts => everyOperation p t && everyOperations p ts

end

mutual

/-- Every number of the tree is finite. -/
def isFinite : Tree → Bool
  | .number n => n.isFinite
  | .operation _ operands => areFinite operands
  | _ => true

/-- Every number of a list of trees is finite. -/
def areFinite : List Tree → Bool
  | [] => true
  | t :: ts => isFinite t && areFinite ts

end

mutual

/-- Every number of the tree is a number, if perhaps an infinite one. -/
def isNumeric : Tree → Bool
  | .number .notANumber => false
  | .operation _ operands => areNumeric operands
  | _ => true

/-- Every number of a list of trees is a number. -/
def areNumeric : List Tree → Bool
  | [] => true
  | t :: ts => isNumeric t && areNumeric ts

end

/-- No operation has too few operands. -/
def isSufficient (t : Tree) : Bool := t.everyOperation fun op count => op.arity.min ≤ count

/-- Every operation has as many operands as its operator takes, and every ternary three. -/
def isCanonical (t : Tree) : Bool :=
  t.everyOperation fun op count => op.arity.admits count && decide (op = .ternary → count = 3)

lemma everyOperations_iff {p : Operator → Nat → Bool} {ts : List Tree} :
    everyOperations p ts = true ↔ ∀ t ∈ ts, t.everyOperation p = true := by
  induction ts with
  | nil => simp [everyOperations]
  | cons t ts ih => simp [everyOperations, ih]

lemma areFinite_iff {ts : List Tree} : areFinite ts = true ↔ ∀ t ∈ ts, t.isFinite = true := by
  induction ts with
  | nil => simp [areFinite]
  | cons t ts ih => simp [areFinite, ih]

lemma everyOperation_operation {p : Operator → Nat → Bool} {op : Operator} {ts : List Tree} :
    (operation op ts).everyOperation p = true ↔
      p op ts.length = true ∧ ∀ t ∈ ts, t.everyOperation p = true := by
  rw [everyOperation, Bool.and_eq_true, everyOperations_iff]

lemma isCanonical_operation {op : Operator} {ts : List Tree} :
    (operation op ts).isCanonical = true ↔
      (op.arity.admits ts.length = true ∧ (op = .ternary → ts.length = 3)) ∧
        ∀ t ∈ ts, t.isCanonical = true := by
  rw [isCanonical, everyOperation_operation, Bool.and_eq_true, decide_eq_true_iff]
  rfl

mutual

lemma everyOperation_mono {p q : Operator → Nat → Bool}
    (h : ∀ op count, p op count = true → q op count = true) :
    ∀ {t : Tree}, t.everyOperation p = true → t.everyOperation q = true
  | .text _, _ | .number _, _ | .boolean _, _ | .field _, _ => rfl
  | .operation op ts, ht => by
    rw [everyOperation, Bool.and_eq_true] at ht ⊢
    exact ⟨h _ _ ht.1, everyOperations_mono h ht.2⟩

lemma everyOperations_mono {p q : Operator → Nat → Bool}
    (h : ∀ op count, p op count = true → q op count = true) :
    ∀ {ts : List Tree}, everyOperations p ts = true → everyOperations q ts = true
  | [], _ => rfl
  | t :: ts, hts => by
    rw [everyOperations, Bool.and_eq_true] at hts ⊢
    exact ⟨everyOperation_mono h hts.1, everyOperations_mono h hts.2⟩

end

lemma isSufficient_of_isCanonical {t : Tree} (h : t.isCanonical = true) :
    t.isSufficient = true := by
  refine everyOperation_mono (fun op count hcount => ?_) h
  rw [Bool.and_eq_true, Arity.admits, Bool.and_eq_true] at hcount
  exact hcount.1.1

/-! ## Chains of ternaries -/

/-- A chain of ternaries is canonical if its conditions are, as tests, and its results are. -/
lemma isCanonical_chain {test : Tree → Tree}
    (htest : ∀ t, t.isCanonical = true → (test t).isCanonical = true) :
    ∀ ts : List Tree, (∀ t ∈ ts, t.isCanonical = true) → (chain test ts).isCanonical = true
  | [], _ => rfl
  | [default], h => h default (List.mem_singleton_self default)
  | condition :: result :: rest, h => by
    rw [List.forall_mem_cons, List.forall_mem_cons] at h
    obtain ⟨hcondition, hresult, hrest⟩ := h
    rw [chain, isCanonical_operation]
    refine ⟨⟨rfl, fun _ => rfl⟩, ?_⟩
    simp only [List.forall_mem_cons]
    exact ⟨htest _ hcondition, hresult, isCanonical_chain htest rest hrest, by simp⟩

end FormulaTree.Tree
