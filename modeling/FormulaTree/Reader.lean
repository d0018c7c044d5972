import FormulaTree.Attempt

/-!
# Readers

A **reader** takes a value off the front of a list or fails with a reason.  Every reader of the
library takes at least one element, and a `Reader` carries the proof of that, so a loop that calls
one ends.

`Follows rest all` says that `rest` is what is left of `all` after at least one element.
-/

namespace FormulaTree

variable {σ ε α : Type}

/-- `rest` is left of `all` when one element or more is taken off the front. -/
def Follows (rest all : List σ) : Prop := ∃ taken, taken ≠ [] ∧ all = taken ++ rest

namespace Follows

theorem length_lt {rest all : List σ} (h : Follows rest all) : rest.length < all.length := by
  obtain ⟨taken, nonempty, rfl⟩ := h
  have := List.length_pos_iff.2 nonempty
  rw [List.length_append]
  omega

theorem suffix {rest all : List σ} (h : Follows rest all) : rest <:+ all := by
  obtain ⟨taken, _, rfl⟩ := h
  exact List.suffix_append _ _

/-- What is left after one element follows the list. -/
theorem tail (x : σ) (rest : List σ) : Follows rest (x :: rest) := ⟨[x], by simp, rfl⟩

/-- One more element in front changes nothing. -/
theorem cons (x : σ) {rest all : List σ} (h : rest <:+ all) : Follows rest (x :: all) := by
  obtain ⟨taken, rfl⟩ := h
  exact ⟨x :: taken, by simp, rfl⟩

theorem trans_suffix {a b c : List σ} (ab : a <:+ b) (bc : Follows b c) : Follows a c := by
  obtain ⟨s, rfl⟩ := ab
  obtain ⟨t, nonempty, rfl⟩ := bc
  exact ⟨t ++ s, by simp [nonempty], by simp⟩

theorem suffix_trans {a b c : List σ} (ab : Follows a b) (bc : b <:+ c) : Follows a c := by
  obtain ⟨s, nonempty, rfl⟩ := ab
  obtain ⟨t, rfl⟩ := bc
  exact ⟨t ++ s, by simp [nonempty], by simp⟩

end Follows

/-- A way to take a value off the front of a list. -/
structure Reader (σ ε α : Type) where
  read : List σ → Except ε (α × List σ)
  follows : ∀ {input : List σ} {value : α} {rest : List σ},
    read input = .ok (value, rest) → Follows rest input

end FormulaTree
