import FormulaTree.Proofs.Term.Equality
import FormulaTree.Tree.Json

/-!
# What is written of equal trees

A tree is written in two ways, as a formula and as JSON text.  Neither tells equal trees apart: the
only difference there can be between them is the sign of a zero, and a whole number is written from
its value, so that no zero has a sign (`Number.jsonText_normal`).

The layout of a formula compares trees itself, namely the pivots of a chain of ternaries.  That
these comparisons come out alike is part of `Term.ofTree_normal`.
-/

namespace FormulaTree

/-- JSON text writes zero without a sign, too. -/
theorem Number.jsonText_normal (n : Number) : n.normal.jsonText = n.jsonText := by
  rcases n.normal_cases with hsame | ⟨rfl, hzero⟩
  · rw [hsame]
  · rw [hzero]
    decide +kernel

namespace Tree

mutual

/-- The JSON text of a tree is that of its normal form, however deep it stands. -/
lemma write_normal (layout : Json.Layout) : ∀ (depth : Nat) (t : Tree),
    Json.write layout depth t.normal.toJson = Json.write layout depth t.toJson
  | _, .text _ | _, .boolean _ | _, .field _ => rfl
  | _, .number n => n.jsonText_normal
  | depth, .operation op [] => rfl
  | depth, .operation op (t :: ts) => by
    simp only [normal, normals, toJson, toJsons, Json.write, Json.writeMembers]
    rw [write_normal layout (depth + 1 + 1) t, writeItems_normals layout (depth + 1 + 1) ts]

lemma writeItems_normals (layout : Json.Layout) : ∀ (depth : Nat) (ts : List Tree),
    Json.writeItems layout depth (toJsons (normals ts)) =
      Json.writeItems layout depth (toJsons ts)
  | _, [] => rfl
  | depth, t :: ts => by
    rw [normals, toJsons, toJsons, Json.writeItems, Json.writeItems, write_normal layout depth t,
      writeItems_normals layout depth ts]

end

/-- A tree and its normal form have the same JSON text. -/
lemma textIn_normal (t : Tree) (layout : Json.Layout) :
    t.normal.textIn layout = t.textIn layout := by
  rw [textIn, textIn, Json.textIn, Json.textIn, write_normal]

/-- **Equal trees cannot be told apart by what is written of them.**  Whatever the number of
operands of their operations, they have the same formula, with or without an equals sign, and the
same JSON text in every layout. -/
theorem formula_eq_and_textIn_eq (t u : Tree) (h : t.beq u = true) :
    (∀ equals, t.formula equals = u.formula equals) ∧
      ∀ layout, t.textIn layout = u.textIn layout := by
  refine ⟨formula_congr h, fun layout => ?_⟩
  rw [← textIn_normal t, ← textIn_normal u, normal_eq_of_beq h]

/-- The number zero with a sign or without. -/
def zero (negative : Bool) : Tree := .number (.finite negative .zero)

/-- Two ternaries that compare zeros with a pivot, and a sum without operands; each zero has the
sign `negative` or the other one. -/
def zeros (negative : Bool) : Tree :=
  .operation .ternary [.operation .equal [zero negative, .operation .add []], zero negative,
    .operation .ternary [.operation .equal [zero (!negative), .text "@me"], zero (!negative)]]

/-- No two zeros in the same place have the same sign, and still the chain of ternaries is one call
in both formulas. -/
theorem formula_eq_and_textIn_eq_zeros : (zeros false).beq (zeros true) = true ∧
    (zeros false).formula true = "=SWITCH(0, , 0, \"@me\", 0)" ∧
    (zeros true).formula true = "=SWITCH(0, , 0, \"@me\", 0)" ∧
    (zeros false).textIn Json.pretty = (zeros true).textIn Json.pretty := by
  have hequal : (zeros false).beq (zeros true) = true := by decide +kernel
  have hformula : (zeros false).formula true = "=SWITCH(0, , 0, \"@me\", 0)" := by decide +kernel
  obtain ⟨hsame, htext⟩ := formula_eq_and_textIn_eq (zeros false) (zeros true) hequal
  exact ⟨hequal, hformula, (hsame true).symm.trans hformula, htext Json.pretty⟩

end Tree

end FormulaTree
