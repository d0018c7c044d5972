import FormulaTree.Proofs.RoundTrip
import FormulaTree.Proofs.Tree.Stored

/-!
# Accepted formulas that are stored

One command prints the tree of a formula, and another reads a stored tree and prints its formula.
The second does not always read what the first has printed.  An expression may be `heightLimit`
high, and the chain of ternaries for a long `IF` or `SWITCH` is deeper than the expression; but each
operation of a tree takes two levels of brackets, so that JSON text has room for 63 of them on the
way to a leaf.  If the numbers are finite, this is the only obstacle.
-/

namespace FormulaTree

namespace Command

variable {f : String} {t : Tree}

lemma isLegible_layout (pretty : Bool) : (layout pretty).IsLegible := by
  cases pretty with
  | false => exact Json.isLegible_compact
  | true => exact Json.isLegible_pretty

/-- The tree of an accepted formula is printed on a line of its own, or on several. -/
lemma printed_runLower (colours pretty : Bool) (h : Lowering.ofText f = .done t) :
    (runLower ⟨.text, colours⟩ pretty f).printed =
      String.ofList (t.toJson.write (layout pretty) 0 ++ ['\n']) := by
  have hresult : (Lowering.ofText f).result = .ok t := by
    rw [h]
    rfl
  have hlines : (runLower ⟨.text, colours⟩ pretty f).lines = [t.textIn (layout pretty)] := by
    rw [runLower]
    dsimp only
    rw [hresult]
  rw [Report.printed, hlines, Tree.textIn, Json.textIn, String.ofList_append]
  simp

/-- The formula of a stored tree is printed just when there is a tree. -/
lemma failure?_runRender (p : Presentation) (equals : Bool) (stored : String) :
    (runRender p equals stored).failure? = none ↔ ∃ u, Tree.ofText stored = .ok u := by
  rw [runRender]
  cases Tree.ofText stored with
  | error cause => simp [Report.failed]
  | ok u => cases hformat : p.format <;> simp

end Command

namespace Tree

/-- A tree of finite numbers can be read where it was stored if it is not too deep, and is malformed
JSON otherwise. -/
lemma exists_ofTextBy_stored {numerals : Json.Numerals} (hnumerals : numerals.RestoresWritten)
    {layout : Json.Layout} (hlegible : layout.IsLegible) {t : Tree} (hfinite : t.isFinite = true)
    {blanks : List Char} (hblanks : ∀ c ∈ blanks, Json.isSpace c = true) :
    (∃ u, ofTextBy numerals (String.ofList (t.toJson.write layout 0 ++ blanks)) = .ok u) ↔
      t.operationDepth ≤ 63 := by
  rw [ofTextBy_stored hnumerals hlegible t hblanks, if_pos hfinite]
  by_cases hdepth : t.operationDepth ≤ 63
  · rw [if_pos hdepth]
    exact iff_of_true ⟨_, rfl⟩ hdepth
  · rw [if_neg hdepth]
    exact iff_of_false (fun ⟨u, h⟩ => by cases h) hdepth

end Tree

namespace Lowering

/-- The tree of an accepted formula of finite numbers can be read from its JSON text, and the JSON
that is printed for the formula can be rendered, just when no way from the root to a leaf holds more
than 63 operations; otherwise the text is malformed to the reader. -/
theorem rendered_iff_operationDepth_le (f : String) (t : Tree) (h : ofText f = .done t)
    (hfinite : t.isFinite = true) (pretty : Bool) :
    ((∃ u, Tree.ofText (t.textIn (Command.layout pretty)) = .ok u) ↔ t.operationDepth ≤ 63) ∧
    (∀ (p : Presentation) (colours equals : Bool),
      (Command.runRender p equals
        (Command.runLower ⟨.text, colours⟩ pretty f).printed).failure? = none ↔
          t.operationDepth ≤ 63) ∧
    (¬t.operationDepth ≤ 63 →
      Tree.ofText (t.textIn (Command.layout pretty)) = .error (.notJson .malformed)) := by
  have hnumerals := Json.Numerals.nearest_restoresWritten
  have hlegible := Command.isLegible_layout pretty
  refine ⟨?_, fun p colours equals => ?_, fun hdepth => ?_⟩
  · rw [Tree.textIn_eq]
    exact Tree.exists_ofTextBy_stored hnumerals hlegible hfinite (by simp)
  · rw [Command.failure?_runRender, Command.printed_runLower colours pretty h]
    exact Tree.exists_ofTextBy_stored hnumerals hlegible hfinite (by simp [Json.isSpace])
  · rw [Tree.ofText, Tree.ofTextBy_textIn hnumerals hlegible, if_neg hdepth]

end Lowering

/-! ## Long quotients -/

lemma Term.operationDepth_quotient (n : Nat) : (quotient n).tree.operationDepth = n := by
  induction n with
  | zero => rfl
  | succ n ih =>
    rw [quotient, tree, Tree.operationDepth, Tree.operationDepths, ih, Nat.add_comm]
    simp [tree, Tree.operationDepths, Tree.operationDepth]

namespace Lowering

open Term (quotient)

/-- The longest quotient whose tree can be read from JSON text, and the shortest whose tree
cannot. -/
theorem rendered_quotients :
    (ofText (String.ofList (quotient 63).spell) = .done (quotient 63).tree ∧
      (quotient 63).tree.isFinite = true ∧
      ∃ u, Tree.ofText ((quotient 63).tree.textIn Json.pretty) = .ok u) ∧
    ofText (String.ofList (quotient 64).spell) = .done (quotient 64).tree ∧
      (quotient 64).tree.isFinite = true ∧
      Tree.ofText ((quotient 64).tree.textIn Json.compact) = .error (.notJson .malformed) := by
  have haccepted (n : Nat) (hn : n ≤ 255) := Term.ofText_quotient hn
  have hread := rendered_iff_operationDepth_le _ _ (haccepted 63 (by decide))
    (Term.isFinite_quotient 63) true
  have hunread := rendered_iff_operationDepth_le _ _ (haccepted 64 (by decide))
    (Term.isFinite_quotient 64) false
  refine ⟨⟨haccepted 63 (by decide), Term.isFinite_quotient 63, hread.1.2 ?_⟩,
    haccepted 64 (by decide), Term.isFinite_quotient 64, hunread.2.2 ?_⟩
  · rw [Term.operationDepth_quotient]
  · rw [Term.operationDepth_quotient]
    decide

/-- Not every accepted formula has a tree that can be read from its JSON text. -/
theorem not_forall_ofText_textIn : ¬∀ (f : String) (t : Tree), ofText f = .done t →
    t.isFinite = true → ∃ u, Tree.ofText (t.textIn Json.compact) = .ok u := by
  intro hall
  have haccepted : ofText _ = .done (quotient 64).tree := Term.ofText_quotient (by decide)
  obtain ⟨u, hread⟩ := hall _ _ haccepted (Term.isFinite_quotient 64)
  rw [Tree.ofText, Tree.ofTextBy_textIn Json.Numerals.nearest_restoresWritten
    Json.isLegible_compact, Term.operationDepth_quotient] at hread
  cases hread

end Lowering

end FormulaTree
