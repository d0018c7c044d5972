import FormulaTree.Excerpt
import FormulaTree.Proofs.Text.Lines

/-!
# What an excerpt shows

An excerpt of a location shows the line on which the location starts, with carets under the
characters of that line that the location covers, or under the place itself if it covers none
(`Excerpt.Shows`).  There is one for every location that starts on a line.
-/

namespace FormulaTree

open Position (reached)
open Text (IsLine IsOnLine)

namespace Excerpt

/-- How many of the characters of a line a location covers. -/
def covered (l : Location) (number width : Nat) : Nat :=
  (List.range width).countP fun k => l.start ≤ ⟨number, k⟩ ∧ ⟨number, k⟩ < l.stop

/-- The excerpt shows the location in the text. -/
structure Shows (x : Excerpt) (text : List Char) (l : Location) : Prop where
  number : x.number = l.start.line
  isLine : IsLine text x.number x.line
  column_le : l.start.column ≤ x.line.length
  indent : x.indent = l.start.column
  carets : x.carets = max 1 (covered l x.number x.line.length)
  /-- The line and the carets come after margins of one width. -/
  shown : ∃ above margin margin' : String, margin.length = margin'.length ∧
    x.shown false = [above, margin ++ String.ofList x.line,
      margin' ++ String.ofList (List.replicate l.start.column ' ' ++ List.replicate x.carets '^')]

lemma countP_range (first stop width : Nat) :
    (List.range width).countP (fun k => decide (first ≤ k ∧ k < stop)) =
      min stop width - first := by
  induction width with
  | zero => simp
  | succ width ih =>
    rw [List.range_succ, List.countP_append, ih, List.countP_singleton]
    by_cases h : first ≤ width ∧ width < stop
    · rw [if_pos (decide_eq_true h)]
      omega
    · rw [if_neg (by simpa using h)]
      omega

/-- On the line where a location starts, it covers what is from there up to where it ends. -/
lemma covered_eq {l : Location} (hle : l.start ≤ l.stop) (width : Nat) :
    covered l l.start.line width =
      (if l.stop.line = l.start.line then min l.stop.column width else width) -
        l.start.column := by
  have hstart (k : Nat) : l.start ≤ ⟨l.start.line, k⟩ ↔ l.start.column ≤ k := by
    simp [Position.le_def]
  have hstop (k : Nat) : (⟨l.start.line, k⟩ : Position) < l.stop ↔
      l.start.line < l.stop.line ∨ l.start.line = l.stop.line ∧ k < l.stop.column := by
    rw [lt_iff_not_ge, Position.le_def]
    dsimp only
    omega
  rw [Position.le_def] at hle
  unfold covered
  simp only [hstart, hstop]
  split_ifs with hsame
  · rw [← countP_range]
    refine List.countP_congr fun k _ => ?_
    simp [hsame]
  · rw [← Nat.min_self width, ← countP_range, Nat.min_self]
    refine List.countP_congr fun k hk => ?_
    have hk' := List.mem_range.1 hk
    have hlater : l.start.line < l.stop.line := by omega
    simp [hlater, hk']

lemma shown_eq (x : Excerpt) : ∃ above margin margin' : String, margin.length = margin'.length ∧
    x.shown false = [above, margin ++ String.ofList x.line,
      margin' ++ String.ofList (List.replicate x.indent ' ' ++ List.replicate x.carets '^')] := by
  let gutter := String.ofList (List.replicate (toString x.number).length ' ')
  refine ⟨gutter ++ " " ++ "|", toString x.number ++ " " ++ "|" ++ " ",
    gutter ++ " " ++ "|" ++ " ", ?_, ?_⟩
  · simp [gutter]
  · rw [String.ofList_append, ← String.append_assoc]
    rfl

/-- A location that starts on a line has an excerpt that shows it. -/
lemma exists_shows {before after : List Char} {l : Location} (hplace : IsOnLine before after)
    (hne : before ++ after ≠ []) (hstart : l.start = reached before) (hle : l.start ≤ l.stop) :
    ∃ x, of? (before ++ after) l = some x ∧ x.Shows (before ++ after) l := by
  obtain ⟨line, hline, hlines, hcolumn⟩ := Text.exists_line hplace hne
  rw [← hstart] at hline hlines hcolumn
  have hnumber : l.start.line = before.count '\n' + 1 := by
    rw [hstart, Nat.add_comm]
    rfl
  have hof : of? (before ++ after) l = some ⟨l.start.line, line, l.start.column,
      max 1 (covered l l.start.line line.length)⟩ := by
    rw [hnumber, Nat.add_sub_cancel] at hlines
    rw [covered_eq hle, of?, hnumber]
    dsimp only
    rw [hlines, Option.map_some, Nat.min_eq_left hcolumn, Nat.max_comm]
  obtain ⟨above, margin, margin', hmargin, hshown⟩ := shown_eq ⟨l.start.line, line, l.start.column,
    max 1 (covered l l.start.line line.length)⟩
  exact ⟨_, hof, rfl, hline, hcolumn, rfl, rfl, above, margin, margin', hmargin, hshown⟩

end Excerpt

end FormulaTree
