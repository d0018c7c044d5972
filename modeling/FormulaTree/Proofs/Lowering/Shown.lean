import FormulaTree.Proofs.Excerpt
import FormulaTree.Proofs.Grammar.Blame
import FormulaTree.Proofs.Lowering.Offences
import FormulaTree.Proofs.Token.Blame

/-!
# Every diagnostic can be shown

Whatever is wrong with a formula is reported at a stretch of its text.  If it cannot be read, the
scanner or the grammar says where; if it can, each diagnostic is at the location of some part of an
expression (`Lowering.exists_holds`).  All these locations start where a token starts, where one
ends, or at a character that ends no line, and therefore on a line of the text.  So there is a line
to quote for each of them, and the carets are under what the location covers of it.
-/

namespace FormulaTree

open Position (reached Faces OnLine)
open Grammar (statements)

namespace Lowering

/-! ## The expressions that diagnostics are about -/

/-- A report is at the location of the offending expression or of a child of it. -/
lemma Reports.exists_holds {e : Expr} {d : Diagnostic} (h : Reports e d) :
    ∃ x, e.Holds x ∧ d.location? = some x.location := by
  cases h with
  | callee | function | object | objectName =>
    exact ⟨_, .child (List.mem_cons_self ..) (.self _), rfl⟩
  | arity | sign | identifier | property | unary => exact ⟨_, .self _, rfl⟩

/-- What is reported of siblings is reported of one of them. -/
lemma exists_mem_diagnostics {limit depth : Nat} {reported : Bool} {es : List Expr}
    {d : Diagnostic} (h : d ∈ (operands reported (ofExprs limit depth es)).diagnostics) :
    ∃ e ∈ es, ∃ reported', d ∈ (ofExpr limit depth reported' e).diagnostics := by
  induction es generalizing reported with
  | nil => cases h
  | cons e es ih =>
    rcases List.mem_append.1 h with h | h
    · exact ⟨e, List.mem_cons_self .., reported, h⟩
    · obtain ⟨x, hx, hmem⟩ := ih h
      exact ⟨x, List.mem_cons_of_mem _ hx, hmem⟩

/-- Each diagnostic is at the location of a part of the expression. -/
lemma exists_holds {limit : Nat} {e : Expr} {d : Diagnostic} (he : e.Placed) :
    ∀ depth reported, d ∈ (ofExpr limit depth reported e).diagnostics →
      ∃ x, e.Holds x ∧ d.location? = some x.location := by
  induction he with
  | @intro e _ _ _ _ _ ih =>
    intro depth reported hd
    by_cases hdepth : limit ≤ depth
    · -- That the limit is reached is reported of the expression beyond it.
      rw [ofExpr_of_le hdepth] at hd
      cases reported with
      | true => cases hd
      | false =>
        rw [List.mem_singleton.1 hd]
        exact ⟨e, .self e, rfl⟩
    · cases hoffending : e.isOffending with
      | true =>
        obtain ⟨d', hreports, heq⟩ := ofExpr_of_offending (Nat.lt_of_not_le hdepth) hoffending
        rw [heq, failed, List.mem_singleton] at hd
        rw [hd]
        exact hreports.exists_holds
      | false =>
        rw [diagnostics_ofExpr (Nat.lt_of_not_le hdepth) hoffending] at hd
        obtain ⟨x, hx, reported', hmem⟩ := exists_mem_diagnostics hd
        have hchild := e.parts_sublist.subset hx
        obtain ⟨y, hy, hlocation⟩ := ih x hchild (depth + 1) reported' hmem
        exact ⟨y, .child hchild hy, hlocation⟩

end Lowering

/-! ## Locations -/

section Location

variable {text : List Char} {ts : List Token} {l : Location}

/-- What rests on tokens of the text points into it. -/
lemma Location.RestsOn.pointsInto (h : l.RestsOn ts) (hts : ∀ t ∈ ts, t.LiesIn text)
    (hle : l.start ≤ l.stop) : l.PointsInto text := by
  obtain ⟨⟨t, ht, hstart⟩, u, hu, hstop⟩ := h
  exact ⟨hstart ▸ (hts t ht).start, hstop ▸ (hts u hu).stop, hle⟩

/-- So does the empty stretch after the last token. -/
lemma SyntaxError.endOf_pointsInto (hts : ∀ t ∈ ts, t.LiesIn text) :
    (endOf ts).PointsInto text := by
  unfold endOf
  split
  · rename_i t hlast
    have hlies := hts t (List.mem_of_getLast? hlast)
    exact ⟨hlies.onLine_stop, hlies.stop, le_refl _⟩
  · exact ⟨Position.onLine_start text, ⟨text, Position.faces_start text⟩, le_refl _⟩

lemma Grammar.error_pointsInto {e : SyntaxError} (h : statements ts = .error e)
    (hts : ∀ t ∈ ts, t.LiesIn text) : e.location.PointsInto text := by
  rcases location_of_statements h with ⟨t, ht, hlocation⟩ | hlocation
  · rw [hlocation]
    exact (hts t ht).toPointsInto
  · rw [hlocation]
    exact SyntaxError.endOf_pointsInto hts

lemma Excerpt.exists_shows_of_pointsInto (h : l.PointsInto text) (hne : text ≠ []) :
    ∃ x, of? text l = some x ∧ x.Shows text l := by
  obtain ⟨before, after, rfl, hstart, hplace⟩ := h.start
  exact exists_shows hplace hne hstart h.le

end Location

/-! ## Formulas -/

namespace Lowering

/-- What is reported of the expressions of a formula points into it. -/
lemma ofStatements_pointsInto {text : List Char} {limit : Nat} {ts : List Token} {es : List Expr}
    {d : Diagnostic} (h : statements ts = .ok es) (hordered : Token.Ordered ts)
    (hts : ∀ t ∈ ts, t.LiesIn text) (hd : d ∈ (ofStatements limit es).diagnostics) :
    ∃ l, d.location? = some l ∧ l.PointsInto text := by
  have hpart {e x : Expr} (he : e ∈ es) (hx : e.Holds x) : x.location.PointsInto text := by
    obtain ⟨hrests, hproper⟩ := Grammar.statements_restsOn h hordered he hx
    exact hrests.pointsInto hts hproper.le
  revert hd
  fun_cases ofStatements limit es with
  | case1 => intro hd; cases hd
  | case2 e =>
    intro hd
    have he : e ∈ [e] := List.mem_singleton_self e
    have hplaced := (Grammar.statements_placed h hordered e he).1
    obtain ⟨x, hx, hlocation⟩ := exists_holds hplaced 0 false hd
    exact ⟨x.location, hlocation, hpart he hx⟩
  | case3 first second others =>
    intro hd
    rw [failed, List.mem_singleton] at hd
    rw [hd]
    have hsecond : second ∈ first :: second :: others := by simp
    exact ⟨second.location, rfl, hpart hsecond (.self second)⟩

/-- Every diagnostic of a formula points into it, whatever the depth limit. -/
lemma ofTextWithin_pointsInto {limit : Nat} {s : String} {d : Diagnostic}
    (hd : d ∈ (ofTextWithin limit s).diagnostics) :
    ∃ l, d.location? = some l ∧ l.PointsInto s.toList := by
  have hread := Token.ofText_answers s
  unfold ofTextWithin at hd
  split at hd
  · rename_i e htokens
    rw [htokens] at hread
    rw [failed, List.mem_singleton] at hd
    rw [hd]
    exact ⟨e.location, rfl, hread⟩
  · rename_i tokens htokens
    rw [htokens] at hread
    split at hd
    · rename_i e hstatements
      rw [failed, List.mem_singleton] at hd
      rw [hd]
      exact ⟨e.location, rfl, Grammar.error_pointsInto hstatements hread⟩
    · rename_i es hstatements
      exact ofStatements_pointsInto hstatements (Token.ofText_ordered htokens) hread hd

/-- **Every diagnostic points into the text and can be shown.**  Its location runs from one place of
the text to the same or a later one.  Unless the text is empty, the excerpt quotes the line on which
the location starts, and has its carets under the characters of that line that the location covers,
or under the place where it starts if it covers none. -/
theorem diagnostics_shown (limit : Nat) (s : String) (d : Diagnostic)
    (hd : d ∈ (ofTextWithin limit s).diagnostics) :
    ∃ l, d.location? = some l ∧ l.start ≤ l.stop ∧
      (∃ before, before <+: s.toList ∧ l.start = reached before) ∧
      (∃ before, before <+: s.toList ∧ l.stop = reached before) ∧
      (s ≠ "" → ∃ x, Excerpt.of? s.toList l = some x ∧ x.Shows s.toList l) := by
  obtain ⟨l, hlocation, hpoints⟩ := ofTextWithin_pointsInto hd
  refine ⟨l, hlocation, hpoints.le, ?_, ?_, fun hne => ?_⟩
  · obtain ⟨before, after, htext, hstart, -⟩ := hpoints.start
    exact ⟨before, ⟨after, htext.symm⟩, hstart⟩
  · obtain ⟨ahead, before, htext, hstop⟩ := hpoints.stop
    exact ⟨before, ⟨ahead, htext.symm⟩, hstop⟩
  · exact Excerpt.exists_shows_of_pointsInto hpoints (by simpa using hne)

/-- A remainder, for which there is no operator, in parentheses over two lines. -/
def remainder : String := "1 ==\r\n (2 %\r\n3)"

theorem diagnostics_shown_remainder : ∃ d ∈ (ofTextWithin heightLimit remainder).diagnostics,
    d.location? = some ⟨⟨2, 1⟩, ⟨3, 2⟩⟩ ∧
      ∃ x, Excerpt.of? remainder.toList ⟨⟨2, 1⟩, ⟨3, 2⟩⟩ = some x ∧
        x.Shows remainder.toList ⟨⟨2, 1⟩, ⟨3, 2⟩⟩ ∧ x.line = " (2 %".toList ∧ x.carets = 4 := by
  have hlocations : (ofTextWithin heightLimit remainder).diagnostics.map Diagnostic.location? =
      [some ⟨⟨2, 1⟩, ⟨3, 2⟩⟩] := by decide +kernel
  have hexcerpt : Excerpt.of? remainder.toList ⟨⟨2, 1⟩, ⟨3, 2⟩⟩ =
      some ⟨2, " (2 %".toList, 1, 4⟩ := by decide +kernel
  obtain ⟨d, hdiagnostics, hlocation⟩ := List.map_eq_singleton_iff.1 hlocations
  have hd : d ∈ (ofTextWithin heightLimit remainder).diagnostics := by
    rw [hdiagnostics]
    exact List.mem_singleton_self d
  obtain ⟨l, hl, -, -, -, hshown⟩ := diagnostics_shown heightLimit remainder d hd
  rw [hlocation] at hl
  cases hl
  obtain ⟨x, hx, hshows⟩ := hshown (by decide)
  refine ⟨d, hd, hlocation, x, hx, hshows, ?_⟩
  rw [hexcerpt] at hx
  cases hx
  exact ⟨rfl, rfl⟩

end Lowering

end FormulaTree
