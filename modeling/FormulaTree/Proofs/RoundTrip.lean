import FormulaTree.Command
import FormulaTree.Proofs.Grammar.Completeness
import FormulaTree.Proofs.Lowering.Outcome
import FormulaTree.Proofs.Term.Equality
import FormulaTree.Proofs.Term.Layout

/-!
# Trees that are written and read

A tree is written as a formula, and the formula is read again.  What comes back is the completion of
the tree, unless the formula passes one of the two bounds of the grammar: it may nest at most
`nestingLimit` levels deep, and its expression may be at most `heightLimit` high.

Whether a bound is passed can be told from the layout of the tree (`Tree.FitsBounds`), and a tree
that is no deeper than `nestingLimit` passes none.  An accepted formula may still have a tree whose
own formula is too deep: a long quotient nests only when it is written with its parentheses.

## The way through

* `Readable.ofText`: the characters are read as the tokens of the layout;
* `Readable.hasReading`: these derive an expression that means the completed tree;
* `Derives.read`: the grammar reads it if, and only if, the bounds are kept.
-/

namespace FormulaTree

open Grammar (Derives Fits)

/-! ## One statement -/

namespace Grammar

lemma statementsFrom_ok {expression : ExprReader} {t : Token} {rest : List Token} {e : Expr}
    (hkind : t.kind ≠ .semicolon) (h : expression.read (t :: rest) = .ok (e, [])) :
    statementsFrom expression (t :: rest) = .ok [e] := by
  rw [statementsFrom_eq rest hkind, h]
  rfl

lemma statementsFrom_error {expression : ExprReader} {t : Token} {rest : List Token} {f : Fault}
    (hkind : t.kind ≠ .semicolon) (h : expression.read (t :: rest) = .error f) :
    statementsFrom expression (t :: rest) = .error f := by
  rw [statementsFrom_eq rest hkind, h]
  rfl

/-- The tokens of one expression are a single statement, within the bounds. -/
lemma Derives.statements {n : Nat} {ts : List Token} {e : Expr} (h : Derives .choice n ts e) :
    (Fits nestingLimit n e → Grammar.statements ts = .ok [e]) ∧
      (¬Fits nestingLimit n e →
        ∃ err, Grammar.statements ts = .error err ∧ err.toFault.IsLimit) := by
  obtain ⟨t, rest, rfl, hbegins⟩ := h.begins
  have hkind : t.kind ≠ .semicolon := by
    intro hkind
    rw [hkind] at hbegins
    cases hbegins
  have hread := h.read (ends_nil .choice)
  rw [List.append_nil] at hread
  rcases hread with ⟨hfits, hread⟩ | ⟨hfits, f, hread, hlimit⟩
  · refine ⟨fun _ => ?_, fun hnot => absurd hfits hnot⟩
    rw [Grammar.statements, statementsFrom_ok hkind hread]
  · refine ⟨fun hfits' => absurd hfits' hfits, fun _ => ⟨.locate (t :: rest) f, ?_, hlimit⟩⟩
    rw [Grammar.statements, statementsFrom_error hkind hread]

end Grammar

/-! ## Readable terms -/

/-- The diagnostic says that a formula passes a bound of the grammar. -/
def Diagnostic.ReportsBound (d : Diagnostic) : Prop :=
  d.kind = .malformed ∧
    (d.message = "Formula is nested more than 128 levels deep" ∨
      d.message = "Expression is nested more than 256 operators deep")

lemma reportsBound_malformed {err : SyntaxError} (h : err.toFault.IsLimit) (l : Location) :
    (Diagnostic.malformed err.message l).ReportsBound := by
  refine ⟨rfl, ?_⟩
  rw [Diagnostic.malformed, SyntaxError.message]
  rcases h with hcause | hcause
  · rw [hcause]
    exact .inl rfl
  · rw [hcause]
    exact .inr rfl

namespace Term

/-- The term keeps the bounds of the grammar. -/
def FitsBounds (term : Term) : Prop :=
  term.nesting ≤ nestingLimit ∧ term.height ≤ heightLimit

instance (term : Term) : Decidable term.FitsBounds := inferInstanceAs (Decidable (_ ∧ _))

/-- A readable term is read as its tree if it keeps the bounds, and otherwise this is reported. -/
lemma Readable.ofText_spell {term : Term} (h : Readable term) (equals : Bool) :
    (term.FitsBounds →
      Lowering.ofText (String.ofList (if equals then '=' :: term.spell else term.spell)) =
        .done term.tree) ∧
    (¬term.FitsBounds → ∃ d,
      Lowering.ofText (String.ofList (if equals then '=' :: term.spell else term.spell)) =
        .failed d ∧ d.ReportsBound) := by
  obtain ⟨ts, hkinds, htokens⟩ := h.ofText equals
  obtain ⟨e, hderives, hheight, hmeans⟩ := h.hasReading ts hkinds
  obtain ⟨hfit, hlimit⟩ := (derives_choice hderives).statements
  have hbounds : Fits nestingLimit term.nesting e ↔ term.FitsBounds := by
    rw [Fits, hheight, FitsBounds]
  rw [Lowering.ofText, Lowering.ofTextWithin, htokens]
  dsimp only
  constructor
  · intro hfits
    rw [hfit (hbounds.2 hfits)]
    exact hmeans heightLimit 0 false (by rw [hheight, Nat.zero_add]; exact hfits.2)
  · intro hfits
    obtain ⟨err, herr, hcause⟩ := hlimit fun hfits' => hfits (hbounds.1 hfits')
    rw [herr]
    exact ⟨_, rfl, reportsBound_malformed hcause _⟩

end Term

/-! ## Trees -/

namespace Tree

/-- The formula of a tree keeps the bounds of the grammar. -/
def FitsBounds (t : Tree) : Prop := (Term.ofTree t).FitsBounds

instance (t : Tree) : Decidable t.FitsBounds := inferInstanceAs (Decidable (Term.FitsBounds _))

/-- What is read from the formula of a tree that can be written. -/
lemma Writable.ofText_formula {t : Tree} (h : t.Writable) (equals : Bool) :
    (t.FitsBounds → Lowering.ofText (t.formula equals) = .done t.completed.normal) ∧
      (¬t.FitsBounds → ∃ d, Lowering.ofText (t.formula equals) = .failed d ∧ d.ReportsBound) := by
  have hlayout := Term.layout_ofTree h
  have hread := hlayout.readable.ofText_spell equals
  rwa [hlayout.tree_eq] at hread

/-- A tree that is not deep keeps the bounds. -/
lemma Writable.fitsBounds {t : Tree} (h : t.Writable) (hdepth : t.depth ≤ nestingLimit) :
    t.FitsBounds := by
  have hlayout := Term.layout_ofTree h
  have hcompleted := t.depth_completed_le
  have hlimits : nestingLimit + 1 ≤ heightLimit := by decide
  exact ⟨by have := hlayout.nesting_le; omega, by have := hlayout.height_le; omega⟩

lemma normal_beq_self {t : Tree} (h : t.isFinite = true) : t.normal.beq t = true := by
  refine beq_of_normal_eq ?_ t.normal_normal
  rw [isFinite_normal, h]

end Tree

namespace Lowering

lemma done_inj {t u : Tree} (h : done t = done u) : t = u :=
  Option.some.inj (congrArg Lowering.tree? h)

/-- Writing a tree and reading the formula gives the completed tree, or else a bound of the grammar
is passed, and then this is all that is reported.  No bound is passed if the tree is not deep.  If
the tree is complete, writing what was read gives the same formula again. -/
theorem ofText_formula_completed (t : Tree) (equals : Bool) (hsufficient : t.isSufficient = true)
    (hfinite : t.isFinite = true) :
    ((∃ u, ofText (t.formula equals) = .done u ∧ u.beq t.completed = true) ∨
      ∃ d, ofText (t.formula equals) = .failed d ∧ d.ReportsBound) ∧
    (t.depth ≤ 128 → ∃ u, ofText (t.formula equals) = .done u ∧ u.beq t.completed = true) ∧
    (t.completed.beq t = true → ∀ u, ofText (t.formula equals) = .done u →
      ∀ equals', u.formula equals' = t.formula equals') := by
  have hwritable : t.Writable := ⟨hsufficient, hfinite⟩
  obtain ⟨hfits, hpasses⟩ := hwritable.ofText_formula equals
  have hequal := Tree.normal_beq_self (Tree.isFinite_completed hfinite)
  refine ⟨?_, fun hdepth => ?_, fun hcomplete u hread equals' => ?_⟩
  · by_cases hbounds : t.FitsBounds
    · exact .inl ⟨_, hfits hbounds, hequal⟩
    · exact .inr (hpasses hbounds)
  · exact ⟨_, hfits (hwritable.fitsBounds hdepth), hequal⟩
  · by_cases hbounds : t.FitsBounds
    · rw [hfits hbounds] at hread
      rw [← done_inj hread, Tree.normal_eq_of_beq hcomplete, Tree.formula_normal]
    · obtain ⟨d, hfailed, _⟩ := hpasses hbounds
      rw [hfailed] at hread
      cases hread

/-- A ternary without a default, and a difference with an operand in excess. -/
def unfinished : Tree :=
  .operation .ternary
    [.operation .equal [.field .currentFieldEmail, .text "a \"b\"\n"],
      .operation .subtract [.number (.finite true ⟨2 ^ 52, 1021, by decide⟩),
        .number (.finite true .zero), .boolean true]]

theorem ofText_formula_unfinished :
    unfinished.isSufficient = true ∧ unfinished.isFinite = true ∧ unfinished.depth ≤ 128 ∧
      ∃ u, ofText (unfinished.formula true) = .done u ∧ u.beq unfinished.completed = true :=
  ⟨rfl, rfl, by decide, (ofText_formula_completed unfinished true rfl rfl).2.1 (by decide)⟩

/-! ## Formulas -/

/-- The tree of an accepted formula can be written if its numbers are finite, and is complete. -/
lemma writable_of_ofText {f : String} {t : Tree} (h : ofText f = .done t)
    (hfinite : t.isFinite = true) : t.Writable ∧ t.completed = t := by
  have hsettled := (ofTextWithin_spec heightLimit f).2
  rw [← ofText, h] at hsettled
  obtain ⟨u, htree, hcanonical⟩ := hsettled rfl
  obtain rfl : t = u := Option.some.inj htree
  exact ⟨⟨t.isSufficient_of_isCanonical hcanonical, hfinite⟩, Tree.completed_eq_self hcanonical⟩

/-- The command fails on an accepted formula just when the formula does not come back. -/
lemma failure?_runRoundTrip {f : String} {t : Tree} (p : Presentation) (h : ofText f = .done t) :
    (Command.runRoundTrip p f).failure? = none ↔ (ofText (t.formula false)).agrees t = true := by
  have hresult : (ofText f).result = .ok t := by
    rw [h]
    rfl
  rw [Command.runRoundTrip]
  dsimp only
  rw [hresult]
  dsimp only
  split_ifs with hstable <;> simp [hstable]

lemma agrees_done {t u : Tree} : (done u).agrees t = u.beq t := rfl

/-- The formula of an accepted tree has an equal tree just when it keeps the bounds. -/
lemma agrees_formula_iff {f : String} {t : Tree} (h : ofText f = .done t)
    (hfinite : t.isFinite = true) (equals : Bool) :
    (ofText (t.formula equals)).agrees t = true ↔ t.FitsBounds := by
  obtain ⟨hwritable, hcomplete⟩ := writable_of_ofText h hfinite
  obtain ⟨hfits, hpasses⟩ := hwritable.ofText_formula equals
  by_cases hbounds : t.FitsBounds
  · rw [hfits hbounds, hcomplete, agrees_done]
    exact iff_of_true (Tree.normal_beq_self hfinite) hbounds
  · obtain ⟨d, hfailed, _⟩ := hpasses hbounds
    rw [hfailed]
    exact iff_of_false (fun hagrees => by cases hagrees) hbounds

/-- An accepted formula comes back as it was just when the formula of its tree keeps the bounds of
the grammar; where it does not, that a bound is passed is all that is reported. -/
theorem roundTrip_iff_fitsBounds (f : String) (t : Tree) (p : Presentation) (h : ofText f = .done t)
    (hfinite : t.isFinite = true) :
    (∀ equals, (ofText (t.formula equals)).agrees t = true ↔ t.FitsBounds) ∧
      ((Command.runRoundTrip p f).failure? = none ↔ t.FitsBounds) ∧
      (¬t.FitsBounds →
        ∀ equals, ∃ d, ofText (t.formula equals) = .failed d ∧ d.ReportsBound) := by
  have hwritable := (writable_of_ofText h hfinite).1
  refine ⟨agrees_formula_iff h hfinite, ?_, fun hbounds equals => ?_⟩
  · rw [failure?_runRoundTrip p h, agrees_formula_iff h hfinite]
  · exact (hwritable.ofText_formula equals).2 hbounds

end Lowering

/-! ## Long quotients

A quotient of quotients needs no parentheses, since division groups to the left, but is written with
them.  So each further division adds a level to the formula of the tree, and none to a formula
without the parentheses. -/

namespace Term

/-- The number one. -/
def one : Number := .finite false ⟨2 ^ 52, 1022, by decide⟩

/-- The term `1 / 1 / … / 1` with `n` divisions and no parentheses. -/
def quotient : Nat → Term
  | 0 => .number one
  | n + 1 => .between .divide (quotient n) (.number one)

lemma readable_quotient (n : Nat) : (quotient n).Readable := by
  induction n with
  | zero => exact .number _ _
  | succ n ih =>
    refine .between rfl ih (.number _ _) (fun child hchild => ?_) rfl
    cases n with
    | zero => cases hchild
    | succ n => exact (Option.some.inj hchild).symm

lemma isFinite_quotient (n : Nat) : (quotient n).tree.isFinite = true := by
  induction n with
  | zero => rfl
  | succ n ih =>
    rw [quotient, tree, Tree.isFinite, Tree.areFinite, ih]
    rfl

lemma nesting_quotient (n : Nat) : (quotient n).nesting = 0 := by
  induction n with
  | zero => rfl
  | succ n ih =>
    rw [quotient, nesting, ih]
    rfl

lemma height_quotient (n : Nat) : (quotient n).height = n + 1 := by
  induction n with
  | zero => rfl
  | succ n ih =>
    rw [quotient, height, ih, height]
    omega

/-- A quotient is accepted if it is not too high. -/
lemma ofText_quotient {n : Nat} (h : n ≤ 255) :
    Lowering.ofText (String.ofList (quotient n).spell) = .done (quotient n).tree := by
  refine ((readable_quotient n).ofText_spell false).1 ⟨?_, ?_⟩
  · rw [nesting_quotient]
    exact Nat.zero_le _
  · rw [height_quotient]
    exact Nat.succ_le_succ h

/-- The layout of a quotient has parentheses around each quotient in it. -/
lemma ofTree_quotient (n : Nat) : ofTree (quotient (n + 2)).tree =
    .between .divide (.group (ofTree (quotient (n + 1)).tree)) (.number one) := rfl

lemma nesting_ofTree_quotient (n : Nat) : (ofTree (quotient (n + 1)).tree).nesting = n := by
  induction n with
  | zero => rfl
  | succ n ih =>
    rw [ofTree_quotient, nesting, nesting, ih]
    rfl

lemma height_ofTree_quotient (n : Nat) : (ofTree (quotient (n + 1)).tree).height = n + 2 := by
  induction n with
  | zero => rfl
  | succ n ih =>
    rw [ofTree_quotient, height, height, height, ih]
    omega

/-- The formula of a quotient keeps the bounds up to 129 divisions. -/
lemma fitsBounds_quotient (n : Nat) : (quotient n).tree.FitsBounds ↔ n ≤ 129 := by
  cases n with
  | zero => decide
  | succ n =>
    rw [Tree.FitsBounds, FitsBounds, nesting_ofTree_quotient, height_ofTree_quotient, nestingLimit,
      heightLimit]
    omega

end Term

namespace Lowering

open Term (quotient)

/-- The longest quotient that comes back, and the shortest that does not. -/
theorem roundTrip_quotients :
    (ofText (String.ofList (quotient 129).spell) = .done (quotient 129).tree ∧
      (quotient 129).tree.isFinite = true ∧
      (Command.runRoundTrip ⟨.text, false⟩ (String.ofList (quotient 129).spell)).failure? = none) ∧
    ofText (String.ofList (quotient 130).spell) = .done (quotient 130).tree ∧
      (quotient 130).tree.isFinite = true ∧
      ∃ d, ofText ((quotient 130).tree.formula false) = .failed d ∧ d.ReportsBound := by
  have haccepted (n : Nat) (hn : n ≤ 255) := Term.ofText_quotient hn
  have hstable := roundTrip_iff_fitsBounds _ _ ⟨.text, false⟩ (haccepted 129 (by decide))
    (Term.isFinite_quotient 129)
  have hunstable := roundTrip_iff_fitsBounds _ _ ⟨.text, false⟩ (haccepted 130 (by decide))
    (Term.isFinite_quotient 130)
  refine ⟨⟨haccepted 129 (by decide), Term.isFinite_quotient 129, ?_⟩,
    haccepted 130 (by decide), Term.isFinite_quotient 130, ?_⟩
  · exact hstable.2.1.2 ((Term.fitsBounds_quotient 129).2 (by decide))
  · exact hunstable.2.2 (fun hfits => absurd ((Term.fitsBounds_quotient 130).1 hfits) (by decide))
      false

/-- Not every accepted formula comes back as it was. -/
theorem not_forall_agrees_formula : ¬∀ (f : String) (t : Tree), ofText f = .done t →
    t.isFinite = true → (ofText (t.formula false)).agrees t = true := by
  intro hall
  have haccepted : ofText _ = .done (quotient 130).tree := Term.ofText_quotient (by decide)
  have hagrees := hall _ _ haccepted (Term.isFinite_quotient 130)
  rw [agrees_formula_iff haccepted (Term.isFinite_quotient 130),
    Term.fitsBounds_quotient] at hagrees
  exact absurd hagrees (by decide)

end Lowering

end FormulaTree
