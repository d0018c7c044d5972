import FormulaTree.Proofs.Grammar.Completeness
import FormulaTree.Proofs.Grammar.Soundness

/-!
# Reading is deriving

The reader of expressions accepts what the grammar derives within the limits, and nothing else;
`readFrom_eq_ok_iff` puts soundness and completeness together, for the tokens between two indices
of a list.

That a list of tokens derives one expression only (`Derives.unique`) comes out of the same lemmas:
a reader that may go deep enough for both of two derivations gives one result.
-/

namespace FormulaTree.Grammar

/-- Reads an expression from the token with the given index on, and gives the index of the token
that it stops at. -/
def readFrom (ts : List Token) (i : Nat) : Except Fault (Expr × Nat) :=
  (reader.read (ts.drop i)).map fun r => (r.1, ts.length - r.2.length)

/-- The tokens that go on with an expression: the binary signs, a question mark, an opening
parenthesis and a point. -/
def Continues : Token.Kind → Prop
  | .operator sign => sign ≠ .bang
  | .question | .openParen | .dot => True
  | _ => False

lemma continues_choice_iff {kind : Token.Kind} :
    Category.choice.continues kind = true ↔ Continues kind := by
  cases kind with
  | operator sign => cases sign <;> simp [Category.continues, joins, binaryLevels, Continues]
  | _ => simp [Category.continues, joins, applies, Continues]

lemma ends_choice_iff {rest : List Token} :
    Ends .choice rest ↔ ∀ t ∈ rest.head?, ¬Continues t.kind := by
  simp only [Ends, ← continues_choice_iff, Bool.not_eq_true]

/-! ## One expression only -/

/-- Whatever else the tokens of an expression within the height limit derive is the same
expression, however deep the other derivation nests. -/
theorem Derives.unique {n k : Nat} {ts : List Token} {e e' : Expr} (h : Derives .choice n ts e)
    (hheight : e.height ≤ heightLimit) (h' : Derives .choice k ts e') : e' = e := by
  have hreads : Reads .choice n ts e := h.reads trivial
  have hreads' : Reads .choice k ts e' := h'.reads trivial
  -- A reader that may go down `max n k` levels is stopped by the depth of neither derivation.
  have hone := hreads.of_ends (max n k) (ends_nil _)
  have htwo := hreads'.of_ends (max n k) (ends_nil _)
  rcases hone with ⟨-, heq⟩ | ⟨hfits, -⟩
  · rcases htwo with ⟨-, heq'⟩ | ⟨-, f, heq', -⟩
    · rw [heq] at heq'
      cases heq'
      rfl
    · rw [heq] at heq'
      cases heq'
  · exact absurd ⟨Nat.le_max_left n k, hheight⟩ hfits

/-! ## Between two indices -/

/-- The tokens taken off at an index lie between it and the index that is stopped at. -/
lemma extract_of_drop_eq_append {ts taken rest : List Token} {i : Nat}
    (h : ts.drop i = taken ++ rest) (hne : taken ≠ []) :
    i ≤ ts.length - rest.length ∧ ts.length - rest.length ≤ ts.length ∧
      ts.extract i (ts.length - rest.length) = taken ∧
      ts.drop (ts.length - rest.length) = rest := by
  have hlength := congrArg List.length h
  rw [List.length_drop, List.length_append] at hlength
  have hpos := List.length_pos_iff.2 hne
  have hstop : ts.length - rest.length = i + taken.length := by omega
  refine ⟨by omega, by omega, ?_, ?_⟩
  · rw [List.extract_eq_take_drop, h, hstop, Nat.add_sub_cancel_left, List.take_left]
  · rw [hstop, ← List.drop_drop, h, List.drop_left]

/-- The tokens between two indices derive the expression within the limits, and it ends at the
second index. -/
def DerivesBetween (ts : List Token) (i j : Nat) (e : Expr) : Prop :=
  i ≤ j ∧ j ≤ ts.length ∧ (∃ n ≤ 128, Derives .choice n (ts.extract i j) e) ∧
    e.height ≤ 256 ∧ ∀ t ∈ ts[j]?, ¬Continues t.kind

lemma derivesBetween_of_readFrom {ts : List Token} {i j : Nat} {e : Expr}
    (h : readFrom ts i = .ok (e, j)) : DerivesBetween ts i j e := by
  obtain ⟨⟨e', rest⟩, hread, heq⟩ := map_eq_ok.1 h
  cases heq
  obtain ⟨⟨n, taken, htaken, hderives, hn, hheight⟩, hends⟩ := reader_sound hread
  obtain ⟨hij, hj, hextract, hdrop⟩ := extract_of_drop_eq_append htaken hderives.ne_nil
  refine ⟨hij, hj, ⟨n, hn, ?_⟩, hheight, ?_⟩
  · rw [hextract]
    exact hderives
  · rw [← List.head?_drop, hdrop]
    exact ends_choice_iff.1 hends

lemma readFrom_of_derivesBetween {ts : List Token} {i j : Nat} {e : Expr}
    (h : DerivesBetween ts i j e) : readFrom ts i = .ok (e, j) := by
  obtain ⟨hij, hj, ⟨n, hn, hderives⟩, hheight, hends⟩ := h
  have hsplit : ts.drop i = ts.extract i j ++ ts.drop j := by
    have htake := List.take_append_drop (j - i) (ts.drop i)
    rw [List.drop_drop, Nat.add_sub_cancel' hij] at htake
    exact htake.symm
  rw [← List.head?_drop] at hends
  rcases hderives.read (ends_choice_iff.2 hends) with ⟨-, heq⟩ | ⟨hfits, -⟩
  · rw [readFrom, hsplit, heq]
    simp only [Except.map, List.length_drop]
    rw [Nat.sub_sub_self hj]
  · exact absurd ⟨hn, hheight⟩ hfits

/-- Reading from an index gives an expression and stops at another index just when the tokens
between them derive it, nest at most 128 levels deep, the expression is at most 256 nodes high and
no token follows that would go on with it; and these tokens derive nothing else. -/
theorem readFrom_eq_ok_iff (ts : List Token) (i j : Nat) (e : Expr) :
    (readFrom ts i = .ok (e, j) ↔
      i ≤ j ∧ j ≤ ts.length ∧ (∃ n ≤ 128, Derives .choice n (ts.extract i j) e) ∧
        e.height ≤ 256 ∧ ∀ t ∈ ts[j]?, ¬Continues t.kind) ∧
    (readFrom ts i = .ok (e, j) →
      ∀ n e', Derives .choice n (ts.extract i j) e' → e' = e) := by
  refine ⟨⟨derivesBetween_of_readFrom, readFrom_of_derivesBetween⟩, ?_⟩
  intro h n e' hderives
  obtain ⟨-, -, ⟨k, -, hk⟩, hheight, -⟩ := derivesBetween_of_readFrom h
  exact hk.unique hheight hderives

end FormulaTree.Grammar
