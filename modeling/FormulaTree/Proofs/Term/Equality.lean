import FormulaTree.Proofs.Tree.Completion
import FormulaTree.Term

/-!
# Equal trees are written alike

Zero and negative zero are written alike, so a tree and its normal form have the same formula
(`formula_normal`), and so do equal trees (`formula_congr`).  Layout never looks at a number but to
compare pivots, and that comparison does not tell zero from negative zero either.
-/

namespace FormulaTree

/-- Only negative zero is not its own normal form. -/
lemma Number.normal_cases (n : Number) :
    n.normal = n ∨ (n = .finite true .zero ∧ n.normal = .finite false .zero) := by
  cases n with
  | infinite | notANumber => exact .inl rfl
  | finite negative m =>
    by_cases hzero : m.significand = 0
    · rw [Magnitude.eq_zero_of_significand hzero]
      cases negative with
      | false => exact .inl rfl
      | true => exact .inr ⟨rfl, rfl⟩
    · rw [normal, isBelowZero, bne_iff_ne.2 hzero, Bool.and_true]
      exact .inl rfl

/-- Zero is written without a sign. -/
lemma Number.formulaText_normal (n : Number) : n.normal.formulaText = n.formulaText := by
  rcases n.normal_cases with hsame | ⟨rfl, hzero⟩
  · rw [hsame]
  · rw [hzero]
    decide +kernel

namespace Tree

/-- Only an operation has an operation for its normal form. -/
lemma eq_operation_of_normal {t : Tree} {op : Operator} {us : List Tree}
    (h : t.normal = .operation op us) : ∃ ts, t = .operation op ts ∧ normals ts = us := by
  cases t with
  | operation op' ts =>
    obtain ⟨rfl, hoperands⟩ := Tree.operation.inj h
    exact ⟨ts, rfl, hoperands⟩
  | text | number | boolean | field => cases h

lemma eq_cons_of_normals {ts us : List Tree} {u : Tree} (h : normals ts = u :: us) :
    ∃ t rest, ts = t :: rest ∧ t.normal = u ∧ normals rest = us := by
  cases ts with
  | nil => cases h
  | cons t rest =>
    obtain ⟨hfirst, hothers⟩ := List.cons.inj h
    exact ⟨t, rest, rfl, hfirst, hothers⟩

lemma length_normals (ts : List Tree) : (normals ts).length = ts.length := by
  rw [normals_eq_map, List.length_map]

end Tree

namespace Term

mutual

/-- The term with zero for negative zero. -/
def normal : Term → Term
  | .blank => .blank
  | .text s => .text s
  | .number n => .number n.normal
  | .boolean b => .boolean b
  | .field f => .field f
  | .group inner => .group (normal inner)
  | .between op left right => .between op (normal left) (normal right)
  | .call name arguments => .call name (normals arguments)

/-- The terms with zero for negative zero. -/
def normals : List Term → List Term
  | [] => []
  | term :: terms => normal term :: normals terms

end

lemma normals_eq_map (terms : List Term) : normals terms = terms.map normal := by
  induction terms with
  | nil => rfl
  | cons term terms ih => rw [normals, ih, List.map_cons]

mutual

lemma spell_normal : ∀ term : Term, term.normal.spell = term.spell
  | .blank | .text _ | .boolean _ | .field _ => rfl
  | .number n => Number.formulaText_normal n
  | .group inner => by rw [normal, spell, spell, spell_normal inner]
  | .between op left right => by
    rw [normal, spell, spell, spell_normal left, spell_normal right]
  | .call name arguments => by rw [normal, spell, spell, spellArguments_normals arguments]

lemma spellArguments_normals : ∀ terms : List Term,
    spellArguments (normals terms) = spellArguments terms
  | [] => rfl
  | [term] => spell_normal term
  | term :: next :: terms => by
    have hcons (a b : Term) (bs : List Term) : spellArguments (a :: b :: bs) =
        spell a ++ (',' :: ' ' :: spellArguments (b :: bs)) := rfl
    have hothers := spellArguments_normals (next :: terms)
    rw [normals] at hothers
    rw [normals, normals, hcons, hcons, spell_normal term, hothers]

end

/-! ## Layout -/

lemma ofOperand_normal (parent : Operator) (first : Bool) (t : Tree) (term : Term) :
    ofOperand parent first t.normal term.normal = (ofOperand parent first t term).normal := by
  have hgroup : needsGroup parent first t.normal = needsGroup parent first t := by
    cases t <;> rfl
  cases term with
  | blank => rfl
  | text | number | boolean | field | group | between | call =>
    simp only [normal, ofOperand, hgroup]
    split_ifs <;> rfl

lemma ofDefault_normal (t : Tree) (term : Term) :
    ofDefault t.normal term.normal = normals (ofDefault t term) := by
  have hempty : t.normal.isEmptyText = t.isEmptyText := by
    cases t <;> rfl
  cases term with
  | blank => rfl
  | text | number | boolean | field | group | between | call =>
    simp only [normal, ofDefault, hempty]
    split_ifs <;> rfl

lemma ofOperation_normal (op : Operator) (ts : List Tree) (terms : List Term) :
    ofOperation op (Tree.normals ts) (normals terms) = (ofOperation op ts terms).normal := by
  match ts, terms with
  | [left, right], [leftTerm, rightTerm] =>
    simp only [Tree.normals, normals, ofOperation, ofOperand_normal]
    split_ifs <;> rfl
  | [], terms | [_], terms | _ :: _ :: _ :: _, terms => rfl
  | [_, _], [] | [_, _], [_] | [_, _], _ :: _ :: _ :: _ => rfl

/-! The branches of `ofTree` tell trees apart by their shape, which normal forms keep. -/

lemma ne_pair_normals {operands : List Tree}
    (h : ∀ test result rest, operands = test :: result :: rest → False)
    (test result : Tree) (rest : List Tree) :
    Tree.normals operands = test :: result :: rest → False := by
  intro hnormal
  obtain ⟨t, ts, rfl, _, hts⟩ := Tree.eq_cons_of_normals hnormal
  obtain ⟨r, rs, rfl, _, _⟩ := Tree.eq_cons_of_normals hts
  exact h t r rs rfl

lemma ne_equal_normal {t : Tree} (h : ∀ p c, t = .operation .equal [p, c] → False) (p c : Tree) :
    t.normal = .operation .equal [p, c] → False := by
  intro hnormal
  obtain ⟨ts, rfl, hts⟩ := Tree.eq_operation_of_normal hnormal
  obtain ⟨p₀, rest, rfl, _, hrest⟩ := Tree.eq_cons_of_normals hts
  obtain ⟨c₀, more, rfl, _, hmore⟩ := Tree.eq_cons_of_normals hrest
  obtain rfl : more = [] := by
    cases more with
    | nil => rfl
    | cons => cases hmore
  exact h p₀ c₀ rfl

lemma ne_ternary_normal {t : Tree}
    (h : ∀ test result rest, t = .operation .ternary (test :: result :: rest) → False)
    (test result : Tree) (rest : List Tree) :
    t.normal = .operation .ternary (test :: result :: rest) → False := by
  intro hnormal
  obtain ⟨ts, rfl, hts⟩ := Tree.eq_operation_of_normal hnormal
  exact ne_pair_normals (fun test result rest hts => h test result rest (hts ▸ rfl)) _ _ _ hts

lemma ne_switch_normal {t : Tree}
    (h : ∀ p c result rest,
      t = .operation .ternary (.operation .equal [p, c] :: result :: rest) → False)
    (p c result : Tree) (rest : List Tree) :
    t.normal = .operation .ternary (.operation .equal [p, c] :: result :: rest) → False := by
  intro hnormal
  obtain ⟨ts, rfl, hts⟩ := Tree.eq_operation_of_normal hnormal
  obtain ⟨test, more, rfl, htest, hmore⟩ := Tree.eq_cons_of_normals hts
  obtain ⟨r, rs, rfl, _, _⟩ := Tree.eq_cons_of_normals hmore
  refine ne_equal_normal (fun p c heq => ?_) p c htest
  exact h p c r rs (heq ▸ rfl)

lemma ofTree_operation {op : Operator} {operands : List Tree}
    (h : op = .ternary → ∀ test result rest, operands = test :: result :: rest → False) :
    ofTree (.operation op operands) =
      if operands.length < op.arity.min then .blank
      else ofOperation op (op.arity.clip operands) (op.arity.clip (ofTrees operands)) := by
  rw [ofTree]
  · exact fun pivot case result rest hop heq => h hop _ _ _ heq
  · exact fun test result rest hop heq => h hop _ _ _ heq

lemma ofTree_operation_normal {op : Operator} {operands : List Tree}
    (h : op = .ternary → ∀ test result rest, operands = test :: result :: rest → False)
    (hoperands : ¬operands.length < op.arity.min →
      ofTrees (Tree.normals operands) = normals (ofTrees operands)) :
    ofTree (Tree.operation op operands).normal = (ofTree (.operation op operands)).normal := by
  rw [Tree.normal, ofTree_operation h, ofTree_operation fun hop => ne_pair_normals (h hop),
    Tree.length_normals]
  split_ifs with hfew
  · rfl
  · rw [hoperands hfew, Tree.normals_eq_map, normals_eq_map, Arity.clip_map, Arity.clip_map,
      ← Tree.normals_eq_map, ← normals_eq_map, ofOperation_normal]

lemma ofTree_normal (t : Tree) : ofTree t.normal = (ofTree t).normal := by
  induction t using ofTree_induction
    (Q := fun ts => ofTrees (Tree.normals ts) = normals (ofTrees ts))
    (R := fun rest => ifRest (Tree.normals rest) = normals (ifRest rest))
    (S := fun pivot rest =>
      switchRest pivot.normal (Tree.normals rest) = normals (switchRest pivot rest)) with
  | text | number | boolean | field => rfl
  | switch pivot case result rest hpivot hcase hresult hrest =>
    simp only [Tree.normal, Tree.normals, ofTree, normal, normals, hpivot, hcase, hresult, hrest]
  | conditional test result rest hne htest hresult hrest =>
    simp only [Tree.normal, Tree.normals]
    rw [ofTree, ofTree, normal, normals, normals, htest, hresult, hrest]
    · exact hne
    · exact ne_equal_normal hne
  | few op operands hne hfew =>
    exact ofTree_operation_normal (fun hop test result rest => hne test result rest hop)
      fun hmin => absurd hfew hmin
  | enough op operands hne _ hoperands =>
    exact ofTree_operation_normal (fun hop test result rest => hne test result rest hop)
      fun _ => hoperands
  | nil | ifEnd | switchEnd => rfl
  | cons t ts hfirst hothers =>
    rw [Tree.normals, ofTrees, ofTrees, normals, hfirst, hothers]
  | ifTernary test result rest tail htest hresult hrest =>
    simp only [Tree.normal, Tree.normals, ifRest, normals, htest, hresult, hrest]
  | ifDefault t tail hne ht =>
    rw [Tree.normals, ifRest, ifRest, ht, ofDefault_normal]
    · exact hne
    · exact ne_ternary_normal hne
  | switchSame pivot pivot' case result rest tail hsame hcase hresult hrest =>
    have hnormal : pivot'.normal.beq pivot.normal = true := by rw [Tree.beq_normal, hsame]
    simp only [Tree.normal, Tree.normals, switchRest]
    rw [if_pos hsame, if_pos hnormal, normals, normals, hcase, hresult, hrest]
  | switchOther pivot pivot' case result rest tail hother hpivot hcase hresult hrest =>
    have hnormal : ¬pivot'.normal.beq pivot.normal = true := by rwa [Tree.beq_normal]
    simp only [Tree.normal, Tree.normals, switchRest]
    rw [if_neg hother, if_neg hnormal, hpivot, hcase, hresult, hrest]
    rfl
  | switchDefault pivot t tail hne ht =>
    rw [Tree.normals, switchRest, switchRest, ht, ofDefault_normal]
    · exact hne
    · exact ne_switch_normal hne

end Term

namespace Tree

/-- A tree and its normal form have the same formula. -/
theorem formula_normal (t : Tree) (equals : Bool) : t.normal.formula equals = t.formula equals := by
  rw [formula, formula, Term.ofTree_normal, Term.spell_normal]

/-- Equal trees have the same formula. -/
theorem formula_congr {t u : Tree} (h : t.beq u = true) (equals : Bool) :
    t.formula equals = u.formula equals := by
  rw [← formula_normal t, ← formula_normal u, normal_eq_of_beq h]

end Tree

end FormulaTree
