import FormulaTree.Proofs.Term.Equality
import FormulaTree.Proofs.Tree.Cases

/-!
# Calls that stay flat

A chain of ternaries is laid out as one call with all its pairs in a row, and this undoes what is
done to the arguments of `IF` and `SWITCH`: the formula of such a call's tree is the call of the
formulas of its arguments.  An argument is missing only if it is a default that is the empty text,
which stands for no default at all.

## Where the call begins and ends

The layout sees the chain, and not the call that it comes from.  It takes an `IF` for a `SWITCH` if
the first test compares by `==`, and goes on into a default that is a ternary: any ternary for `IF`,
and for `SWITCH` one that compares the same pivot.  `Cases.IsApart` says that nothing of this kind
is the case.
-/

namespace FormulaTree

namespace Tree.Cases

/-- The word by which the tree is called. -/
def word (c : Cases) : String :=
  match c.pivot? with
  | none => "IF"
  | some _ => "SWITCH"

/-- The arguments that are written. -/
def written (c : Cases) : List Tree :=
  c.pivot?.toList ++ (flat c.pairs ++ if c.default.isEmptyText then [] else [c.default])

/-- The first test and the default do not look like part of another chain. -/
structure IsApart (c : Cases) : Prop where
  test : c.pivot? = none → ∀ p ∈ c.pairs.head?, ∀ a b, p.1 ≠ .operation .equal [a, b]
  default : c.pivot? = none → ∀ operands, c.default ≠ .operation .ternary operands
  pivot : ∀ pivot ∈ c.pivot?, ∀ a b operands,
    c.default = .operation .ternary (.operation .equal [a, b] :: operands) → a.beq pivot = false

end Tree.Cases

namespace Term

open FormulaTree.Tree (Cases)
open FormulaTree.Tree.Cases (flat flat_cons ternaries)

/-! ## Defaults -/

/-- Something is written for an operation with enough operands. -/
lemma ofTree_ne_blank {t : Tree} (h : t.isSufficient = true) : ofTree t ≠ .blank := by
  unfold ofTree
  split
  case h_7 op operands _ _ =>
    have hcount : op.arity.min ≤ operands.length := by
      rw [Tree.isSufficient, Tree.everyOperation_operation, decide_eq_true_iff] at h
      exact h.1
    rw [if_neg (Nat.not_lt.2 hcount)]
    unfold ofOperation
    split
    · split_ifs <;> simp
    · simp
  all_goals simp

lemma ofDefault_eq {t : Tree} {term : Term} (h : term ≠ .blank) :
    ofDefault t term = if t.isEmptyText then [] else [term] := by
  rw [ofDefault]
  exact h

/-- The default of an `IF` is an argument of its own unless it is a ternary. -/
lemma ifRest_default {t : Tree} (h : ∀ operands, t ≠ .operation .ternary operands) :
    ifRest [t] = ofDefault t (ofTree t) := by
  rw [ifRest]
  intro test result rest heq
  exact h _ heq

/-- The default of a `SWITCH` is an argument of its own unless it compares the same pivot. -/
lemma switchRest_default {pivot t : Tree} (h : ∀ a b operands,
      t = .operation .ternary (.operation .equal [a, b] :: operands) → a.beq pivot = false) :
    switchRest pivot [t] = ofDefault t (ofTree t) := by
  unfold switchRest
  split
  · rename_i heq
    cases heq
  · rename_i pivot' case result rest _ heq
    obtain ⟨rfl, -⟩ := List.cons.inj heq
    rw [h _ _ _ rfl, if_neg Bool.false_ne_true, ofTree]
    rfl
  · rename_i heq
    obtain ⟨rfl, -⟩ := List.cons.inj heq
    rfl

/-! ## Chains -/

lemma ifRest_ternaries {default : Tree} (h : ∀ operands, default ≠ .operation .ternary operands)
    (pairs : List (Tree × Tree)) : ifRest [ternaries (fun t => t) default pairs] =
      (flat pairs).map ofTree ++ ofDefault default (ofTree default) := by
  induction pairs with
  | nil => exact ifRest_default h
  | cons p pairs ih =>
    rw [flat_cons, List.map_cons, List.map_cons, List.cons_append, List.cons_append, ← ih]
    exact ifRest.eq_2 _ _ _ _

lemma switchRest_ternaries {pivot default : Tree} (hpivot : pivot.beq pivot = true)
    (h : ∀ a b operands, default = .operation .ternary (.operation .equal [a, b] :: operands) →
      a.beq pivot = false) (pairs : List (Tree × Tree)) :
    switchRest pivot [ternaries (fun t => .operation .equal [pivot, t]) default pairs] =
      (flat pairs).map ofTree ++ ofDefault default (ofTree default) := by
  induction pairs with
  | nil => exact switchRest_default h
  | cons p pairs ih =>
    rw [flat_cons, List.map_cons, List.map_cons, List.cons_append, List.cons_append, ← ih]
    exact (switchRest.eq_2 _ _ _ _ _ _).trans (if_pos hpivot)

/-- A chain whose first test is no comparison is one call of `IF`. -/
lemma ofTree_ternaries {default : Tree} (h : ∀ operands, default ≠ .operation .ternary operands)
    {p : Tree × Tree} (htest : ∀ a b, p.1 ≠ .operation .equal [a, b])
    (pairs : List (Tree × Tree)) : ofTree (ternaries (fun t => t) default (p :: pairs)) =
      .call "IF" ((flat (p :: pairs)).map ofTree ++ ofDefault default (ofTree default)) := by
  have hrest := ifRest_ternaries h pairs
  rw [flat_cons, List.map_cons, List.map_cons, List.cons_append, List.cons_append, ← hrest]
  apply ofTree.eq_6
  intro a b heq
  exact htest a b heq

/-- A chain that compares one pivot is one call of `SWITCH`. -/
lemma ofTree_ternaries_equal {pivot default : Tree} (hpivot : pivot.beq pivot = true)
    (h : ∀ a b operands, default = .operation .ternary (.operation .equal [a, b] :: operands) →
      a.beq pivot = false) (p : Tree × Tree) (pairs : List (Tree × Tree)) :
    ofTree (ternaries (fun t => .operation .equal [pivot, t]) default (p :: pairs)) =
      .call "SWITCH" (ofTree pivot ::
        ((flat (p :: pairs)).map ofTree ++ ofDefault default (ofTree default))) := by
  have hrest := switchRest_ternaries hpivot h pairs
  rw [flat_cons, List.map_cons, List.map_cons, List.cons_append, List.cons_append, ← hrest]
  exact ofTree.eq_5 _ _ _ _

/-- The tree of cases is laid out as one call. -/
lemma ofTree_tree {c : Cases} (hpairs : c.pairs ≠ []) (hapart : c.IsApart)
    (hdefault : c.default.isSufficient = true)
    (hpivot : ∀ pivot ∈ c.pivot?, pivot.isNumeric = true) :
    ofTree c.tree = .call c.word (c.written.map ofTree) := by
  obtain ⟨pivot?, pairs, default?⟩ := c
  obtain ⟨p, pairs, rfl⟩ := List.exists_cons_of_ne_nil hpairs
  have hwritten (default : Tree) : (flat (p :: pairs) ++
      if default.isEmptyText then [] else [default]).map ofTree =
        (flat (p :: pairs)).map ofTree ++ if default.isEmptyText then [] else [ofTree default] := by
    rw [List.map_append]
    split_ifs <;> rfl
  cases pivot? with
  | none =>
    refine (ofTree_ternaries (hapart.default rfl) (hapart.test rfl p rfl) pairs).trans ?_
    rw [ofDefault_eq (ofTree_ne_blank hdefault), ← hwritten]
    rfl
  | some pivot =>
    have hself := Tree.beq_self (hpivot pivot rfl)
    refine (ofTree_ternaries_equal hself (hapart.pivot pivot rfl) p pairs).trans ?_
    rw [ofDefault_eq (ofTree_ne_blank hdefault), ← hwritten]
    rfl

/-! ## Text -/

/-- Arguments are written with a comma and a blank between them. -/
lemma ofList_spellArguments (terms : List Term) : String.ofList (spellArguments terms) =
    ", ".intercalate (terms.map fun term => String.ofList term.spell) := by
  induction terms with
  | nil => rfl
  | cons term rest ih =>
    cases rest with
    | nil => rfl
    | cons next more =>
      have hspell : spellArguments (term :: next :: more) =
          term.spell ++ (", ".toList ++ spellArguments (next :: more)) := by
        rw [spellArguments]
        · rfl
        · exact List.cons_ne_nil next more
      rw [List.map_cons] at ih
      rw [hspell, String.ofList_append, String.ofList_append, String.ofList_toList, ih,
        List.map_cons, List.map_cons, String.intercalate_cons_cons, String.append_assoc]

end Term

namespace Tree

lemma formula_eq (t : Tree) : t.formula false = String.ofList (Term.ofTree t).spell := rfl

/-- **Calls stay flat.**  The formula of the tree of an `IF` or `SWITCH` is the one call of the
formulas of its arguments, without the default just if that is the empty text. -/
theorem formula_of_ofCall? (k : Keyword) (c : Cases) (hspelled : c.IsSpelled k.spelling)
    (hpairs : c.pairs ≠ []) (hapart : c.IsApart) (hdefault : c.default.isSufficient = true)
    (hpivot : ∀ pivot ∈ c.pivot?, pivot.isNumeric = true) :
    ∃ t, ofCall? k c.arguments = some t ∧ t.formula false =
      c.word ++ "(" ++ ", ".intercalate (c.written.map fun u => u.formula false) ++ ")" := by
  refine ⟨c.tree, Cases.ofCall?_arguments hspelled, ?_⟩
  have hjoined := Term.ofList_spellArguments (c.written.map Term.ofTree)
  rw [List.map_map] at hjoined
  have hspell : (Term.call c.word (c.written.map Term.ofTree)).spell = c.word.toList ++
      ("(".toList ++ (Term.spellArguments (c.written.map Term.ofTree) ++ ")".toList)) := rfl
  rw [formula_eq, Term.ofTree_tree hpairs hapart hdefault hpivot, hspell]
  simp only [String.ofList_append, String.ofList_toList, hjoined, String.append_assoc]
  rfl

namespace Cases

/-- A default that is a `SWITCH` of its own. -/
def nested : Cases where
  pivot? := some (.field .me)
  pairs := [(.text "a", .boolean true), (.text "b", .text "")]
  default? := some (.operation .ternary
    [.operation .equal [.field .now, .text "c"], .boolean false, .text ""])

/-- Only the second condition compares, and the default is the empty text. -/
def mixed : Cases where
  pivot? := none
  pairs := [(.field .me, .text "x"), (.operation .equal [.field .me, .text "y"], .text "z")]
  default? := some (.text "")

lemma nested_isApart : nested.IsApart where
  test h := by cases h
  default h := by cases h
  pivot := by
    rintro _ ⟨⟩ a b operands h
    cases h
    rfl

lemma mixed_isApart : mixed.IsApart where
  test := by
    rintro - _ ⟨⟩ a b h
    cases h
  default _ operands h := by cases h
  pivot _ h := by cases h

end Cases

theorem formula_of_ofCall?_nested :
    (∃ t, ofCall? ⟨.ternary, .switch⟩ Cases.nested.arguments = some t ∧
      t.formula false = "SWITCH(@me, \"a\", true, \"b\", \"\", SWITCH(@now, \"c\", false))") ∧
    ∃ t, ofCall? ⟨.ternary, .conditional⟩ Cases.mixed.arguments = some t ∧
      t.formula false = "IF(@me, \"x\", @me == \"y\", \"z\")" := by
  constructor
  · obtain ⟨t, ht, hformula⟩ := formula_of_ofCall? ⟨.ternary, .switch⟩ Cases.nested ⟨_, rfl⟩
      (by simp [Cases.nested]) Cases.nested_isApart rfl (by rintro _ ⟨⟩; rfl)
    exact ⟨t, ht, hformula.trans (by decide +kernel)⟩
  · obtain ⟨t, ht, hformula⟩ := formula_of_ofCall? ⟨.ternary, .conditional⟩ Cases.mixed rfl
      (by simp [Cases.mixed]) Cases.mixed_isApart rfl (by rintro _ ⟨⟩)
    exact ⟨t, ht, hformula.trans (by decide +kernel)⟩

end Tree

end FormulaTree
