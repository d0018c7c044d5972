import FormulaTree.Proofs.Lowering.TreeDepth

/-!
# How large the trees of formulas are

The value of a `SWITCH` is written once and compared with every case, so the tree holds it once for
each.  A value that is itself a `SWITCH` is copied with all its copies, and the tree of a formula
may be exponentially larger than the formula (`Term.size_switches`).

`Expr.treeSize` is the number of nodes as told by the expression.  It is linear in the tokens where
the values that stand in more than one test are not large (`Expr.Takes.isLinear`): with values of up
to twelve nodes, the tree has at most four nodes for each character.
-/

namespace FormulaTree

/-! ## The size of a call's tree -/

/-- The number of nodes of a call's tree by those of its arguments: for each pair a ternary, and for
each case a comparison with the value, and the empty text for an absent default. -/
def Spelling.size : Spelling → List Nat → Nat
  | .plain, ns => 1 + ns.sum
  | .conditional, ns => ns.length / 2 + ns.sum + (1 - ns.length % 2)
  | .switch, [] => 1
  | .switch, value :: ns => ns.length / 2 * (value + 2) + ns.sum + (1 - ns.length % 2)

namespace Tree

lemma sum_map_size (ts : List Tree) : (ts.map size).sum = sizes ts := by
  induction ts with
  | nil => rfl
  | cons t ts ih => rw [List.map_cons, List.sum_cons, ih, sizes]

/-- The size of a chain whose tests have so many nodes besides their conditions. -/
lemma size_chain {test : Tree → Tree} {added : Nat}
    (htest : ∀ t, (test t).size = added + t.size) (ts : List Tree) :
    (chain test ts).size = ts.length / 2 * (added + 1) + sizes ts + (1 - ts.length % 2) := by
  fun_induction chain test ts with
  | case1 => simp [size, sizes]
  | case2 t => simp [sizes]
  | case3 condition result rest ih =>
    have hpairs : (rest.length + 1 + 1) / 2 = rest.length / 2 + 1 := by omega
    have hparity : (rest.length + 1 + 1) % 2 = rest.length % 2 := by omega
    simp only [size, sizes, List.length_cons, htest, ih, hpairs, hparity, Nat.succ_mul]
    omega

/-- The tree of a call is as large as its arguments make it. -/
lemma size_ofCall? (k : Keyword) (ts : List Tree) (t : Tree) (h : ofCall? k ts = some t) :
    t.size = k.spelling.size (ts.map size) := by
  obtain ⟨operator, spelling⟩ := k
  cases spelling with
  | plain =>
    cases h
    rw [Spelling.size, sum_map_size, size]
  | conditional =>
    cases h
    have htest (t : Tree) : (id t).size = 0 + t.size := (Nat.zero_add _).symm
    rw [size_chain htest, Spelling.size, List.length_map, sum_map_size, Nat.zero_add, Nat.mul_one]
  | switch =>
    cases ts with
    | nil => cases h
    | cons pivot ts =>
      cases h
      have htest (t : Tree) : (operation .equal [pivot, t]).size = pivot.size + 1 + t.size := by
        simp only [size, sizes]
        omega
      rw [size_chain htest, List.map_cons, Spelling.size, List.length_map, sum_map_size]

end Tree

namespace Expr

/-- The number of nodes of the tree of an expression. -/
def treeSize : Expr → Nat := measure Spelling.size

/-- The number of nodes that a `SWITCH` with more than one case copies: those of its value. -/
def copied (e : Expr) : Nat :=
  match e.builder?, e.parts with
  | some ⟨_, .switch⟩, value :: pairs => if 4 ≤ pairs.length then value.treeSize else 0
  | _, _ => 0

/-! ## Linear trees -/

variable {e : Expr} {k : Keyword} {bound : Nat}

/-- Only a call has a keyword that builds a chain. -/
lemma marks_of_builder? (h : e.builder? = some k) (hk : k.spelling ≠ .plain) :
    e.marks = e.parts.length + 2 := by
  cases e with
  | number | text | boolean | identifier | member | unary => cases h
  | call => rfl
  | binary => exact absurd (Keyword.spelling_of_sign h) hk
  | conditional =>
    cases h
    exact absurd rfl hk

/-- The tree of an expression has so many nodes for its tokens, if it copies at most `bound`. -/
def IsLinear (bound : Nat) (e : Expr) (n : Nat) : Prop := 4 * e.treeSize + bound ≤ (bound + 4) * n

lemma IsLinear.sum {es : List Expr} {counts : List Nat}
    (h : List.Forall₂ (IsLinear bound) es counts) :
    4 * (es.map treeSize).sum + es.length * bound ≤ (bound + 4) * counts.sum := by
  induction h with
  | nil => simp
  | cons hfirst _ ih =>
    rw [IsLinear] at hfirst
    simp only [List.map_cons, List.sum_cons, List.length_cons, Nat.mul_add, Nat.add_mul,
      Nat.one_mul] at hfirst ih ⊢
    omega

lemma IsLinear.plain {es : List Expr} {counts : List Nat} {marks : Nat}
    (h : List.Forall₂ (IsLinear bound) es counts) (hmarks : 1 ≤ marks) :
    4 * Spelling.plain.size (es.map treeSize) + bound ≤ (bound + 4) * (counts.sum + marks) := by
  have hsum := IsLinear.sum h
  have hleast : (bound + 4) * 1 ≤ (bound + 4) * marks := Nat.mul_le_mul_left _ hmarks
  rw [Spelling.size, Nat.mul_add (bound + 4)]
  omega

lemma IsLinear.conditional {es : List Expr} {counts : List Nat}
    (h : List.Forall₂ (IsLinear bound) es counts) :
    4 * Spelling.conditional.size (es.map treeSize) + bound ≤
      (bound + 4) * (counts.sum + (es.length + 2)) := by
  have hsum := IsLinear.sum h
  have htokens : (bound + 4) * (counts.sum + (es.length + 2)) =
      (bound + 4) * counts.sum + es.length * bound + 4 * es.length + 2 * bound + 8 := by ring
  rw [Spelling.size, List.length_map, htokens]
  omega

/-- A pair costs a ternary and a test with a copy of the value.  It is worth two commas, and its own
tokens pay for half of the copy. -/
lemma IsLinear.switch {value : Expr} {pairs : List Expr} {n : Nat} {counts : List Nat}
    (hvalue : IsLinear bound value n) (hpairs : List.Forall₂ (IsLinear bound) pairs counts)
    (hcopied : 4 ≤ pairs.length → value.treeSize ≤ bound) :
    4 * Spelling.switch.size (value.treeSize :: pairs.map treeSize) + bound ≤
      (bound + 4) * (n + counts.sum + (pairs.length + 3)) := by
  have hsum := IsLinear.sum hpairs
  have htokens : (bound + 4) * (n + counts.sum + (pairs.length + 3)) = (bound + 4) * n +
      (bound + 4) * counts.sum + pairs.length * bound + 4 * pairs.length + 3 * bound + 12 := by ring
  rw [IsLinear] at hvalue
  rw [Spelling.size, List.length_map, htokens]
  by_cases hfew : pairs.length < 4
  · -- The value stands in one test at most.
    have hone : pairs.length / 2 * (value.treeSize + 2) ≤ 1 * (value.treeSize + 2) :=
      Nat.mul_le_mul_right _ (by omega)
    omega
  · have hcopies : 4 * (pairs.length / 2 * (value.treeSize + 2)) ≤
        2 * (pairs.length * bound) + 4 * pairs.length := by
      calc 4 * (pairs.length / 2 * (value.treeSize + 2))
          ≤ 4 * (pairs.length / 2 * (bound + 2)) := by
            gcongr
            exact hcopied (Nat.le_of_not_lt hfew)
        _ = 2 * (2 * (pairs.length / 2) * (bound + 2)) := by ring
        _ ≤ 2 * (pairs.length * (bound + 2)) := by
            gcongr
            omega
        _ = 2 * (pairs.length * bound) + 4 * pairs.length := by ring
    omega

/-- A tree is linear in the tokens if no value that is copied is large. -/
lemma Takes.isLinear {n : Nat} (h : e.Takes n) (hcopied : ∀ x, e.Holds x → x.copied ≤ bound) :
    IsLinear bound e n := by
  induction h with
  | @intro e n counts hlength hbelow hsum ih =>
    have hparts : List.Forall₂ (IsLinear bound) e.parts counts := by
      refine List.forall₂_iff_zip.2 ⟨hlength, fun {x m} hmem => ?_⟩
      have hx := e.parts_sublist.subset (List.of_mem_zip hmem).1
      exact ih x m hmem fun y hy => hcopied y (.child hx hy)
    refine le_trans ?_ (Nat.mul_le_mul_left (bound + 4) hsum)
    cases hbuilder : e.builder? with
    | none =>
      have hleast : (bound + 4) * 1 ≤ (bound + 4) * (counts.sum + e.marks) :=
        Nat.mul_le_mul_left _ (Nat.le_add_left_of_le e.marks_pos)
      rw [treeSize, measure_of_none hbuilder]
      omega
    | some k =>
      obtain ⟨operator, spelling⟩ := k
      have hsize : e.treeSize = spelling.size (e.parts.map treeSize) := measure_of_some hbuilder
      rw [hsize]
      cases spelling with
      | plain => exact IsLinear.plain hparts e.marks_pos
      | conditional =>
        rw [marks_of_builder? hbuilder nofun]
        exact IsLinear.conditional hparts
      | switch =>
        have hself := hcopied e (.self e)
        rw [marks_of_builder? hbuilder nofun]
        rw [copied, hbuilder] at hself
        generalize e.parts = parts at hself hparts
        obtain _ | ⟨value, pairs⟩ := parts
        · have hleast : (bound + 4) * 1 ≤ (bound + 4) * (counts.sum + 2) :=
            Nat.mul_le_mul_left _ (Nat.le_add_left 1 _)
          rw [List.map_nil, Spelling.size, List.length_nil, Nat.zero_add]
          omega
        · cases hparts with
          | @cons _ n _ counts hvalue hpairs =>
            refine IsLinear.switch hvalue hpairs fun hmany => ?_
            dsimp only at hself
            rwa [if_pos hmany] at hself

end Expr

namespace Lowering

/-- The tree of an accepted formula has as many nodes as its expression tells.  If no value that is
copied has more nodes than a bound, the tree is linear in the formula. -/
theorem size_eq_treeSize (f : String) (t : Tree) (h : ofText f = .done t) :
    ∃ tokens e, Token.ofText f = .ok tokens ∧ Grammar.statements tokens = .ok [e] ∧
      t.size = e.treeSize ∧
      ∀ bound, (∀ x, e.Holds x → x.copied ≤ bound) → 4 * t.size ≤ (bound + 4) * f.length := by
  obtain ⟨tokens, e, htokens, hstatements, hbuilds⟩ := exists_builds h
  obtain ⟨n, taken, hsublist, hderives, -⟩ :=
    Grammar.statements_derives hstatements e (List.mem_singleton.2 rfl)
  have hleaf (t : Tree) (ht : ∀ op us, t ≠ .operation op us) : t.size = 1 := by
    cases t with
    | operation op us => exact absurd rfl (ht op us)
    | _ => rfl
  have hsize : t.size = e.treeSize :=
    hbuilds.measure_eq hleaf fun k ts t _ => Tree.size_ofCall? k ts t
  refine ⟨tokens, e, htokens, hstatements, hsize, fun bound hcopied => ?_⟩
  have hlength : taken.length ≤ f.length :=
    hsublist.length_le.trans (Token.length_le_of_ofText htokens)
  have hlinear := hderives.takes.isLinear hcopied
  calc 4 * t.size ≤ 4 * e.treeSize + bound := by omega
    _ ≤ (bound + 4) * taken.length := hlinear
    _ ≤ (bound + 4) * f.length := Nat.mul_le_mul_left _ hlength

end Lowering

/-! ## Nested values -/

namespace Term

/-- The term `SWITCH(SWITCH(…, 1, 1, 1, 1), 1, 1, 1, 1)` with `n` calls, each the value of the next
one. -/
def switches : Nat → Term
  | 0 => .number one
  | n + 1 => .call "SWITCH" (switches n :: List.replicate 4 (.number one))

lemma readable_switches (n : Nat) : (switches n).Readable := by
  induction n with
  | zero => exact .number _ _
  | succ n ih =>
    refine .call (by decide) rfl rfl (List.forall_mem_cons.2 ⟨ih, fun a ha => ?_⟩)
    rw [List.eq_of_mem_replicate ha]
    exact .number _ _

lemma nesting_switches (n : Nat) : (switches n).nesting = n := by
  induction n with
  | zero => rfl
  | succ n ih =>
    rw [switches, nesting, nestings, ih]
    exact congrArg (· + 1) (Nat.max_eq_left (Nat.zero_le n))

lemma height_switches (n : Nat) : (switches n).height = n + 1 := by
  induction n with
  | zero => rfl
  | succ n ih =>
    have hothers := heights_replicate 4 (.number one)
    have hnumber : (Term.number one).height = 1 := rfl
    rw [switches, height, heights, ih]
    omega

lemma ofText_switches {n : Nat} (h : n ≤ 128) :
    Lowering.ofText (String.ofList (switches n).spell) = .done (switches n).tree := by
  refine ((readable_switches n).ofText_spell false).1 ⟨?_, ?_⟩
  · rw [nesting_switches]
    exact h
  · rw [height_switches, heightLimit]
    omega

/-- Each further call doubles the tree. -/
lemma size_switches (n : Nat) : (switches n).tree.size + 9 = 10 * 2 ^ n := by
  induction n with
  | zero => rfl
  | succ n ih =>
    have htree : (switches (n + 1)).tree.size =
        Spelling.switch.size [(switches n).tree.size, 1, 1, 1, 1] :=
      Tree.size_ofCall? ⟨.ternary, .switch⟩ (trees (switches n :: List.replicate 4 (.number one)))
        _ rfl
    rw [htree, Nat.pow_succ, ← Nat.mul_assoc, ← ih]
    simp [Spelling.size]
    omega

lemma formulaText_one : one.formulaText = ['1'] := by
  decide +kernel

/-- Each further call takes twenty characters. -/
lemma length_switches (n : Nat) : (switches n).spell.length = 20 * n + 1 := by
  induction n with
  | zero => rw [switches, spell, formulaText_one, List.length_singleton]
  | succ n ih =>
    have hname : "SWITCH".toList.length = 6 := rfl
    simp only [switches, spell, List.replicate, spellArguments, formulaText_one, List.length_append,
      List.length_cons, List.length_nil, hname, ih]
    omega

end Term

namespace Lowering

/-- A formula of 2561 characters with a tree of more than `2 ^ 131` nodes. -/
theorem size_eq_treeSize_switches :
    ofText (String.ofList (Term.switches 128).spell) = .done (Term.switches 128).tree ∧
      (Term.switches 128).spell.length = 2561 ∧
      (Term.switches 128).tree.size + 9 = 10 * 2 ^ 128 ∧
      ∃ tokens e, Token.ofText (String.ofList (Term.switches 128).spell) = .ok tokens ∧
        Grammar.statements tokens = .ok [e] ∧ e.treeSize + 9 = 10 * 2 ^ 128 := by
  have h := Term.ofText_switches (le_refl 128)
  have hsize := Term.size_switches 128
  obtain ⟨tokens, e, htokens, hstatements, heq, -⟩ := size_eq_treeSize _ _ h
  refine ⟨h, Term.length_switches 128, hsize, tokens, e, htokens, hstatements, ?_⟩
  rw [← heq, hsize]

/-- Trees are not linear in their formulas. -/
theorem not_forall_size_le : ¬ ∀ f t, ofText f = .done t → t.size ≤ 4 * f.length := by
  intro hall
  have hle := hall _ _ (Term.ofText_switches (show 6 ≤ 128 by decide))
  have hsize := Term.size_switches 6
  rw [String.length_ofList, Term.length_switches] at hle
  omega

end Lowering

end FormulaTree
