import FormulaTree.Proofs.Lowering.Built
import FormulaTree.Proofs.RoundTrip

/-!
# How deep the trees of formulas are

A formula is at most `heightLimit` high, but its tree may be deeper.  An `IF` has a ternary for each
pair of its arguments, each below the one before, and is not higher for having more of them; a
`SWITCH` compares its value anew below each of them.  So the height bounds the tree of a formula
only up to the number of pairs, and a formula of height two can have a tree as deep as one likes
(`Term.depth_conditions`).

`Expr.treeDepth` is the depth of the tree as told by the expression: along each way down, an
argument counts as many levels as it ends up below the top of the call's tree (`Spelling.level`).
-/

namespace FormulaTree

namespace Spelling

/-! ## Where arguments end up -/

/-- How far below the top of a chain an argument is, if there are `count` of them and a condition is
`below` levels down in its test.  A default is as far down as the last result. -/
def chainLevel (below count i : Nat) : Nat :=
  min (i / 2 + 1) (count / 2) + if i % 2 = 0 ∧ i / 2 < count / 2 then below else 0

/-- How far below the top of a call's tree an argument is at most, if there are `count` of them. -/
def level : Spelling → Nat → Nat → Nat
  | .plain, _, _ => 1
  | .conditional, count, i => chainLevel 0 count i
  -- The value stands in every test, so also in the last.
  | .switch, count, 0 => (count - 1) / 2 + 1
  | .switch, count, i + 1 => chainLevel 1 (count - 1) i

/-- How far below the top of a call's tree an argument can be. -/
def spread : Spelling → Nat → Nat
  | .plain, _ => 1
  | .conditional, count => count / 2
  | .switch, count => (count - 1) / 2 + 1

lemma level_le_spread (s : Spelling) (count i : Nat) : s.level count i ≤ s.spread count := by
  cases s with
  | plain => exact le_refl 1
  | conditional =>
    simp only [level, spread, chainLevel]
    split <;> omega
  | switch =>
    cases i with
    | zero => exact le_refl _
    | succ i =>
      simp only [level, spread, chainLevel]
      split <;> omega

/-- How deep something is whose parts are so deep and so far below its top. -/
def deepest (level : Nat → Nat) : List Nat → Nat
  | [] => 1
  | d :: ds => max (level 0 + d) (deepest (fun i => level (i + 1)) ds)

/-- The depth of a call's tree by those of its arguments. -/
def depth (s : Spelling) (ds : List Nat) : Nat := deepest (s.level ds.length) ds

lemma le_deepest {level : Nat → Nat} {ds : List Nat} {i d : Nat} (h : ds[i]? = some d) :
    level i + d ≤ deepest level ds := by
  induction ds generalizing level i with
  | nil => cases h
  | cons e ds ih =>
    rw [deepest]
    cases i with
    | zero =>
      cases h
      exact le_max_left _ _
    | succ i =>
      refine le_trans ?_ (le_max_right _ _)
      exact @ih (fun i => level (i + 1)) i h

lemma deepest_le {level : Nat → Nat} {ds : List Nat} {spread bound : Nat}
    (hlevel : ∀ i, level i ≤ spread) (hbound : 1 ≤ bound) (hds : ∀ d ∈ ds, d ≤ bound) :
    deepest level ds ≤ spread + bound := by
  induction ds generalizing level with
  | nil => exact Nat.le_add_left_of_le hbound
  | cons d ds ih =>
    rw [List.forall_mem_cons] at hds
    refine max_le (Nat.add_le_add (hlevel 0) hds.1) ?_
    exact ih (fun i => hlevel (i + 1)) hds.2

/-- All is one level deeper if its parts are, and is two deep at least. -/
lemma max_deepest_succ (level : Nat → Nat) (ds : List Nat) :
    max 2 (deepest (fun i => 1 + level i) ds) = max 2 (1 + deepest level ds) := by
  induction ds generalizing level with
  | nil => rfl
  | cons d ds ih =>
    rw [deepest, deepest, Nat.add_assoc, ← Nat.add_max_add_left, max_left_comm, ih, max_left_comm]

lemma deepest_plain (ts : List Tree) :
    deepest (fun _ => 1) (ts.map Tree.depth) = 1 + Tree.depths ts := by
  induction ts with
  | nil => rfl
  | cons t ts ih =>
    rw [List.map_cons, deepest, ih, Tree.depths]
    omega

lemma chainLevel_add_two (below count i : Nat) :
    chainLevel below (count + 2) (i + 2) = 1 + chainLevel below count i := by
  have hcount : (count + 2) / 2 = count / 2 + 1 := by omega
  have hi : (i + 2) / 2 = i / 2 + 1 := by omega
  simp only [chainLevel, hcount, hi, Nat.add_mod_right, Nat.add_lt_add_iff_right]
  omega

end Spelling

namespace Tree

open Spelling (chainLevel deepest)

/-- The depth of a chain whose tests are `above` deep, or `below` deeper than their conditions. -/
lemma depth_chain {test : Tree → Tree} {above below : Nat}
    (htest : ∀ t, (test t).depth = max above (below + t.depth)) (ts : List Tree) :
    (chain test ts).depth = max (if ts.length / 2 = 0 then 0 else ts.length / 2 + above)
      (deepest (chainLevel below ts.length) (ts.map depth)) := by
  fun_induction chain test ts with
  | case1 => rfl
  | case2 t =>
    have hpos := t.depth_pos
    simp [chainLevel, deepest]
    omega
  | case3 condition result rest ih =>
    have hresult := result.depth_pos
    have hzero : chainLevel below (rest.length + 2) 0 = 1 + below := by
      rw [chainLevel, if_pos (by omega)]
      omega
    have hone : chainLevel below (rest.length + 2) 1 = 1 := by
      rw [chainLevel, if_neg (by omega)]
      omega
    have hpairs : (rest.length + 2) / 2 = rest.length / 2 + 1 := by omega
    refine eq_of_forall_ge_iff fun bound => ?_
    -- Each pair is one level below the pair before it.
    have hrest : 2 ≤ bound ∧ deepest (fun i => 1 + chainLevel below rest.length i)
        (rest.map depth) ≤ bound ↔
          2 ≤ bound ∧ 1 + deepest (chainLevel below rest.length) (rest.map depth) ≤ bound := by
      rw [← max_le_iff, Spelling.max_deepest_succ, max_le_iff]
    simp only [List.length_cons, List.map_cons, deepest, Nat.add_assoc, Nat.reduceAdd,
      Spelling.chainLevel_add_two, hzero, hone, hpairs, if_neg (Nat.succ_ne_zero _), depth, depths,
      htest, ih, ← Nat.add_max_add_left, max_le_iff]
    split <;> omega

/-- The tree of a call is as deep as its arguments make it. -/
lemma depth_ofCall? (k : Keyword) (ts : List Tree) (t : Tree)
    (hadmits : k.callArity.admits ts.length = true) (h : ofCall? k ts = some t) :
    t.depth = k.spelling.depth (ts.map depth) := by
  obtain ⟨operator, spelling⟩ := k
  rw [Spelling.depth, List.length_map]
  cases spelling with
  | plain =>
    cases h
    exact (Spelling.deepest_plain ts).symm
  | conditional =>
    cases h
    have htest (t : Tree) : (id t).depth = max 1 (0 + t.depth) := by
      have hpos := t.depth_pos
      rw [id, Nat.zero_add, Nat.max_eq_right hpos]
    have hlength : 2 ≤ ts.length := by
      rw [Keyword.callArity, Arity.admits_atLeast] at hadmits
      exact hadmits
    -- The last result alone is as deep as that.
    have hlast : ts.length / 2 + 1 ≤ deepest (chainLevel 0 ts.length) (ts.map depth) := by
      have hindex : 2 * (ts.length / 2) - 1 < ts.length := by omega
      have hle := @Spelling.le_deepest (chainLevel 0 ts.length) (ts.map depth)
        (2 * (ts.length / 2) - 1) _ (List.getElem?_eq_getElem (by simpa using hindex))
      have hpos := (ts[2 * (ts.length / 2) - 1]).depth_pos
      rw [List.getElem_map, chainLevel] at hle
      split at hle <;> omega
    rw [depth_chain htest, if_neg (by omega)]
    exact max_eq_right hlast
  | switch =>
    cases ts with
    | nil => cases h
    | cons pivot ts =>
      cases h
      have htest (t : Tree) :
          (operation .equal [pivot, t]).depth = max (1 + pivot.depth) (1 + t.depth) := by
        simp only [depth, depths]
        omega
      have hlength : 2 ≤ ts.length := by
        rw [Keyword.callArity, Arity.admits_atLeast] at hadmits
        exact Nat.le_of_succ_le_succ hadmits
      rw [depth_chain htest, if_neg (by omega), List.map_cons, deepest, ← Nat.add_assoc]
      rfl

end Tree

/-! ## The depth of a formula's tree -/

namespace Expr

/-- How deep the tree of an expression is. -/
def treeDepth : Expr → Nat := measure Spelling.depth

/-- How far below the top of its tree a part of the expression can be. -/
def spread (e : Expr) : Nat :=
  match e.builder? with
  | some k => k.spelling.spread e.parts.length
  | none => 1

variable {e : Expr} {k : Keyword}

lemma treeDepth_le (h : e.builder? = some k) {bound : Nat} (hbound : 1 ≤ bound)
    (hparts : ∀ x ∈ e.parts, x.treeDepth ≤ bound) : e.treeDepth ≤ e.spread + bound := by
  have hspread : e.spread = k.spelling.spread e.parts.length := by rw [spread, h]
  rw [treeDepth, measure_of_some h, hspread, ← e.parts.length_map (f := measure Spelling.depth)]
  refine Spelling.deepest_le (Spelling.level_le_spread _ _) hbound ?_
  rw [List.forall_mem_map]
  exact hparts

lemma treeDepth_eq_one (h : e.builder? = none) : e.treeDepth = 1 := measure_of_none h

/-- No argument is further down than the call has tokens of its own and arguments. -/
lemma spread_lt (h : e.builder? = some k) : e.spread < e.marks + e.parts.length := by
  have hspread : e.spread = k.spelling.spread e.parts.length := by rw [spread, h]
  rw [hspread]
  cases e with
  | number | text | boolean | identifier | member | unary => cases h
  | call callee arguments height l =>
    simp only [marks, parts]
    cases k.spelling <;> simp only [Spelling.spread] <;> omega
  | binary sign left right height l =>
    rw [Keyword.spelling_of_sign h]
    exact Nat.le_add_left 2 1
  | conditional =>
    cases h
    exact Nat.le_add_left 2 3

/-- Where an expression has no argument further down than `width`, a part has not either, and
`width` is not zero. -/
lemma Measured.one_le_width (he : e.Measured) {width : Nat}
    (h : ∀ x, e.Holds x → x.spread ≤ width) : 1 ≤ width := by
  induction he with
  | @intro e hheight hbelow ih =>
    by_cases hchildren : e.children = []
    · have hself := h e (.self e)
      cases e with
      | number | text | boolean | identifier => exact hself
      | _ => cases hchildren
    · obtain ⟨x, hx⟩ := List.exists_mem_of_ne_nil _ hchildren
      exact ih x hx fun y hy => h y (.child hx hy)

/-- The tree is at most as many times deeper than the expression as arguments are further down. -/
lemma Measured.treeDepth_le_mul (he : e.Measured) {width : Nat}
    (h : ∀ x, e.Holds x → x.spread ≤ width) : e.treeDepth ≤ width * e.height := by
  induction he with
  | @intro e hheight hbelow ih =>
    have hwidth := (Measured.intro hheight hbelow).one_le_width h
    cases hbuilder : e.builder? with
    | none =>
      rw [treeDepth_eq_one hbuilder, hheight]
      exact Nat.mul_pos hwidth (Nat.le_add_right 1 _)
    | some k =>
      have hparts (x : Expr) (hx : x ∈ e.parts) :
          x.treeDepth ≤ width * tallest 0 e.children := by
        have hchild := e.parts_sublist.subset hx
        have hbound := ih x hchild fun y hy => h y (.child hchild hy)
        exact hbound.trans (Nat.mul_le_mul_left width (height_le_tallest hchild 0))
      have htallest : 1 ≤ tallest 0 e.children := by
        obtain ⟨x, hx⟩ : ∃ x, x ∈ e.children := by
          cases e with
          | number | text | boolean | identifier => cases hbuilder
          | _ => exact ⟨_, List.mem_cons_self ..⟩
        have hle := height_le_tallest hx 0
        have hpos := (hbelow x hx).height_eq
        omega
      calc e.treeDepth
          ≤ e.spread + width * tallest 0 e.children :=
            treeDepth_le hbuilder (Nat.mul_pos hwidth htallest) hparts
        _ ≤ width + width * tallest 0 e.children := Nat.add_le_add_right (h e (.self e)) _
        _ = width * e.height := by rw [hheight, Nat.mul_add, Nat.mul_one]

/-- Each part leaves a token to every other. -/
lemma treeDepth_add_length_le {es : List Expr} {counts : List Nat}
    (h : List.Forall₂ (fun x n => 1 ≤ n ∧ x.treeDepth ≤ n) es counts) :
    es.length ≤ counts.sum ∧ ∀ x ∈ es, x.treeDepth + es.length ≤ counts.sum + 1 := by
  induction h with
  | nil => simp
  | cons hfirst _ ih =>
    obtain ⟨hpos, hdepth⟩ := hfirst
    obtain ⟨hlength, hothers⟩ := ih
    simp only [List.length_cons, List.sum_cons, List.forall_mem_cons]
    refine ⟨by omega, by omega, fun x hx => ?_⟩
    have hx' := hothers x hx
    omega

/-- The tree is no deeper than the expression has tokens. -/
lemma Takes.treeDepth_le {n : Nat} (h : e.Takes n) : 1 ≤ n ∧ e.treeDepth ≤ n := by
  induction h with
  | @intro e n counts hlength hbelow hsum ih =>
    have hmarks := e.marks_pos
    refine ⟨by omega, ?_⟩
    cases hbuilder : e.builder? with
    | none =>
      rw [treeDepth_eq_one hbuilder]
      omega
    | some k =>
      obtain ⟨hleast, hbound⟩ := treeDepth_add_length_le
        (List.forall₂_iff_zip.2 ⟨hlength, fun hmem => ih _ _ hmem⟩)
      have hspread := spread_lt hbuilder
      have hdepth : e.treeDepth ≤ e.spread + (counts.sum + 1 - e.parts.length) := by
        refine Expr.treeDepth_le hbuilder (by omega) fun x hx => ?_
        have hx' := hbound x hx
        omega
      omega

end Expr

namespace Lowering

/-- The tree of an accepted formula is as deep as its expression tells, which is no deeper than the
formula is long, and at most as many times deeper than the expression is high as an argument can be
levels below its call. -/
theorem depth_eq_treeDepth (f : String) (t : Tree) (h : ofText f = .done t) :
    ∃ tokens e, Token.ofText f = .ok tokens ∧ Grammar.statements tokens = .ok [e] ∧
      t.depth = e.treeDepth ∧ t.depth ≤ tokens.length ∧ tokens.length ≤ f.length ∧
      e.height ≤ heightLimit ∧
      ∀ width, (∀ x, e.Holds x → x.spread ≤ width) → t.depth ≤ width * e.height := by
  obtain ⟨tokens, e, htokens, hstatements, hbuilds⟩ := exists_builds h
  obtain ⟨n, taken, hsublist, hderives, -, hheight⟩ :=
    Grammar.statements_derives hstatements e (List.mem_singleton.2 rfl)
  have hleaf (t : Tree) (ht : ∀ op us, t ≠ .operation op us) : t.depth = 1 := by
    cases t with
    | operation op us => exact absurd rfl (ht op us)
    | _ => rfl
  have hdepth : t.depth = e.treeDepth := hbuilds.measure_eq hleaf Tree.depth_ofCall?
  refine ⟨tokens, e, htokens, hstatements, hdepth, ?_, Token.length_le_of_ofText htokens, hheight,
    fun width hwidth => ?_⟩
  · rw [hdepth]
    exact hderives.takes.treeDepth_le.2.trans hsublist.length_le
  · rw [hdepth]
    exact hderives.measured.treeDepth_le_mul hwidth

end Lowering

/-! ## Long conditions -/

namespace Term

/-- The term `IF(1, 1, …, 1)` with `n` pairs of a test and a result. -/
def conditions (n : Nat) : Term := .call "IF" (List.replicate (2 * n) (.number one))

lemma trees_replicate (n : Nat) (term : Term) :
    trees (List.replicate n term) = List.replicate n term.tree := by
  induction n with
  | zero => rfl
  | succ n ih => rw [List.replicate_succ, trees, ih, List.replicate_succ]

/-- Each pair takes the tree one level down. -/
lemma depth_conditions (n : Nat) : (conditions n).tree.depth = n + 1 := by
  have htree : (conditions n).tree =
      Tree.chain id (List.replicate (2 * n) (.number one.normal)) := by
    rw [conditions, tree, trees_replicate]
    rfl
  rw [htree]
  clear htree
  induction n with
  | zero => rfl
  | succ n ih =>
    rw [Nat.mul_succ, List.replicate_succ, List.replicate_succ, Tree.chain, Tree.depth, Tree.depths,
      Tree.depths, Tree.depths, ih]
    simp [Tree.depth, Tree.depths]
    omega

lemma nestings_replicate (n : Nat) (term : Term) :
    nestings (List.replicate n term) ≤ term.nesting := by
  induction n with
  | zero => exact Nat.zero_le _
  | succ n ih => exact max_le (le_refl _) ih

lemma heights_replicate (n : Nat) (term : Term) :
    heights (List.replicate n term) ≤ term.height := by
  induction n with
  | zero => exact Nat.zero_le _
  | succ n ih => exact max_le (le_refl _) ih

/-- However many pairs there are, the formula is accepted. -/
lemma ofText_conditions {n : Nat} (h : 1 ≤ n) :
    Lowering.ofText (String.ofList (conditions n).spell) = .done (conditions n).tree := by
  have hreadable : (conditions n).Readable := by
    refine .call (by decide) rfl ?_ fun a ha => ?_
    · rw [List.length_replicate]
      exact Arity.admits_atLeast.2 (by omega)
    · rw [List.eq_of_mem_replicate ha]
      exact .number _ _
  refine (hreadable.ofText_spell false).1 ⟨?_, ?_⟩
  · have hnesting := nestings_replicate (2 * n) (.number one)
    rw [conditions, nesting]
    exact Nat.succ_le_succ (hnesting.trans (by decide))
  · have hheight := heights_replicate (2 * n) (.number one)
    have hnumber : (Term.number one).height = 1 := rfl
    rw [conditions, height, heightLimit]
    omega

end Term

namespace Lowering

/-- The tree of `IF` with 256 pairs is deeper than a formula may be high. -/
theorem depth_eq_treeDepth_conditions :
    ofText (String.ofList (Term.conditions 256).spell) = .done (Term.conditions 256).tree ∧
      (Term.conditions 256).tree.depth = heightLimit + 1 ∧
      ∃ tokens e, Token.ofText (String.ofList (Term.conditions 256).spell) = .ok tokens ∧
        Grammar.statements tokens = .ok [e] ∧ e.treeDepth = heightLimit + 1 := by
  have h := Term.ofText_conditions (show 1 ≤ 256 by decide)
  have hdepth := Term.depth_conditions 256
  obtain ⟨tokens, e, htokens, hstatements, heq, -⟩ := depth_eq_treeDepth _ _ h
  exact ⟨h, hdepth, tokens, e, htokens, hstatements, heq.symm.trans hdepth⟩

/-- The limit of the height does not bound the trees. -/
theorem not_forall_depth_le : ¬ ∀ f t, ofText f = .done t → t.depth ≤ heightLimit := by
  intro hall
  have hdepth := hall _ _ (Term.ofText_conditions (show 1 ≤ 256 by decide))
  rw [Term.depth_conditions] at hdepth
  exact absurd hdepth (by decide)

end Lowering

end FormulaTree
