import FormulaTree.Proofs.Term.Meaning
import FormulaTree.Proofs.Tree.Completion

/-!
# The layout of a tree

`Term.ofTree` lays a tree out as a formula.  If no operation has too few operands and every number
is finite (`Writable`), the term is readable and is read as the completion of the tree
(`layout_ofTree`).

A ternary is a call, and its default may be more arguments of the same call.  `Arguments` is the
statement for such arguments: read as a chain of ternaries, they are the default.

The bounds on nesting and height are part of the statement: a formula nests no deeper than its tree
is deep, and is at most one higher, since a field may be written with a dot.
-/

namespace FormulaTree

namespace Tree

/-- No operation has too few operands, and every number is finite. -/
def Writable (t : Tree) : Prop := t.isSufficient = true ∧ t.isFinite = true

lemma writable_operation {op : Operator} {ts : List Tree} :
    (operation op ts).Writable ↔ op.arity.min ≤ ts.length ∧ ∀ t ∈ ts, t.Writable := by
  have hsufficient : (operation op ts).isSufficient = true ↔
      op.arity.min ≤ ts.length ∧ ∀ t ∈ ts, t.isSufficient = true := by
    rw [isSufficient, everyOperation_operation, decide_eq_true_iff]
    rfl
  have hfinite : (operation op ts).isFinite = true ↔ ∀ t ∈ ts, t.isFinite = true := by
    rw [isFinite, areFinite_iff]
  unfold Writable
  rw [hsufficient, hfinite, and_assoc]
  exact and_congr_right fun _ => ⟨fun h t ht => ⟨h.1 t ht, h.2 t ht⟩,
    fun h => ⟨fun t ht => (h t ht).1, fun t ht => (h t ht).2⟩⟩

end Tree

namespace Term

/-- The term is a formula for the tree. -/
structure Layout (term : Term) (u : Tree) : Prop where
  readable : term.Readable
  tree_eq : term.tree = u.normal
  nesting_le : term.nesting ≤ u.depth
  height_le : term.height ≤ u.depth + 1

/-- The terms are the last arguments of a call that stand for a default. -/
structure Arguments (terms : List Term) (test : Tree → Tree) (u : Tree) : Prop where
  readable : ∀ a ∈ terms, a.Readable
  chain_eq : Tree.chain test (trees terms) = u.normal
  nestings_le : nestings terms ≤ u.depth
  heights_le : heights terms ≤ u.depth + 1

/-! ## Leaves -/

lemma layout_number {n : Number} (h : n.isFinite = true) : Layout (.number n) (.number n) := by
  obtain ⟨negative, m, rfl⟩ : ∃ negative m, n = .finite negative m := by
    cases n with
    | finite negative m => exact ⟨negative, m, rfl⟩
    | infinite | notANumber => cases h
  refine ⟨.number negative m, rfl, ?_, by simp [height, Tree.depth]⟩
  rw [nesting]
  split_ifs <;> simp [Tree.depth]

lemma layout_field (f : Field) : Layout (.field f) (.field f) := by
  refine ⟨.field f, rfl, by simp [nesting], ?_⟩
  rw [height]
  split_ifs <;> simp [Tree.depth]

/-! ## Calls -/

/-- The words of the calls that a tree is written with. -/
lemma callName_if : IsCallName "IF" := by decide

lemma callName_switch : IsCallName "SWITCH" := by decide

lemma ofWord?_if : Keyword.ofWord? "IF" = some ⟨.ternary, .conditional⟩ := by rfl

lemma ofWord?_switch : Keyword.ofWord? "SWITCH" = some ⟨.ternary, .switch⟩ := by rfl

lemma admits_if (rest : List Term) (a b : Term) :
    (Keyword.mk .ternary .conditional).callArity.admits (a :: b :: rest).length = true := by
  simp [Keyword.callArity, Arity.atLeast, Arity.admits]

lemma admits_switch (rest : List Term) (a b c : Term) :
    (Keyword.mk .ternary .switch).callArity.admits (a :: b :: c :: rest).length = true := by
  simp [Keyword.callArity, Arity.atLeast, Arity.admits]

/-- A test, a result and a default are a ternary. -/
lemma Layout.conditional {test result : Term} {more : List Term} {t r u : Tree}
    (htest : Layout test t) (hresult : Layout result r) (hmore : Arguments more id u) :
    Layout (.call "IF" (test :: result :: more)) (.operation .ternary [t, r, u]) where
  readable := by
    refine .call callName_if ofWord?_if (admits_if more test result) ?_
    simp only [List.forall_mem_cons]
    exact ⟨htest.readable, hresult.readable, hmore.readable⟩
  tree_eq := by
    have htree : (Term.call "IF" (test :: result :: more)).tree =
        .operation .ternary [test.tree, result.tree, Tree.chain id (trees more)] := by
      rw [tree, ofWord?_if]
      rfl
    rw [htree, htest.tree_eq, hresult.tree_eq, hmore.chain_eq]
    rfl
  nesting_le := by
    have := htest.nesting_le
    have := hresult.nesting_le
    have := hmore.nestings_le
    simp only [nesting, nestings, Tree.depth, Tree.depths]
    omega
  height_le := by
    have := htest.height_le
    have := hresult.height_le
    have := hmore.heights_le
    simp only [height, heights, Tree.depth, Tree.depths]
    omega

/-- The test of a case of `SWITCH`. -/
def equalTo (pivot case : Tree) : Tree := .operation .equal [pivot, case]

/-- A pivot, a case, a result and a default are a ternary that compares. -/
lemma Layout.switch {pivot case result : Term} {more : List Term} {p c r u : Tree}
    (hpivot : Layout pivot p) (hcase : Layout case c) (hresult : Layout result r)
    (hmore : Arguments more (equalTo p.normal) u) :
    Layout (.call "SWITCH" (pivot :: case :: result :: more))
      (.operation .ternary [.operation .equal [p, c], r, u]) where
  readable := by
    refine .call callName_switch ofWord?_switch (admits_switch more pivot case result) ?_
    simp only [List.forall_mem_cons]
    exact ⟨hpivot.readable, hcase.readable, hresult.readable, hmore.readable⟩
  tree_eq := by
    have htree : (Term.call "SWITCH" (pivot :: case :: result :: more)).tree =
        .operation .ternary [.operation .equal [pivot.tree, case.tree], result.tree,
          Tree.chain (equalTo pivot.tree) (trees more)] := by
      rw [tree, ofWord?_switch]
      rfl
    rw [htree, hpivot.tree_eq, hcase.tree_eq, hresult.tree_eq, hmore.chain_eq]
    rfl
  nesting_le := by
    have := hpivot.nesting_le
    have := hcase.nesting_le
    have := hresult.nesting_le
    have := hmore.nestings_le
    simp only [nesting, nestings, Tree.depth, Tree.depths]
    omega
  height_le := by
    have := hpivot.height_le
    have := hcase.height_le
    have := hresult.height_le
    have := hmore.heights_le
    simp only [height, heights, Tree.depth, Tree.depths]
    omega

/-! ## Defaults -/

lemma Arguments.nil (test : Tree → Tree) : Arguments [] test (.text "") where
  readable := fun a ha => by cases ha
  chain_eq := rfl
  nestings_le := Nat.zero_le _
  heights_le := Nat.zero_le _

/-- One more argument is a default. -/
lemma Arguments.default {term : Term} {u : Tree} (h : Layout term u) (test : Tree → Tree) :
    Arguments [term] test u where
  readable := by
    intro a ha
    rw [List.mem_singleton.1 ha]
    exact h.readable
  chain_eq := h.tree_eq
  nestings_le := by
    have := h.nesting_le
    simp only [nestings]
    omega
  heights_le := by
    have := h.height_le
    simp only [heights]
    omega

lemma Arguments.ofDefault {t : Tree} {term : Term} (h : Layout term t.completed)
    (test : Tree → Tree) : Arguments (ofDefault t term) test t.completed := by
  have hdefault := Arguments.default h test
  have hempty (hempty : t.isEmptyText = true) : t = .text "" := by
    cases t with
    | text s => rw [String.isEmpty_iff.1 hempty]
    | number | boolean | field | operation => cases hempty
  have hne : term ≠ .blank := by
    rintro rfl
    cases h.readable
  unfold Term.ofDefault
  split
  · exact absurd rfl hne
  · split_ifs with htext
    · rw [hempty htext]
      exact .nil test
    · exact hdefault

/-- Two more arguments are a test and its result, and the default comes after them. -/
lemma Arguments.pair {condition result : Term} {more : List Term} {test : Tree → Tree}
    {c t r u : Tree} (hcondition : Layout condition c) (hresult : Layout result r)
    (hmore : Arguments more test u) (htest : test c.normal = t.normal)
    (hdepth : c.depth ≤ t.depth) :
    Arguments (condition :: result :: more) test (.operation .ternary [t, r, u]) where
  readable := by
    simp only [List.forall_mem_cons]
    exact ⟨hcondition.readable, hresult.readable, hmore.readable⟩
  chain_eq := by
    rw [trees, trees, Tree.chain, hcondition.tree_eq, hresult.tree_eq, hmore.chain_eq, htest]
    rfl
  nestings_le := by
    have := hcondition.nesting_le
    have := hresult.nesting_le
    have := hmore.nestings_le
    simp only [nestings, Tree.depth, Tree.depths]
    omega
  heights_le := by
    have := hcondition.height_le
    have := hresult.height_le
    have := hmore.heights_le
    simp only [heights, Tree.depth, Tree.depths]
    omega

/-! ## Operations -/

lemma forall_readable {terms : List Term} {us : List Tree} (h : List.Forall₂ Layout terms us) :
    ∀ a ∈ terms, a.Readable := by
  induction h with
  | nil => exact fun a ha => by cases ha
  | cons hfirst _ ih => exact List.forall_mem_cons.2 ⟨hfirst.readable, ih⟩

lemma trees_eq {terms : List Term} {us : List Tree} (h : List.Forall₂ Layout terms us) :
    trees terms = Tree.normals us := by
  induction h with
  | nil => rfl
  | cons hfirst _ ih => rw [trees, Tree.normals, hfirst.tree_eq, ih]

lemma nestings_le {terms : List Term} {us : List Tree} (h : List.Forall₂ Layout terms us) :
    nestings terms ≤ Tree.depths us ∧ heights terms ≤ Tree.depths us + 1 := by
  induction h with
  | nil => exact ⟨Nat.le_refl _, Nat.zero_le _⟩
  | cons hfirst _ ih =>
    have := hfirst.nesting_le
    have := hfirst.height_le
    rw [nestings, heights, Tree.depths]
    omega

/-- The words by which operators are called that are not written between two operands. -/
lemma callName_plain {op : Operator} (hop : op ≠ .ternary)
    (hinline : op.isInline = true → op = .add) :
    IsCallName op.callName ∧ Keyword.ofWord? op.callName = some ⟨op, .plain⟩ := by
  cases op <;> revert hop hinline <;> decide +kernel

lemma Layout.plain {op : Operator} {terms : List Term} {us : List Tree} (hop : op ≠ .ternary)
    (hinline : op.isInline = true → op = .add) (hcount : op.arity.admits us.length = true)
    (h : List.Forall₂ Layout terms us) : Layout (.call op.callName terms) (.operation op us) where
  readable := by
    obtain ⟨hname, hword⟩ := callName_plain hop hinline
    exact .call hname hword (h.length_eq ▸ hcount) (forall_readable h)
  tree_eq := by
    rw [tree, (callName_plain hop hinline).2, Tree.normal, ← trees_eq h]
    rfl
  nesting_le := by
    have := nestings_le h
    simp only [nesting, Tree.depth]
    omega
  height_le := by
    have := nestings_le h
    simp only [height, Tree.depth]
    omega

/-- Only an inline operation has an operator outside of any parentheses. -/
lemma operator?_ofTree {t : Tree} {op : Operator} (h : (ofTree t).operator? = some op) :
    ∃ ts, t = .operation op ts ∧ op.isInline = true := by
  unfold ofTree at h
  split at h
  · cases h
  · cases h
  · cases h
  · cases h
  · cases h
  · cases h
  · split_ifs at h
    · cases h
    · unfold ofOperation at h
      split at h
      · split_ifs at h with hinline
        · cases h
          exact ⟨_, rfl, hinline⟩
        · cases h
      · cases h

/-- Parentheses are put where they are needed, and they add one to the nesting. -/
lemma layout_ofOperand {t u : Tree} (parent : Operator) (first : Bool)
    (h : Layout (ofTree t) u) :
    (ofOperand parent first t (ofTree t)).Readable ∧
      (ofOperand parent first t (ofTree t)).tree = u.normal ∧
      (∀ child ∈ (ofOperand parent first t (ofTree t)).operator?, child = parent ∧ first = true) ∧
      (ofOperand parent first t (ofTree t)).nesting ≤ u.depth + 1 ∧
      (ofOperand parent first t (ofTree t)).height ≤ u.depth + 1 := by
  have hblank : ofTree t ≠ .blank := fun hblank => by
    have hreadable := h.readable
    rw [hblank] at hreadable
    cases hreadable
  have hoperand : ofOperand parent first t (ofTree t) =
      if needsGroup parent first t then .group (ofTree t) else ofTree t := by
    rw [ofOperand]
    exact hblank
  rw [hoperand]
  split_ifs with hgroup
  · exact ⟨.group h.readable, h.tree_eq, by simp [operator?], Nat.succ_le_succ h.nesting_le,
      h.height_le⟩
  · refine ⟨h.readable, h.tree_eq, fun child hchild => ?_, Nat.le_succ_of_le h.nesting_le,
      h.height_le⟩
    obtain ⟨ts, rfl, hinline⟩ := operator?_ofTree hchild
    simp only [needsGroup, hinline, Bool.true_and, Bool.or_eq_true, not_or, Bool.not_eq_true',
      bne_iff_ne, ne_eq, Bool.not_eq_true, not_not, Bool.not_eq_false] at hgroup
    exact ⟨hgroup.1.2, hgroup.2⟩

lemma Layout.between {op : Operator} {l r : Tree} (hop : op.isInline = true)
    (hleft : Layout (ofTree l) l.completed) (hright : Layout (ofTree r) r.completed) :
    Layout (.between op (ofOperand op true l (ofTree l)) (ofOperand op false r (ofTree r)))
      (.operation op [l.completed, r.completed]) := by
  obtain ⟨hreadable, htree, hchild, hnesting, hheight⟩ := layout_ofOperand op true hleft
  obtain ⟨hreadable', htree', hchild', hnesting', hheight'⟩ := layout_ofOperand op false hright
  have hapart : (ofOperand op false r (ofTree r)).operator? = none := by
    cases hoperator : (ofOperand op false r (ofTree r)).operator? with
    | none => rfl
    | some child => cases (hchild' child hoperator).2
  refine ⟨.between hop hreadable hreadable' (fun child h => (hchild child h).1) hapart, ?_, ?_, ?_⟩
  · rw [tree, htree, htree']
    rfl
  · simp only [nesting, Tree.depth, Tree.depths]
    omega
  · simp only [height, Tree.depth, Tree.depths]
    omega

lemma forall₂_ofTree {ts : List Tree} (h : ∀ t ∈ ts, Layout (ofTree t) t.completed) :
    List.Forall₂ Layout (ts.map ofTree) (ts.map Tree.completed) := by
  induction ts with
  | nil => exact .nil
  | cons t ts ih =>
    rw [List.forall_mem_cons] at h
    exact .cons h.1 (ih h.2)

/-- But for sums, an operation that is written between operands has just two. -/
lemma arity_of_isInline {op : Operator} (hinline : op.isInline = true) (hadd : op ≠ .add) :
    op.arity = .exactly 2 := by
  revert hinline hadd
  cases op <;> decide

/-- An operator over as many operands as it takes. -/
lemma layout_ofOperation {op : Operator} {ts : List Tree} (hop : op ≠ .ternary)
    (hcount : op.arity.admits ts.length = true) (h : ∀ t ∈ ts, Layout (ofTree t) t.completed) :
    Layout (ofOperation op ts (ts.map ofTree)) (.operation op (ts.map Tree.completed)) := by
  have hplain (hinline : op.isInline = true → op = .add) :
      Layout (.call op.callName (ts.map ofTree)) (.operation op (ts.map Tree.completed)) :=
    .plain hop hinline (by rwa [List.length_map]) (forall₂_ofTree h)
  have hadd (hlength : ts.length ≠ 2) (hinline : op.isInline = true) : op = .add := by
    by_contra hne
    rw [arity_of_isInline hinline hne, Arity.admits_exactly] at hcount
    exact hlength hcount
  match ts with
  | [l, r] =>
    simp only [List.forall_mem_cons] at h
    rw [List.map_cons, List.map_singleton, ofOperation]
    split_ifs with hinline
    · exact .between hinline h.1 h.2.1
    · exact hplain fun htrue => absurd htrue hinline
  | [] | [_] | _ :: _ :: _ :: _ => exact hplain (hadd (by simp))

/-! ## Trees

One invariant for each of the four functions that lay out trees. -/

/-- The layout of a tree. -/
def LaidOut (t : Tree) : Prop := t.Writable → Layout (ofTree t) t.completed

/-- The layouts of the trees of a list. -/
def AllLaidOut (ts : List Tree) : Prop :=
  (∀ t ∈ ts, t.Writable) → ∀ t ∈ ts, Layout (ofTree t) t.completed

/-- The default of a ternary that is written by `IF`. -/
def IfLaidOut (rest : List Tree) : Prop :=
  (∀ t ∈ rest, t.Writable) → Arguments (ifRest rest) id (Tree.alternate rest)

/-- The default of a ternary that is written by `SWITCH`. -/
def SwitchLaidOut (pivot : Tree) (rest : List Tree) : Prop :=
  (∀ t ∈ rest, t.Writable) →
    Arguments (switchRest pivot rest) (equalTo pivot.completed.normal) (Tree.alternate rest)

lemma ofTrees_eq_map (ts : List Tree) : ofTrees ts = ts.map ofTree := by
  induction ts with
  | nil => rfl
  | cons t ts ih => rw [ofTrees, ih, List.map_cons]

/-- What a ternary is made of can be written if the ternary can. -/
lemma writable_ternary {test result : Tree} {rest : List Tree}
    (h : (Tree.operation .ternary (test :: result :: rest)).Writable) :
    test.Writable ∧ result.Writable ∧ ∀ t ∈ rest, t.Writable := by
  have hoperands := (Tree.writable_operation.1 h).2
  rwa [List.forall_mem_cons, List.forall_mem_cons] at hoperands

lemma writable_equal {pivot case : Tree} (h : (Tree.operation .equal [pivot, case]).Writable) :
    pivot.Writable ∧ case.Writable := by
  have hoperands := (Tree.writable_operation.1 h).2
  rw [List.forall_mem_cons, List.forall_mem_cons] at hoperands
  exact ⟨hoperands.1, hoperands.2.1⟩

lemma laidOut_switch {pivot case result : Tree} {rest : List Tree} (hpivot : LaidOut pivot)
    (hcase : LaidOut case) (hresult : LaidOut result) (hrest : SwitchLaidOut pivot rest) :
    LaidOut (.operation .ternary (.operation .equal [pivot, case] :: result :: rest)) := by
  intro hwritable
  obtain ⟨htest, hwresult, hwrest⟩ := writable_ternary hwritable
  obtain ⟨hwpivot, hwcase⟩ := writable_equal htest
  rw [ofTree, Tree.completed_ternary]
  exact .switch (hpivot hwpivot) (hcase hwcase) (hresult hwresult) (hrest hwrest)

lemma laidOut_if {test result : Tree} {rest : List Tree}
    (hne : ∀ pivot case, test = .operation .equal [pivot, case] → False) (htest : LaidOut test)
    (hresult : LaidOut result) (hrest : IfLaidOut rest) :
    LaidOut (.operation .ternary (test :: result :: rest)) := by
  intro hwritable
  obtain ⟨hwtest, hwresult, hwrest⟩ := writable_ternary hwritable
  rw [ofTree, Tree.completed_ternary]
  · exact .conditional (htest hwtest) (hresult hwresult) (hrest hwrest)
  · exact hne

lemma laidOut_operation {op : Operator} {operands : List Tree}
    (hne : ∀ test result rest, op = .ternary → operands = test :: result :: rest → False)
    (h : AllLaidOut operands) : LaidOut (.operation op operands) := by
  intro hwritable
  obtain ⟨hcount, hoperands⟩ := Tree.writable_operation.1 hwritable
  have hop : op ≠ .ternary := by
    rintro rfl
    match operands, hcount with
    | test :: result :: rest, _ => exact hne test result rest rfl rfl
  rw [ofTree, if_neg (Nat.not_lt.2 hcount), Tree.completed, Operator.fill_of_ne hop,
    ofTrees_eq_map, Tree.completeds_eq_map, Arity.clip_map, Arity.clip_map]
  · exact layout_ofOperation hop (Arity.admits_length_clip hcount)
      fun t ht => h hoperands t (Arity.clip_subset _ _ ht)
  · exact fun pivot case result rest hternary => absurd hternary hop
  · exact fun test result rest hternary => absurd hternary hop

/-- A ternary with the same pivot goes on with the call. -/
lemma switchLaidOut_same {pivot pivot' case result : Tree} {rest tail : List Tree}
    (hsame : pivot'.beq pivot = true) (hcase : LaidOut case) (hresult : LaidOut result)
    (hrest : SwitchLaidOut pivot rest) :
    SwitchLaidOut pivot
      (.operation .ternary (.operation .equal [pivot', case] :: result :: rest) :: tail) := by
  intro hwritable
  obtain ⟨htest, hwresult, hwrest⟩ := writable_ternary (hwritable _ (List.mem_cons_self ..))
  obtain ⟨_, hwcase⟩ := writable_equal htest
  have hpivot := Tree.completed_normal_eq (Tree.normal_eq_of_beq hsame)
  rw [switchRest, if_pos hsame, Tree.alternate, Tree.completed_ternary]
  refine .pair (hcase hwcase) (hresult hwresult) (hrest hwrest) ?_ ?_
  · rw [← hpivot]
    rfl
  · show case.completed.depth ≤ (Tree.operation .equal [pivot'.completed, case.completed]).depth
    simp only [Tree.depth, Tree.depths]
    omega

/-- A ternary with another pivot is a call of its own. -/
lemma switchLaidOut_other {pivot pivot' case result : Tree} {rest tail : List Tree}
    (hother : ¬pivot'.beq pivot = true) (hpivot : LaidOut pivot') (hcase : LaidOut case)
    (hresult : LaidOut result) (hrest : SwitchLaidOut pivot' rest) :
    SwitchLaidOut pivot
      (.operation .ternary (.operation .equal [pivot', case] :: result :: rest) :: tail) := by
  intro hwritable
  have hlayout := laidOut_switch hpivot hcase hresult hrest (hwritable _ (List.mem_cons_self ..))
  rw [ofTree] at hlayout
  rw [switchRest, if_neg hother, Tree.alternate]
  exact .default hlayout _

lemma switchLaidOut_default {pivot t : Tree} {tail : List Tree}
    (hne : ∀ pivot' case result rest,
      t = .operation .ternary (.operation .equal [pivot', case] :: result :: rest) → False)
    (h : LaidOut t) : SwitchLaidOut pivot (t :: tail) := by
  intro hwritable
  rw [switchRest, Tree.alternate]
  · exact .ofDefault (h (hwritable t (List.mem_cons_self ..))) _
  · exact hne

lemma ifLaidOut_ternary {test result : Tree} {rest tail : List Tree} (htest : LaidOut test)
    (hresult : LaidOut result) (hrest : IfLaidOut rest) :
    IfLaidOut (.operation .ternary (test :: result :: rest) :: tail) := by
  intro hwritable
  obtain ⟨hwtest, hwresult, hwrest⟩ := writable_ternary (hwritable _ (List.mem_cons_self ..))
  rw [ifRest, Tree.alternate, Tree.completed_ternary]
  exact .pair (htest hwtest) (hresult hwresult) (hrest hwrest) rfl (Nat.le_refl _)

lemma ifLaidOut_default {t : Tree} {tail : List Tree}
    (hne : ∀ test result rest, t = .operation .ternary (test :: result :: rest) → False)
    (h : LaidOut t) : IfLaidOut (t :: tail) := by
  intro hwritable
  rw [ifRest, Tree.alternate]
  · exact .ofDefault (h (hwritable t (List.mem_cons_self ..))) _
  · exact hne

lemma laidOut (t : Tree) : LaidOut t := by
  induction t using ofTree_induction (Q := AllLaidOut) (R := IfLaidOut) (S := SwitchLaidOut) with
  | text s => exact fun _ => ⟨.text s, rfl, by simp [ofTree, nesting], by simp [ofTree, height]⟩
  | number n => exact fun hn => layout_number hn.2
  | boolean b =>
    exact fun _ => ⟨.boolean b, rfl, by simp [ofTree, nesting], by simp [ofTree, height]⟩
  | field f => exact fun _ => layout_field f
  | switch pivot case result rest hpivot hcase hresult hrest =>
    exact laidOut_switch hpivot hcase hresult hrest
  | conditional test result rest hne htest hresult hrest =>
    exact laidOut_if hne htest hresult hrest
  | few op operands _ hfew =>
    intro hwritable
    exact absurd (Tree.writable_operation.1 hwritable).1 (Nat.not_le.2 hfew)
  | enough op operands hne _ hoperands => exact laidOut_operation hne hoperands
  | nil => exact fun _ t ht => by cases ht
  | cons t ts hfirst hothers =>
    intro hwritable
    rw [List.forall_mem_cons] at hwritable ⊢
    exact ⟨hfirst hwritable.1, hothers hwritable.2⟩
  | ifEnd => exact fun _ => .nil id
  | ifTernary test result rest tail htest hresult hrest =>
    exact ifLaidOut_ternary htest hresult hrest
  | ifDefault t tail hne ht => exact ifLaidOut_default hne ht
  | switchEnd pivot => exact fun _ => .nil _
  | switchSame pivot pivot' case result rest tail hsame hcase hresult hrest =>
    exact switchLaidOut_same hsame hcase hresult hrest
  | switchOther pivot pivot' case result rest tail hother hpivot hcase hresult hrest =>
    exact switchLaidOut_other hother hpivot hcase hresult hrest
  | switchDefault pivot t tail hne ht => exact switchLaidOut_default hne ht

/-- A tree that can be written is laid out as a formula that is read as its completion. -/
theorem layout_ofTree {t : Tree} (h : t.Writable) : Layout (ofTree t) t.completed := laidOut t h

end Term

end FormulaTree
