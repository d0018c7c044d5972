import FormulaTree.Proofs.Lowering.Building

/-!
# How a tree is built

The tree of an accepted formula can be told from its expression alone: each expression that is
looked at comes to what its keyword makes of the trees of its parts.  `Lowering.Builds` says this
without the depth limit, without diagnostics and without an order of steps.

Whatever is measured of a tree, and can be worked out for a call from what it is for the arguments,
can so be worked out from the expression: `Expr.measure` does it, and `Builds.measure_eq` says that
it is right.  How many tokens an expression takes follows the same recursion (`Expr.Takes`), so the
two can be compared by one induction.
-/

namespace FormulaTree

/-! ## Keywords of expressions -/

/-- The keyword by which an expression is built from its parts.  A binary sign is one, and the two
signs of a choice are. -/
def Expr.builder? : Expr → Option Keyword
  | .call callee arguments height l => (Expr.call callee arguments height l).keyword?
  | .binary sign _ _ _ _ => Keyword.ofWord? sign.text
  | .conditional _ _ _ _ _ => some ⟨.ternary, .plain⟩
  | _ => none

lemma Keyword.spelling_of_sign {sign : Sign} {k : Keyword} (h : ofWord? sign.text = some k) :
    k.spelling = .plain := by
  cases sign <;> simp [ofWord?, ofLowercase?, Sign.text] at h
  all_goals subst h
  all_goals rfl

namespace Lowering

variable {e : Expr} {t : Tree} {ts : List Tree}

/-- An expression that comes to a tree is a leaf, as is the tree, or it has a keyword that makes the
tree from those of the parts, and takes so many of them. -/
lemma ofParts_eq_done (hlength : ts.length = e.parts.length)
    (h : ofParts e ⟨ts, []⟩ = done t) :
    (e.builder? = none ∧ ∀ op us, t ≠ .operation op us) ∨
      ∃ k, e.builder? = some k ∧ k.callArity.admits ts.length = true ∧
        Tree.ofCall? k ts = some t := by
  cases e with
  | number | text | boolean =>
    cases h
    exact .inl ⟨rfl, fun op us heq => by cases heq⟩
  | unary => cases h
  | identifier name l =>
    rcases identifier_cases name l with ⟨f, heq⟩ | heq
    · rw [ofParts, heq] at h
      cases h
      exact .inl ⟨rfl, fun op us heq => by cases heq⟩
    · rw [ofParts, heq] at h
      cases h
  | member object property height l =>
    rcases member_cases object property l with ⟨f, heq⟩ | ⟨d, heq, -⟩
    · rw [ofParts, heq] at h
      cases h
      exact .inl ⟨rfl, fun op us heq => by cases heq⟩
    · rw [ofParts, heq] at h
      cases h
  | call f arguments height l =>
    cases hcallee : callee f arguments.length l with
    | error d =>
      rw [ofParts, hcallee] at h
      cases h
    | ok k =>
      have hkeyword : (Expr.call f arguments height l).builder? = some k := by
        rw [Expr.builder?, Expr.keyword?, hcallee]
        rfl
      rw [ofParts, hcallee] at h
      refine .inr ⟨k, hkeyword, ?_, congrArg tree? h⟩
      rw [hlength]
      exact (callee_eq_ok hcallee).2
  | binary sign left right height l =>
    cases hword : Keyword.ofWord? sign.text with
    | none =>
      rw [ofParts, hword] at h
      cases h
    | some k =>
      have hplain := Keyword.spelling_of_sign hword
      rw [ofParts, hword] at h
      cases h
      refine .inr ⟨k, hword, ?_, ?_⟩
      · rw [hlength, Keyword.callArity, hplain]
        exact (Keyword.admits_two_of_sign hword).1
      · obtain ⟨operator, spelling⟩ := k
        cases hplain
        rfl
  | conditional test consequent alternate height l =>
    cases h
    exact .inr ⟨_, rfl, by rw [hlength]; rfl, rfl⟩

/-! ## Expressions and their trees -/

/-- The tree is what the expression comes to if its parts come to their trees. -/
inductive Builds : Expr → Tree → Prop
  | intro {e : Expr} {t : Tree} {ts : List Tree} (length_eq : e.parts.length = ts.length)
      (below : ∀ x u, (x, u) ∈ e.parts.zip ts → Builds x u)
      (built : ofParts e ⟨ts, []⟩ = done t) : Builds e t

lemma eq_done {result : Lowering} (htree : result.tree? = some t)
    (hclean : result.diagnostics = []) : result = done t := by
  obtain ⟨tree?, diagnostics⟩ := result
  cases htree
  cases hclean
  rfl

/-- Siblings with nothing wrong each have a tree, and these are their trees. -/
lemma forall₂_of_operands {limit depth : Nat} {es : List Expr}
    (h : (operands false (ofExprs limit depth es)).diagnostics = []) :
    List.Forall₂ (fun e t => ofExpr limit depth false e = done t) es
      (operands false (ofExprs limit depth es)).trees := by
  induction es with
  | nil => exact .nil
  | cons e es ih =>
    obtain ⟨-, hsettled⟩ := reliable_ofExpr limit depth e
    simp only [ofExprs, operands, List.append_eq_nil_iff] at h ⊢
    obtain ⟨hfirst, hothers⟩ := h
    obtain ⟨t, htree, -⟩ := hsettled hfirst
    have hdone : ofExpr limit depth false e = done t := eq_done htree hfirst
    rw [hdone] at hothers ⊢
    exact .cons hdone (ih hothers)

/-- An expression that is lowered with nothing wrong is built. -/
lemma builds_of_ofExpr {limit : Nat} (he : e.Placed) :
    ∀ depth t, ofExpr limit depth false e = done t → Builds e t := by
  induction he with
  | @intro e isProper within pairwise lower below ih =>
    intro depth t h
    have hdepth : depth < limit := by
      by_contra hlimit
      rw [ofExpr_of_le (Nat.le_of_not_lt hlimit)] at h
      cases h
    have hsound : e.isOffending = false := by
      refine Bool.eq_false_iff.2 fun hoffending => ?_
      obtain ⟨d, -, hfailed⟩ := ofExpr_of_offending hdepth hoffending
      rw [hfailed] at h
      cases h
    have hclean : (operands false (ofExprs limit (depth + 1) e.parts)).diagnostics = [] := by
      rw [← diagnostics_ofExpr hdepth hsound, h]
      rfl
    obtain ⟨hlength, hparts⟩ := List.forall₂_iff_zip.1 (forall₂_of_operands hclean)
    refine .intro hlength (fun x u hmem => ?_) ?_
    · have hx := e.parts_sublist.subset (List.of_mem_zip hmem).1
      exact ih x hx (depth + 1) u (hparts hmem)
    · rw [ofExpr_eq_ofParts hdepth] at h
      rw [← h, ← hclean]

/-- An accepted formula has one expression, and its tree is built from that. -/
lemma exists_builds {f : String} (h : ofText f = .done t) :
    ∃ tokens e, Token.ofText f = .ok tokens ∧ Grammar.statements tokens = .ok [e] ∧ Builds e t := by
  rw [ofText, ofTextWithin] at h
  cases htokens : Token.ofText f with
  | error cause =>
    rw [htokens] at h
    cases h
  | ok tokens =>
    cases hstatements : Grammar.statements tokens with
    | error cause =>
      rw [htokens] at h
      dsimp only at h
      rw [hstatements] at h
      cases h
    | ok es =>
      rw [htokens] at h
      dsimp only at h
      rw [hstatements] at h
      obtain _ | ⟨e, _ | ⟨second, others⟩⟩ := es
      · cases h
      · obtain ⟨hplaced, -⟩ := Grammar.single_placed htokens hstatements
        exact ⟨tokens, e, rfl, hstatements, builds_of_ofExpr hplaced 0 t h⟩
      · cases h

end Lowering

/-! ## Measuring trees by their expressions -/

namespace Expr

mutual

/-- A number worked out from the leaves up: `build` says what an expression with a keyword counts by
what its parts do, and every other one counts one. -/
def measure (build : Spelling → List Nat → Nat) : Expr → Nat
  | .call callee arguments _ l =>
    match (Lowering.callee callee arguments.length l).toOption with
    | some k => build k.spelling (measures build arguments)
    | none => 1
  | .binary sign left right _ _ =>
    match Keyword.ofWord? sign.text with
    | some k => build k.spelling [measure build left, measure build right]
    | none => 1
  | .conditional test consequent alternate _ _ =>
    build .plain [measure build test, measure build consequent, measure build alternate]
  | _ => 1

/-- The numbers for a list of expressions. -/
def measures (build : Spelling → List Nat → Nat) : List Expr → List Nat
  | [] => []
  | e :: es => measure build e :: measures build es

end

variable {build : Spelling → List Nat → Nat}

lemma measures_eq_map (es : List Expr) : measures build es = es.map (measure build) := by
  induction es with
  | nil => rfl
  | cons e es ih => rw [measures, ih, List.map_cons]

lemma measure_of_some {e : Expr} {k : Keyword} (h : e.builder? = some k) :
    e.measure build = build k.spelling (e.parts.map (measure build)) := by
  cases e with
  | number | text | boolean | identifier | member | unary => cases h
  | call callee arguments height l =>
    have hkeyword : (Lowering.callee callee arguments.length l).toOption = some k := h
    rw [measure, hkeyword, ← measures_eq_map]
    rfl
  | binary sign left right height l =>
    have hkeyword : Keyword.ofWord? sign.text = some k := h
    rw [measure, hkeyword]
    rfl
  | conditional test consequent alternate height l =>
    cases h
    rw [measure]
    rfl

lemma measure_of_none {e : Expr} (h : e.builder? = none) : e.measure build = 1 := by
  cases e with
  | number | text | boolean | identifier | member | unary => rfl
  | call callee arguments height l =>
    have hkeyword : (Lowering.callee callee arguments.length l).toOption = none := h
    rw [measure, hkeyword]
  | binary sign left right height l =>
    have hkeyword : Keyword.ofWord? sign.text = none := h
    rw [measure, hkeyword]
  | conditional => cases h

end Expr

/-- What is measured of a built tree is what is worked out from its expression. -/
lemma Lowering.Builds.measure_eq {build : Spelling → List Nat → Nat} {size : Tree → Nat}
    (hleaf : ∀ t, (∀ op us, t ≠ .operation op us) → size t = 1)
    (hcall : ∀ k ts t, k.callArity.admits ts.length = true → Tree.ofCall? k ts = some t →
      size t = build k.spelling (ts.map size))
    {e : Expr} {t : Tree} (h : Builds e t) : size t = e.measure build := by
  induction h with
  | @intro e t ts hlength hbelow hbuilt ih =>
    have hparts : e.parts.map (Expr.measure build) = ts.map size := by
      rw [← List.forall₂_eq_eq_eq, List.forall₂_map_left_iff, List.forall₂_map_right_iff,
        List.forall₂_iff_zip]
      exact ⟨hlength, fun hmem => (ih _ _ hmem).symm⟩
    rcases ofParts_eq_done hlength.symm hbuilt with ⟨hnone, ht⟩ | ⟨k, hk, hadmits, ht⟩
    · rw [hleaf t ht, Expr.measure_of_none hnone]
    · rw [hcall k ts t hadmits ht, Expr.measure_of_some hk, hparts]

/-! ## Counting tokens -/

namespace Expr

/-- How many tokens at least an expression has besides those of its parts.  A call has its name, its
parentheses and its commas. -/
def marks : Expr → Nat
  | .call _ arguments _ _ => arguments.length + 2
  | .conditional _ _ _ _ _ => 2
  | _ => 1

lemma marks_pos (e : Expr) : 1 ≤ e.marks := by
  cases e <;> simp [marks]

/-- So many tokens are not too few for the expression and its parts. -/
inductive Takes : Expr → Nat → Prop
  | intro {e : Expr} {n : Nat} {counts : List Nat} (length_eq : e.parts.length = counts.length)
      (below : ∀ x m, (x, m) ∈ e.parts.zip counts → Takes x m)
      (sum_le : counts.sum + e.marks ≤ n) : Takes e n

namespace Takes

variable {e : Expr} {n : Nat}

lemma of_forall₂ {counts : List Nat} (h : List.Forall₂ Takes e.parts counts)
    (hsum : counts.sum + e.marks ≤ n) : Takes e n := by
  obtain ⟨hlength, hbelow⟩ := List.forall₂_iff_zip.1 h
  exact .intro hlength (fun x m hmem => hbelow hmem) hsum

lemma leaf (hparts : e.parts = []) (hmarks : e.marks ≤ n) : Takes e n := by
  have hnone : List.Forall₂ Takes e.parts [] := by
    rw [hparts]
    exact .nil
  exact of_forall₂ hnone (by simpa using hmarks)

lemma pos (h : Takes e n) : 1 ≤ n := by
  obtain ⟨-, -, hsum⟩ := h
  have hmarks := e.marks_pos
  omega

lemma relocate (h : Takes e n) (l : Location) : Takes (e.relocate l) (n + 2) := by
  obtain ⟨hlength, hbelow, hsum⟩ := h
  have hparts : (e.relocate l).parts = e.parts := by cases e <;> rfl
  have hmarks : (e.relocate l).marks = e.marks := by cases e <;> rfl
  rw [← hparts] at hlength hbelow
  refine .intro hlength hbelow ?_
  omega

/-- A minus sign before a number leaves a number. -/
lemma signed (h : Takes e n) (sign : Sign) (place : Location) :
    Takes (Expr.signed sign place e) (n + 1) := by
  unfold Expr.signed
  split
  · exact leaf rfl (Nat.le_add_left 1 n)
  · exact of_forall₂ (.cons h .nil) (by simp [ofUnary, marks])

end Takes

end Expr

namespace Grammar

open FormulaTree.Expr (Takes)

mutual

/-- A derived expression has no more tokens than it is derived from. -/
lemma Derives.takes {c : Category} {n : Nat} {ts : List Token} {e : Expr} :
    Derives c n ts e → e.Takes ts.length
  | .number | .text | .boolean | .identifier | .field => .leaf rfl (le_refl 1)
  | .group inside => by
    rw [List.length_cons, List.length_append]
    exact inside.takes.relocate _
  | .call applied inside => by
    obtain ⟨counts, harguments, hcounts⟩ := inside.takes
    refine .of_forall₂ harguments ?_
    have hname := applied.takes.pos
    have hlength := harguments.length_eq
    simp only [Expr.ofCall, Expr.marks, List.length_append, List.length_cons, List.length_nil]
    omega
  | .member applied => by
    refine .leaf rfl ?_
    rw [List.length_append]
    exact Nat.le_add_left_of_le (Nat.le_succ 1)
  | .signed _ inside => inside.takes.signed _ _
  | .chain first _ second => by
    refine .of_forall₂ (.cons first.takes (.cons second.takes .nil)) ?_
    simp only [Expr.ofBinary, Expr.marks, List.length_append, List.length_cons, List.sum_cons,
      List.sum_nil]
    omega
  | .choice condition yes no => by
    refine .of_forall₂ (.cons condition.takes (.cons yes.takes (.cons no.takes .nil))) ?_
    simp only [Expr.ofConditional, Expr.marks, List.length_append, List.length_cons, List.sum_cons,
      List.sum_nil]
    omega
  | .primary alone | .applied alone | .operand alone | .level alone | .test alone => alone.takes

lemma DerivesArguments.takes {n : Nat} {ts : List Token} {es : List Expr} :
    DerivesArguments n ts es → ∃ counts, List.Forall₂ Takes es counts ∧
      counts.sum + counts.length ≤ ts.length + 1
  | .none => ⟨[], .nil, Nat.zero_le _⟩
  | .some first others => by
    obtain ⟨counts, hothers, hcounts⟩ := others.takes
    refine ⟨_, .cons first.takes hothers, ?_⟩
    rw [List.length_append, List.sum_cons, List.length_cons]
    omega

lemma DerivesMore.takes {n : Nat} {ts : List Token} {es : List Expr} :
    DerivesMore n ts es → ∃ counts, List.Forall₂ Takes es counts ∧
      counts.sum + counts.length ≤ ts.length
  | .none => ⟨[], .nil, Nat.zero_le _⟩
  | .some first others => by
    obtain ⟨counts, hothers, hcounts⟩ := others.takes
    refine ⟨_, .cons first.takes hothers, ?_⟩
    simp only [List.length_cons, List.length_append, List.sum_cons]
    omega

end

end Grammar

/-- A formula has no more tokens than characters. -/
lemma Token.length_le_of_ofText {s : String} {tokens : List Token} (h : ofText s = .ok tokens) :
    tokens.length ≤ s.length := by
  obtain ⟨lead, body, hs, -, hbody⟩ := ofText_eq_ok h
  obtain ⟨pieces, tail, rfl, rfl, hread, -, -⟩ := tokensFrom_pieces hbody
  have hpieces : pieces.length ≤ (Piece.textOf pieces).length := by
    clear hbody hs h
    induction pieces with
    | nil => exact Nat.zero_le _
    | cons x pieces ih =>
      -- Already the slice of a piece is not empty.
      have hslice := List.length_pos_iff.2 (hread x (List.mem_cons_self ..)).slice_ne_nil
      have hothers := ih fun y hy => hread y (List.mem_cons_of_mem _ hy)
      simp only [Piece.textOf, List.flatMap_cons, List.length_append, List.length_cons, Piece.text]
        at hothers ⊢
      omega
  rw [← String.length_toList, hs, List.length_map]
  simp only [List.length_append]
  omega

end FormulaTree
