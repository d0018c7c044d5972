import FormulaTree.Proofs.Lowering.DepthLimit
import Mathlib.Logic.Relation

/-!
# Calls that are built without their arguments

The tree of a call is built if no argument has a diagnostic of its own; otherwise the operator is
applied to what there is.  This does not mean that no argument is missing.  That the depth limit was
reached is reported once, so an argument beyond the limit has no tree and no diagnostic either if
the limit was reported before.  A call on the last level above the limit is then built from nothing:
an `IF` comes to the empty text, and a `SWITCH` has no value to compare its cases with, so there is
no tree for it at all.

Such calls are **cut off** (`Expr.cutOff`).  They can be told from the expression alone: they are on
the last level, and something before them in the text is one level further down.  They are the only
source of the trouble: if none is cut off, then every call that is built has all its arguments, and
none is cut off by a limit as high as the expression.

## Visits

Lowering goes from an expression to its parts, from left to right, and knows at each of them whether
the limit was reported before.  `Visit` is what is known, and `Enters` the step to a part.
-/

namespace FormulaTree

namespace Expr

/-! ## Levels -/

/-- The expressions so many levels down that are looked at, in the order of the text. -/
def level : Nat → Expr → List Expr
  | 0, e => [e]
  | n + 1, e => if e.isOffending then [] else e.parts.flatMap (level n)

/-- The keyword that a call is made by, if the number of its arguments is right. -/
def keyword? : Expr → Option Keyword
  | .call callee arguments _ l => (Lowering.callee callee arguments.length l).toOption
  | _ => none

/-- The expressions on the last level above the limit that something at the limit comes before. -/
def cutOff : Nat → Expr → List Expr
  | 0, _ => []
  | depth + 1, e => (e.level depth).filter fun node =>
    (e.level (depth + 1)).any fun early => early.location.Precedes node.location

variable {e x node : Expr} {n limit : Nat}

lemma mem_cutOff : node ∈ e.cutOff limit ↔
    (∃ depth, depth + 1 = limit ∧ node ∈ e.level depth) ∧
      ∃ early ∈ e.level limit, early.location.Precedes node.location := by
  cases limit with
  | zero => simp [cutOff]
  | succ depth => simp [cutOff]

lemma level_succ (h : e.isOffending = false) : e.level (n + 1) = e.parts.flatMap (level n) := by
  rw [level, h]
  rfl

lemma mem_level_succ :
    node ∈ e.level (n + 1) ↔ e.isOffending = false ∧ ∃ x ∈ e.parts, node ∈ x.level n := by
  rw [level]
  cases e.isOffending <;> simp

lemma Placed.part (he : e.Placed) (hx : x ∈ e.parts) :
    x.Placed ∧ x.location.Within e.location ∧ x.height < e.height := by
  obtain ⟨-, hwithin, -, hlower, hbelow⟩ := he
  have hchild := e.parts_sublist.subset hx
  exact ⟨hbelow x hchild, hwithin x hchild, hlower x hchild⟩

lemma Placed.pairwise_parts (he : e.Placed) :
    e.parts.Pairwise fun x y => x.location.Precedes y.location := by
  obtain ⟨-, -, hpairwise, -, -⟩ := he
  exact hpairwise.sublist e.parts_sublist

/-- What is on a level of an expression stands within it. -/
lemma Placed.of_mem_level (he : e.Placed) (hnode : node ∈ e.level n) :
    node.Placed ∧ node.location.Within e.location := by
  induction n generalizing e with
  | zero =>
    rw [List.mem_singleton.1 hnode]
    exact ⟨he, .refl _⟩
  | succ n ih =>
    obtain ⟨-, x, hx, hinside⟩ := mem_level_succ.1 hnode
    obtain ⟨hplaced, hwithin, -⟩ := he.part hx
    obtain ⟨hnode, hwithin'⟩ := ih hplaced hinside
    exact ⟨hnode, hwithin'.trans hwithin⟩

/-- An expression has no more levels than its height says. -/
lemma Placed.level_eq_nil (he : e.Placed) (h : e.height ≤ n) : e.level n = [] := by
  induction n generalizing e with
  | zero => exact absurd he.height_pos (Nat.not_lt.2 h)
  | succ n ih =>
    rw [List.eq_nil_iff_forall_not_mem]
    intro node hnode
    obtain ⟨-, x, hx, hinside⟩ := mem_level_succ.1 hnode
    obtain ⟨hplaced, -, hlower⟩ := he.part hx
    rw [ih hplaced (by omega)] at hinside
    cases hinside

/-- Nothing is before a stretch of text that it is part of. -/
lemma Placed.not_precedes (hnode : node.Placed) (h : node.location.Within x.location) :
    ¬node.location.Precedes x.location :=
  fun hprecedes => absurd (hnode.isProper.trans_le (hprecedes.trans h.1)) (lt_irrefl _)

/-- Of what is on a level, all that belongs to earlier parts is before a node of a part, and nothing
that belongs to later ones is. -/
lemma Placed.exists_precedes_iff {before after : List Expr} (he : e.Placed)
    (hsound : e.isOffending = false) (hparts : e.parts = before ++ x :: after)
    (hnode : node.Placed) (hwithin : node.location.Within x.location) :
    (∃ early ∈ e.level (n + 1), early.location.Precedes node.location) ↔
      before.flatMap (level n) ≠ [] ∨
        ∃ early ∈ x.level n, early.location.Precedes node.location := by
  have hpart {y : Expr} (hy : y ∈ before ++ x :: after) : y.Placed := (he.part (hparts ▸ hy)).1
  have hpairwise := he.pairwise_parts
  rw [hparts] at hpairwise
  obtain ⟨-, hlater, hearlier⟩ := List.pairwise_append.1 hpairwise
  rw [level_succ hsound, hparts]
  constructor
  · rintro ⟨early, hearly, hprecedes⟩
    obtain ⟨y, hy, hinside⟩ := List.mem_flatMap.1 hearly
    obtain ⟨hplaced, hy'⟩ := (hpart hy).of_mem_level hinside
    rcases List.mem_append.1 hy with hbefore | hrest
    · exact .inl (List.ne_nil_of_mem (List.mem_flatMap_of_mem hbefore hinside))
    rcases List.mem_cons.1 hrest with rfl | hafter
    · exact .inr ⟨early, hinside, hprecedes⟩
    · have hreverse := ((List.pairwise_cons.1 hlater).1 y hafter).mono hwithin hy'
      have hback := hprecedes.trans (hnode.isProper.le.trans hreverse)
      exact absurd (hplaced.isProper.trans_le hback) (lt_irrefl _)
  · rintro (hne | ⟨early, hinside, hprecedes⟩)
    · obtain ⟨early, hearly⟩ := List.exists_mem_of_ne_nil _ hne
      obtain ⟨y, hy, hinside⟩ := List.mem_flatMap.1 hearly
      have hmem : y ∈ before ++ x :: after := List.mem_append_left _ hy
      obtain ⟨-, hy'⟩ := (hpart hmem).of_mem_level hinside
      exact ⟨early, List.mem_flatMap_of_mem hmem hinside,
        (hearlier y hy x (List.mem_cons_self ..)).mono hy' hwithin⟩
    · exact ⟨early, List.mem_flatMap_of_mem (by simp) hinside, hprecedes⟩

end Expr

namespace Lowering

/-! ## Siblings -/

/-- Whether the depth limit was reported. -/
def Operands.reportsDepth (o : Operands) : Bool := o.diagnostics.any (·.kind = .internal)

variable {limit depth n : Nat} {reported : Bool} {e x : Expr} {es : List Expr} {k : Keyword}

lemma reportsDepth_operands_cons (reported : Bool) (e : Expr) (es : List Expr) :
    (operands reported (ofExprs limit depth (e :: es))).reportsDepth =
      ((ofExpr limit depth reported e).reportsDepth ||
        (operands (reported || (ofExpr limit depth reported e).reportsDepth)
          (ofExprs limit depth es)).reportsDepth) := by
  simp only [ofExprs, operands, Operands.reportsDepth, reportsDepth, List.any_append]

/-- Siblings report the limit if it was not reported before and one of them reaches it. -/
lemma reportsDepth_operands
    (h : ∀ e ∈ es, ∀ reported, (ofExpr limit depth reported e).reportsDepth = true ↔
      reported = false ∧ e.level n ≠ []) (reported : Bool) :
    (operands reported (ofExprs limit depth es)).reportsDepth = true ↔
      reported = false ∧ es.flatMap (Expr.level n) ≠ [] := by
  induction es generalizing reported with
  | nil => simp [ofExprs, operands, Operands.reportsDepth]
  | cons e es ih =>
    obtain ⟨he, hes⟩ := List.forall_mem_cons.1 h
    rw [reportsDepth_operands_cons, List.flatMap_cons]
    cases hfirst : (ofExpr limit depth reported e).reportsDepth with
    | true =>
      obtain ⟨hreported, hne⟩ := (he reported).1 hfirst
      simp [hreported, hne]
    | false =>
      -- Nothing was reported of the first, so the others are told what it was told.
      have hnone : reported = false → e.level n = [] := by
        simpa [hfirst] using (he reported).2
      rw [Bool.or_false, Bool.false_or, ih hes]
      exact and_congr_right fun hreported => by rw [hnone hreported, List.nil_append]

/-- The limit is reported if it was not before and there is something at it. -/
lemma reportsDepth_ofExpr (n : Nat) : ∀ (depth : Nat) (reported : Bool) (e : Expr),
    (ofExpr (depth + n) depth reported e).reportsDepth = true ↔
      reported = false ∧ e.level n ≠ [] := by
  induction n with
  | zero =>
    intro depth reported e
    rw [Nat.add_zero, reportsDepth, ofExpr_of_le (Nat.le_refl _)]
    cases reported <;> simp [Expr.level, tooDeep]
  | succ n ih =>
    intro depth reported e
    have hdepth : depth < depth + (n + 1) := by omega
    cases h : e.isOffending with
    | true =>
      obtain ⟨d, hreports, heq⟩ := ofExpr_of_offending hdepth h
      simp [heq, reportsDepth, failed, hreports.kind_ne, Expr.level, h]
    | false =>
      rw [reportsDepth, diagnostics_ofExpr hdepth h, Expr.level_succ h]
      refine reportsDepth_operands (fun x _ reported => ?_) reported
      rw [← Nat.succ_add_eq_add_succ]
      exact ih (depth + 1) reported x

lemma reportsDepth_ofExprs (h : depth + n = limit) (reported : Bool) (es : List Expr) :
    (operands reported (ofExprs limit depth es)).reportsDepth = true ↔
      reported = false ∧ es.flatMap (Expr.level n) ≠ [] := by
  subst h
  exact reportsDepth_operands (fun e _ reported => reportsDepth_ofExpr n depth reported e) reported

/-- Once the limit is reported, nothing that is beyond it leaves a trace. -/
lemma operands_of_le (h : limit ≤ depth) (es : List Expr) :
    operands true (ofExprs limit depth es) = ⟨[], []⟩ := by
  induction es with
  | nil => rfl
  | cons e es ih => simp [ofExprs, operands, ofExpr_of_le h, ih]

/-- The diagnostics of one of some siblings, told what is known when its turn comes, are among
theirs. -/
lemma diagnostics_operands_split (limit depth : Nat) (reported : Bool) (before : List Expr)
    (x : Expr) (after : List Expr) :
    (ofExpr limit depth (reported ||
        (operands reported (ofExprs limit depth before)).reportsDepth) x).diagnostics ⊆
      (operands reported (ofExprs limit depth (before ++ x :: after))).diagnostics := by
  induction before generalizing reported with
  | nil =>
    simp only [ofExprs, operands, Operands.reportsDepth, List.any_nil, Bool.or_false,
      List.nil_append]
    exact List.subset_append_left _ _
  | cons e before ih =>
    rw [reportsDepth_operands_cons, ← Bool.or_assoc]
    exact List.subset_append_of_subset_right _ (ih _)

/-- If there are fewer trees than siblings, one of them has none. -/
lemma exists_tree?_eq_none (reported : Bool)
    (h : (operands reported (ofExprs limit depth es)).trees.length ≠ es.length) :
    ∃ before x after, es = before ++ x :: after ∧
      (ofExpr limit depth (reported ||
        (operands reported (ofExprs limit depth before)).reportsDepth) x).tree? = none := by
  induction es generalizing reported with
  | nil => exact absurd rfl h
  | cons e es ih =>
    cases hfirst : (ofExpr limit depth reported e).tree? with
    | none =>
      refine ⟨[], e, es, rfl, ?_⟩
      simpa [ofExprs, operands, Operands.reportsDepth] using hfirst
    | some t =>
      obtain ⟨before, x, after, rfl, hnone⟩ :=
        ih (reported || (ofExpr limit depth reported e).reportsDepth) (by
          intro hlength
          refine h ?_
          simp [ofExprs, operands, hfirst, hlength])
      refine ⟨e :: before, x, after, rfl, ?_⟩
      rwa [reportsDepth_operands_cons, ← Bool.or_assoc]

/-! ## Calls -/

lemma keyword?_eq_some (h : e.keyword? = some k) : ∃ f arguments height l,
    e = .call f arguments height l ∧ callee f arguments.length l = .ok k := by
  cases e with
  | call f arguments height l =>
    rw [Expr.keyword?] at h
    cases hcallee : callee f arguments.length l with
    | error d =>
      rw [hcallee] at h
      cases h
    | ok k' =>
      rw [hcallee] at h
      cases h
      exact ⟨f, arguments, height, l, rfl, hcallee⟩
  | _ => cases h

lemma isOffending_of_keyword? (h : e.keyword? = some k) : e.isOffending = false := by
  obtain ⟨f, arguments, height, l, rfl, hcallee⟩ := keyword?_eq_some h
  refine Bool.eq_false_iff.2 fun hoffending => ?_
  obtain ⟨d, -, herror⟩ := reports_callee hoffending
  rw [hcallee] at herror
  cases herror

lemma ofParts_of_keyword? (h : e.keyword? = some k) (o : Operands) : ofParts e o = call k o := by
  obtain ⟨f, arguments, height, l, rfl, hcallee⟩ := keyword?_eq_some h
  rw [ofParts, hcallee]

lemma parts_ne_nil_of_keyword? (h : e.keyword? = some k) : e.parts ≠ [] := by
  obtain ⟨f, arguments, height, l, rfl, hcallee⟩ := keyword?_eq_some h
  obtain ⟨-, hadmits⟩ := callee_eq_ok hcallee
  rintro ⟨⟩
  rw [List.length_nil, Keyword.admits_zero] at hadmits
  cases hadmits

/-- The only expressions that do not offend and may be without a tree are calls. -/
lemma keyword?_of_tree?_eq_none {o : Operands} (hsound : e.isOffending = false)
    (h : (ofParts e o).tree? = none) :
    ∃ k, e.keyword? = some k ∧ o.diagnostics = [] ∧ Tree.ofCall? k o.trees = none := by
  cases e with
  | number | text | boolean | conditional => cases h
  | unary => cases hsound
  | identifier name l =>
    cases hname : Field.ofName? name with
    | none =>
      rw [Expr.isOffending, Field.ofName?_eq_none_iff.1 hname] at hsound
      cases hsound
    | some f =>
      rw [ofParts, identifier, hname] at h
      cases h
  | member object property height l =>
    obtain ⟨f, hmember⟩ := member_eq_done_of_not_offending hsound
    rw [ofParts, hmember] at h
    cases h
  | call f arguments height l =>
    obtain ⟨k, hcallee⟩ := callee_eq_ok_of_not_offending hsound
    rw [ofParts, hcallee] at h
    refine ⟨k, by rw [Expr.keyword?, hcallee]; rfl, ?_⟩
    dsimp only [call] at h
    split at h
    · rename_i hclean
      exact ⟨List.isEmpty_iff.1 hclean, h⟩
    · cases h
  | binary sign left right height l =>
    cases hword : Keyword.ofWord? sign.text with
    | none => simp [Expr.isOffending, hword] at hsound
    | some k =>
      rw [ofParts, hword] at h
      cases h

/-! ## Visits -/

/-- An expression whose turn it is, how far down it is, and whether the depth limit was reported
before. -/
structure Visit where
  depth : Nat
  reported : Bool
  expr : Expr

/-- What the parts of the expression come to. -/
def Visit.operands (limit : Nat) (v : Visit) : Operands :=
  Lowering.operands v.reported (ofExprs limit (v.depth + 1) v.expr.parts)

/-- From an expression to one of its parts, after those before it. -/
inductive Enters (limit : Nat) : Visit → Visit → Prop
  | part {depth : Nat} {reported : Bool} {e x : Expr} {before after : List Expr}
      (above : depth < limit) (sound : e.isOffending = false)
      (split : e.parts = before ++ x :: after) :
      Enters limit ⟨depth, reported, e⟩ ⟨depth + 1, reported ||
        (operands reported (ofExprs limit (depth + 1) before)).reportsDepth, x⟩

/-- From an expression to any below it. -/
abbrev Visits (limit : Nat) : Visit → Visit → Prop := Relation.ReflTransGen (Enters limit)

variable {v w : Visit} {node : Expr}

/-- What is visited is on a level. -/
lemma Visits.mem_level (h : Visits limit v w) :
    ∃ n, v.depth + n = w.depth ∧ w.expr ∈ v.expr.level n := by
  induction h using Relation.ReflTransGen.head_induction_on with
  | refl => exact ⟨0, rfl, List.mem_singleton_self _⟩
  | head hstep _ ih =>
    obtain @⟨depth, reported, e, x, before, after, -, hsound, hsplit⟩ := hstep
    obtain ⟨n, hdepth, hmem⟩ := ih
    refine ⟨n + 1, by rw [← hdepth]; exact (Nat.succ_add_eq_add_succ depth n).symm, ?_⟩
    exact Expr.mem_level_succ.2 ⟨hsound, x, by simp [hsplit], hmem⟩

/-- What is on a level is visited. -/
lemma exists_visits (limit n : Nat) : ∀ v : Visit, v.depth + n ≤ limit → node ∈ v.expr.level n →
    ∃ reported, Visits limit v ⟨v.depth + n, reported, node⟩ := by
  induction n with
  | zero =>
    intro v _ hmem
    rw [List.mem_singleton.1 hmem]
    exact ⟨v.reported, .refl⟩
  | succ n ih =>
    rintro ⟨depth, reported, e⟩ hlimit hmem
    obtain ⟨hsound, x, hx, hinside⟩ := Expr.mem_level_succ.1 hmem
    obtain ⟨before, after, hsplit⟩ := List.append_of_mem hx
    dsimp only at hlimit ⊢
    have hstep : Enters limit ⟨depth, reported, e⟩ _ := .part (by omega) hsound hsplit
    rw [← Nat.succ_add_eq_add_succ] at hlimit ⊢
    obtain ⟨reported', hvisits⟩ := ih ⟨depth + 1, _, x⟩ hlimit hinside
    exact ⟨reported', .head hstep hvisits⟩

/-- When the turn of an expression comes, the limit was reported just if there is something at it
that is before the expression in the text, or else it was reported from the start. -/
lemma Visits.reported_iff (h : Visits limit v w) : ∀ n, v.depth + n = limit → v.expr.Placed →
    (w.reported = true ↔ v.reported = true ∨
      ∃ early ∈ v.expr.level n, early.location.Precedes w.expr.location) := by
  induction h using Relation.ReflTransGen.head_induction_on with
  | refl =>
    intro n _ hplaced
    refine (or_iff_left ?_).symm
    rintro ⟨early, hearly, hprecedes⟩
    obtain ⟨hearly, hwithin⟩ := hplaced.of_mem_level hearly
    exact hearly.not_precedes hwithin hprecedes
  | head hstep hrest ih =>
    obtain @⟨depth, reported, e, x, before, after, habove, hsound, hsplit⟩ := hstep
    intro n hlimit hplaced
    dsimp only at hlimit hplaced ih ⊢
    obtain ⟨n, rfl⟩ : ∃ m, n = m + 1 := Nat.exists_eq_succ_of_ne_zero (by omega)
    rw [← Nat.succ_add_eq_add_succ] at hlimit
    have hx : x ∈ e.parts := by simp [hsplit]
    obtain ⟨hplacedx, -, -⟩ := hplaced.part hx
    obtain ⟨m, -, hmem⟩ := Visits.mem_level hrest
    obtain ⟨hplacedw, hwithin⟩ := hplacedx.of_mem_level hmem
    rw [ih n hlimit hplacedx, hplaced.exists_precedes_iff hsound hsplit hplacedw hwithin,
      Bool.or_eq_true, reportsDepth_ofExprs hlimit, or_assoc]
    cases reported <;> simp

/-- If nothing is wrong with the parts of an expression and yet one is missing, then the missing one
is a call for which there is no tree. -/
lemma exists_enters_of_missing (hdepth : v.depth + 1 < limit)
    (hsound : v.expr.isOffending = false) (hclean : (v.operands limit).diagnostics = [])
    (hmissing : (v.operands limit).trees.length ≠ v.expr.parts.length) :
    ∃ w k, Enters limit v w ∧ w.depth = v.depth + 1 ∧ w.expr.keyword? = some k ∧
      (w.operands limit).diagnostics = [] ∧ Tree.ofCall? k (w.operands limit).trees = none := by
  obtain ⟨depth, reported, e⟩ := v
  dsimp only [Visit.operands] at hdepth hsound hclean hmissing ⊢
  obtain ⟨before, x, after, hsplit, hnone⟩ := exists_tree?_eq_none reported hmissing
  have hsilent := diagnostics_operands_split limit (depth + 1) reported before x after
  rw [← hsplit, hclean, List.subset_nil] at hsilent
  have hstep : Enters limit ⟨depth, reported, e⟩ _ := .part (Nat.lt_of_succ_lt hdepth) hsound hsplit
  have hsoundx : x.isOffending = false := by
    refine Bool.eq_false_iff.2 fun hoffending => ?_
    obtain ⟨d, -, heq⟩ := ofExpr_of_offending hdepth hoffending
    rw [heq] at hsilent
    cases hsilent
  rw [ofExpr_eq_ofParts hdepth] at hnone
  obtain ⟨k, hk, hcleanx, hcrash⟩ := keyword?_of_tree?_eq_none hsoundx hnone
  exact ⟨_, k, hstep, rfl, hk, hcleanx, hcrash⟩

/-! ## Calls that are built -/

/-- A call that is built when an expression is lowered: it is visited above the limit, and none of
its arguments has a diagnostic. -/
structure Building (limit : Nat) (e : Expr) where
  visit : Visit
  keyword : Keyword
  visited : Visits limit ⟨0, false, e⟩ visit
  above : visit.depth < limit
  calls : visit.expr.keyword? = some keyword
  clean : (visit.operands limit).diagnostics = []

namespace Building

/-- The arguments of the call. -/
def arguments (b : Building limit e) : List Expr := b.visit.expr.parts

/-- The trees that it is built from. -/
def operands (b : Building limit e) : List Tree := (b.visit.operands limit).trees

/-- Every argument has a tree. -/
def IsComplete (b : Building limit e) : Prop := b.operands.length = b.arguments.length

/-- There is no tree of the call, for want of a value to compare cases with. -/
def Crashes (b : Building limit e) : Prop := Tree.ofCall? b.keyword b.operands = none

/-- The call comes to what is built from the operands. -/
lemma ofExpr_eq (b : Building limit e) :
    ofExpr limit b.visit.depth b.visit.reported b.visit.expr =
      ⟨Tree.ofCall? b.keyword b.operands, []⟩ := by
  rw [ofExpr_eq_ofParts b.above, ofParts_of_keyword? b.calls, call]
  exact if_pos (List.isEmpty_iff.2 b.clean)

lemma not_isComplete_of_eq_nil {b : Building limit e} (h : b.operands = []) : ¬b.IsComplete := by
  rw [IsComplete, h]
  intro hlength
  exact parts_ne_nil_of_keyword? b.calls (List.length_eq_zero_iff.1 hlength.symm)

lemma Crashes.not_isComplete {b : Building limit e} (h : b.Crashes) : ¬b.IsComplete :=
  not_isComplete_of_eq_nil (ofCall?_eq_none_iff.1 h).2

/-- On the last level above the limit a call is built from nothing, and only if it is cut off. -/
lemma mem_cutOff_of_last {b : Building limit e} (he : e.Placed) (h : b.visit.depth + 1 = limit) :
    b.operands = [] ∧ b.visit.expr ∈ e.cutOff limit := by
  have hreported : b.visit.reported = true := by
    by_contra hreported
    -- Otherwise the first argument would report the limit.
    obtain ⟨x, xs, hparts⟩ := List.exists_cons_of_ne_nil (parts_ne_nil_of_keyword? b.calls)
    have hdepth : (b.visit.operands limit).reportsDepth = true := by
      refine (reportsDepth_ofExprs (n := 0) h _ _).2 ⟨Bool.eq_false_iff.2 hreported, ?_⟩
      rw [hparts, List.flatMap_cons]
      exact List.append_ne_nil_of_left_ne_nil (List.cons_ne_nil _ _) _
    rw [Operands.reportsDepth, b.clean] at hdepth
    cases hdepth
  refine ⟨?_, Expr.mem_cutOff.2 ⟨?_, ?_⟩⟩
  · rw [operands, Visit.operands, hreported, operands_of_le h.ge]
  · obtain ⟨n, hdepth, hmem⟩ := b.visited.mem_level
    exact ⟨n, by rw [← h, ← hdepth, Nat.zero_add], hmem⟩
  · have hstart := (b.visited.reported_iff limit (Nat.zero_add limit) he).1 hreported
    simpa using hstart

/-- A call that is cut off is built from nothing. -/
lemma exists_of_mem_cutOff {node : Expr} (he : e.Placed) (hcut : node ∈ e.cutOff limit)
    (hnode : node.keyword? = some k) :
    ∃ b : Building limit e, b.keyword = k ∧ b.operands = [] := by
  obtain ⟨⟨depth, rfl, hmem⟩, hlate⟩ := Expr.mem_cutOff.1 hcut
  obtain ⟨reported, hvisits⟩ := exists_visits (depth + 1) depth ⟨0, false, e⟩ (by simp) hmem
  rw [Nat.zero_add] at hvisits
  have hreported : reported = true :=
    (hvisits.reported_iff (depth + 1) (Nat.zero_add _) he).2 (.inr hlate)
  have hoperands : Visit.operands (depth + 1) ⟨depth, reported, node⟩ = ⟨[], []⟩ := by
    rw [Visit.operands, hreported, operands_of_le (Nat.le_refl _)]
  exact ⟨⟨⟨depth, reported, node⟩, k, hvisits, Nat.lt_succ_self depth, hnode, by rw [hoperands]⟩,
    rfl, by rw [operands, hoperands]⟩

/-- Further up an argument is missing only if it is a call without a tree. -/
lemma exists_crashes_below {b : Building limit e} (hdepth : b.visit.depth + 1 < limit)
    (h : ¬b.IsComplete) :
    ∃ c : Building limit e, c.Crashes ∧ c.visit.depth = b.visit.depth + 1 := by
  obtain ⟨w, k, hstep, hw, hk, hclean, hcrash⟩ :=
    exists_enters_of_missing hdepth (isOffending_of_keyword? b.calls) b.clean h
  exact ⟨⟨w, k, b.visited.tail hstep, hw ▸ hdepth, hk, hclean⟩, hcrash, hw⟩

/-- Where a call has no tree, there is a `SWITCH` that is cut off. -/
lemma Crashes.exists_mem_cutOff {b : Building limit e} (h : b.Crashes) (he : e.Placed) :
    ∃ node ∈ e.cutOff limit, ∃ k, node.keyword? = some k ∧ k.spelling = .switch := by
  -- Above the last level it lacks an argument that is such a call itself, so go down from there.
  induction hn : limit - b.visit.depth generalizing b with
  | zero => exact absurd b.above (by omega)
  | succ n ih =>
    rcases (Nat.succ_le_of_lt b.above).eq_or_lt with hlast | hdepth
    · exact ⟨b.visit.expr, (mem_cutOff_of_last he hlast).2, b.keyword, b.calls,
        (ofCall?_eq_none_iff.1 h).1⟩
    · obtain ⟨c, hc, hbelow⟩ := exists_crashes_below hdepth h.not_isComplete
      exact ih hc (by omega)

/-- Unless a call has no tree, all that can be missing are the arguments of calls that are cut
off. -/
lemma mem_cutOff_of_not_isComplete {b : Building limit e} (he : e.Placed)
    (hnone : ∀ c : Building limit e, ¬c.Crashes) (h : ¬b.IsComplete) :
    b.operands = [] ∧ b.visit.expr ∈ e.cutOff limit := by
  rcases (Nat.succ_le_of_lt b.above).eq_or_lt with hlast | hdepth
  · exact mem_cutOff_of_last he hlast
  · obtain ⟨c, hc, -⟩ := exists_crashes_below hdepth h
    exact absurd hc (hnone c)

lemma exists_crashes_iff (he : e.Placed) : (∃ b : Building limit e, b.Crashes) ↔
    ∃ node ∈ e.cutOff limit, ∃ k, node.keyword? = some k ∧ k.spelling = .switch := by
  constructor
  · rintro ⟨b, hb⟩
    exact hb.exists_mem_cutOff he
  · rintro ⟨node, hcut, k, hnode, hswitch⟩
    obtain ⟨b, rfl, hnil⟩ := exists_of_mem_cutOff he hcut hnode
    exact ⟨b, ofCall?_eq_none_iff.2 ⟨hswitch, hnil⟩⟩

lemma forall_isComplete_iff (he : e.Placed) : (∀ b : Building limit e, b.IsComplete) ↔
    ∀ node ∈ e.cutOff limit, node.keyword? = none := by
  constructor
  · intro hall node hcut
    by_contra hkeyword
    obtain ⟨k, hnode⟩ := Option.ne_none_iff_exists'.1 hkeyword
    obtain ⟨b, -, hnil⟩ := exists_of_mem_cutOff he hcut hnode
    exact not_isComplete_of_eq_nil hnil (hall b)
  · intro hnone b
    have hcrash (c : Building limit e) : ¬c.Crashes := by
      intro hc
      obtain ⟨node, hcut, k, hnode, -⟩ := hc.exists_mem_cutOff he
      rw [hnone node hcut] at hnode
      cases hnode
    by_contra hb
    have hcut := (mem_cutOff_of_not_isComplete he hcrash hb).2
    exact absurd b.calls (by rw [hnone _ hcut]; exact nofun)

end Building

/-! ## Formulas -/

/-- **Every call that is built has all its arguments, unless one is cut off.**  A call comes to what
is built from the trees of its arguments.  None of them is missing, in any call of a formula, just
when no call is cut off, and every call has a tree just when no `SWITCH` is.  If every call has one,
then a call that lacks an argument is itself cut off, and lacks them all.  A limit as high as the
expression cuts nothing off. -/
theorem building_isComplete_iff (s : String) (tokens : List Token) (e : Expr)
    (htokens : Token.ofText s = .ok tokens) (hstatements : Grammar.statements tokens = .ok [e])
    (limit : Nat) :
    (∀ b : Building limit e, ofExpr limit b.visit.depth b.visit.reported b.visit.expr =
      ⟨Tree.ofCall? b.keyword b.operands, []⟩) ∧
    ((∀ b : Building limit e, b.IsComplete) ↔
      ∀ node ∈ e.cutOff limit, node.keyword? = none) ∧
    ((∃ b : Building limit e, b.Crashes) ↔
      ∃ node ∈ e.cutOff limit, ∃ k, node.keyword? = some k ∧ k.spelling = .switch) ∧
    ((∀ b : Building limit e, ¬b.Crashes) → ∀ b : Building limit e, ¬b.IsComplete →
      b.operands = [] ∧ b.visit.expr ∈ e.cutOff limit) ∧
    (e.height ≤ limit → ∀ b : Building limit e, b.IsComplete ∧ ¬b.Crashes) := by
  obtain ⟨he, -⟩ := Grammar.single_placed htokens hstatements
  refine ⟨Building.ofExpr_eq, Building.forall_isComplete_iff he, Building.exists_crashes_iff he,
    fun hnone b hb => Building.mem_cutOff_of_not_isComplete he hnone hb, fun hheight b => ?_⟩
  have hcomplete (c : Building limit e) : c.IsComplete := by
    refine (Building.forall_isComplete_iff he).2 (fun node hcut => ?_) c
    obtain ⟨-, early, hearly, -⟩ := Expr.mem_cutOff.1 hcut
    rw [he.level_eq_nil hheight] at hearly
    cases hearly
  exact ⟨hcomplete b, fun hcrash => hcrash.not_isComplete (hcomplete b)⟩

/-- The first call reaches the limit, and the second is cut off. -/
def late : String := "IF(1, 2) + SWITCH(3, 4, 5)"

theorem building_isComplete_iff_late : ∃ tokens e, Token.ofText late = .ok tokens ∧
    Grammar.statements tokens = .ok [e] ∧ (∃ b : Building 2 e, b.Crashes) ∧
    ¬(∀ b : Building 2 e, b.IsComplete) ∧ ∀ b : Building 3 e, b.IsComplete ∧ ¬b.Crashes := by
  have hlate : hasSingle (fun e => e.height = 3 ∧ ∃ node ∈ e.cutOff 2,
      node.keyword? = some ⟨.ternary, .switch⟩) late = true := by decide +kernel
  obtain ⟨tokens, e, htokens, hstatements, hlate⟩ := exists_of_hasSingle hlate
  obtain ⟨hheight, node, hcut, hnode⟩ := of_decide_eq_true hlate
  obtain ⟨-, hcomplete, hcrashes, -⟩ :=
    building_isComplete_iff late tokens e htokens hstatements 2
  obtain ⟨-, -, -, -, hhigh⟩ := building_isComplete_iff late tokens e htokens hstatements 3
  refine ⟨tokens, e, htokens, hstatements, hcrashes.2 ⟨node, hcut, _, hnode, rfl⟩, fun hall => ?_,
    hhigh hheight.le⟩
  rw [hcomplete.1 hall node hcut] at hnode
  cases hnode

/-- A call can be built without its arguments. -/
theorem not_forall_building_isComplete : ¬∀ (s : String) (tokens : List Token) (e : Expr),
    Token.ofText s = .ok tokens → Grammar.statements tokens = .ok [e] →
      ∀ (limit : Nat) (b : Building limit e), b.IsComplete := by
  intro hall
  have hcutOff : hasSingle (fun e => ∃ node ∈ e.cutOff 2, node.keyword? ≠ none)
      "IF(1, 2) + IF(3, 4)" = true := by decide +kernel
  obtain ⟨tokens, e, htokens, hstatements, hcutOff⟩ := exists_of_hasSingle hcutOff
  obtain ⟨node, hcut, hnode⟩ := of_decide_eq_true hcutOff
  obtain ⟨he, -⟩ := Grammar.single_placed htokens hstatements
  have hcomplete := hall _ tokens e htokens hstatements 2
  exact hnode ((Building.forall_isComplete_iff he).1 hcomplete node hcut)

end Lowering

end FormulaTree
