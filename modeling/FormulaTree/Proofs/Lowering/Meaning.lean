import FormulaTree.Lowering
import FormulaTree.Proofs.Grammar.Derivation
import Mathlib.Data.List.Forall2

/-!
# What an expression means

`Lowering.Means e t` says that the expression `e` lowers to the tree `t` with nothing wrong, at any
depth at which no part of it is beyond the limit.  There is one lemma for each form of expression
that has a meaning: the meaning of the whole is put together from the meanings of the parts.
-/

namespace FormulaTree.Lowering

/-- Wherever the depth limit leaves room for the expression, it lowers to the tree. -/
def Means (e : Expr) (t : Tree) : Prop :=
  ∀ (limit depth : Nat) (reported : Bool), depth + e.height ≤ limit →
    ofExpr limit depth reported e = done t

lemma Means.number (n : Number) (l : Location) : Means (.number n l) (.number n) := by
  intro limit depth reported h
  have hheight : (Expr.number n l).height = 1 := rfl
  rw [ofExpr, if_neg (by omega)]

lemma Means.text (s : String) (l : Location) : Means (.text s l) (.text s) := by
  intro limit depth reported h
  have hheight : (Expr.text s l).height = 1 := rfl
  rw [ofExpr, if_neg (by omega)]

lemma Means.boolean (b : Bool) (l : Location) : Means (.boolean b l) (.boolean b) := by
  intro limit depth reported h
  have hheight : (Expr.boolean b l).height = 1 := rfl
  rw [ofExpr, if_neg (by omega)]

lemma Means.identifier {name : String} {f : Field} (hname : Field.ofName? name = some f)
    (l : Location) : Means (.identifier name l) (.field f) := by
  intro limit depth reported h
  have hheight : (Expr.identifier name l).height = 1 := rfl
  rw [ofExpr, if_neg (by omega), Lowering.identifier, hname]

lemma Means.member {name property : String} {f : Field} (hname : Field.hasMembers name = true)
    (hproperty : Field.member? name property = some f) (l l' : Location) :
    Means (.ofMember (.identifier name l) property l') (.field f) := by
  intro limit depth reported h
  have hheight : (Expr.ofMember (.identifier name l) property l').height = 2 := rfl
  rw [Expr.ofMember, ofExpr, if_neg (by omega), Lowering.member, if_pos hname, hproperty]

/-! ## Parentheses

Where an expression stands matters only to its diagnostics. -/

lemma identifier_eq_done {name : String} {l : Location} {t : Tree}
    (h : Lowering.identifier name l = done t) (l' : Location) :
    Lowering.identifier name l' = done t := by
  unfold Lowering.identifier at h ⊢
  cases hname : Field.ofName? name with
  | some f => rwa [hname] at h
  | none =>
    rw [hname] at h
    cases h

lemma member_eq_done {object : Expr} {property : String} {l : Location} {t : Tree}
    (h : Lowering.member object property l = done t) (l' : Location) :
    Lowering.member object property l' = done t := by
  unfold Lowering.member at h ⊢
  grind [done, failed]

lemma callee_eq_ok_at {e : Expr} {count : Nat} {l : Location} {k : Keyword}
    (h : callee e count l = .ok k) (l' : Location) : callee e count l' = .ok k := by
  unfold callee at h ⊢
  split at h
  · split at h
    · split at h <;> simp_all
    · cases h
  · cases h

/-- Parentheses change nothing. -/
lemma Means.relocate {e : Expr} {t : Tree} (h : Means e t) (l : Location) :
    Means (e.relocate l) t := by
  intro limit depth reported hlimit
  have hheight : (e.relocate l).height = e.height := by cases e <;> rfl
  have hdone := h limit depth reported (hheight ▸ hlimit)
  rw [ofExpr.eq_def] at hdone ⊢
  by_cases hdepth : limit ≤ depth
  · rw [if_pos hdepth] at hdone
    cases hdone
  · rw [if_neg hdepth] at hdone ⊢
    cases e with
    | number | text | boolean | conditional => exact hdone
    | unary => cases hdone
    | identifier name l₀ => exact identifier_eq_done hdone l
    | member object property _ l₀ => exact member_eq_done hdone l
    | call f arguments _ l₀ =>
      dsimp only [Expr.relocate] at hdone ⊢
      cases hcallee : callee f arguments.length l₀ with
      | ok k =>
        rw [callee_eq_ok_at hcallee l]
        rwa [hcallee] at hdone
      | error d =>
        rw [hcallee] at hdone
        cases hdone
    | binary sign left right _ l₀ =>
      dsimp only [Expr.relocate] at hdone ⊢
      cases hsign : Keyword.ofWord? sign.text with
      | some k => rwa [hsign] at hdone
      | none =>
        rw [hsign] at hdone
        cases hdone

/-! ## Siblings -/

/-- Siblings that each have a tree come to these trees, and nothing is wrong with them. -/
lemma operands_done {steps : List (Bool → Lowering)} {ts : List Tree}
    (h : List.Forall₂ (fun step t => ∀ reported, step reported = done t) steps ts)
    (reported : Bool) : operands reported steps = ⟨ts, []⟩ := by
  induction h generalizing reported with
  | nil => rfl
  | cons hstep _ ih =>
    rw [operands, hstep, ih]
    rfl

lemma Means.binary {sign : Sign} {op : Operator} {left right : Expr} {t u : Tree}
    (hsign : Keyword.ofWord? sign.text = some ⟨op, .plain⟩) (hleft : Means left t)
    (hright : Means right u) : Means (.ofBinary sign left right) (.operation op [t, u]) := by
  intro limit depth reported h
  have hheight : (Expr.ofBinary sign left right).height = 1 + max left.height right.height := rfl
  rw [Expr.ofBinary, ofExpr, if_neg (by omega), hsign]
  dsimp only
  rw [operation, operands_done (.cons (fun r => hleft limit (depth + 1) r (by omega))
    (.cons (fun r => hright limit (depth + 1) r (by omega)) .nil))]
  rfl

lemma forall₂_ofExprs {limit depth : Nat} {es : List Expr} {ts : List Tree}
    (h : List.Forall₂ Means es ts) (hlimit : ∀ e ∈ es, depth + e.height ≤ limit) :
    List.Forall₂ (fun step t => ∀ reported, step reported = done t)
      (ofExprs limit depth es) ts := by
  induction h with
  | nil => exact .nil
  | cons hmeans _ ih =>
    rw [List.forall_mem_cons] at hlimit
    exact .cons (fun reported => hmeans limit depth reported hlimit.1) (ih hlimit.2)

/-- A call means what its keyword makes of the meanings of the arguments. -/
lemma Means.call {name : String} {k : Keyword} {arguments : List Expr} {ts : List Tree} {t : Tree}
    (hname : Keyword.ofWord? name = some k)
    (hcount : k.callArity.admits arguments.length = true)
    (harguments : List.Forall₂ Means arguments ts) (ht : Tree.ofCall? k ts = some t)
    (l l' : Location) : Means (.ofCall (.identifier name l) arguments l') t := by
  intro limit depth reported h
  have hheight : (Expr.ofCall (.identifier name l) arguments l').height =
      1 + Expr.tallest 1 arguments := rfl
  have htallest := (Grammar.tallest_le_iff.1 (Nat.le_refl (Expr.tallest 1 arguments))).2
  have hlimit : ∀ e ∈ arguments, depth + 1 + e.height ≤ limit := fun e he => by
    have := htallest e he
    omega
  rw [Expr.ofCall, ofExpr, if_neg (by omega), callee, hname]
  dsimp only
  rw [if_pos hcount]
  dsimp only
  rw [operands_done (forall₂_ofExprs harguments hlimit)]
  show Lowering.mk (Tree.ofCall? k ts) [] = done t
  rw [ht]
  rfl

end FormulaTree.Lowering
