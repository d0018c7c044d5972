import FormulaTree.Proofs.Grammar.Height
import FormulaTree.Proofs.Lowering.Offences

/-!
# The depth limit is out of reach

No expression is lowered that is further down than the depth limit.  An expression that is as high
as the limit, or lower, has nothing so far down; then it does not matter what the limit is, and that
it was reached is never reported.  The grammar admits no expression higher than `heightLimit`, so
this is always so with the limit that is in use.

Lowering an expression is lowering its parts and then putting the results together.  `ofParts` is
the second half, which does not know of the limit; `ofExpr_eq_ofParts` says once for all forms of
expressions how the two halves make up the whole.
-/

namespace FormulaTree.Lowering

/-! ## Expressions and their parts -/

/-- What an expression comes to if its parts come to `o`. -/
def ofParts (e : Expr) (o : Operands) : Lowering :=
  match e with
  | .number n _ => done (.number n)
  | .text s _ => done (.text s)
  | .boolean b _ => done (.boolean b)
  | .identifier name l => identifier name l
  | .member object property _ l => member object property l
  | .call e arguments _ l =>
    match callee e arguments.length l with
    | .ok k => call k o
    | .error d => failed d
  | .binary sign _ _ _ l =>
    match Keyword.ofWord? sign.text with
    | some k => operation k.operator o
    | none => failed (.unknownOperator sign.text l)
  | .unary _ _ _ l => failed (.unsupported l)
  | .conditional _ _ _ _ _ => operation .ternary o

theorem ofExpr_eq_ofParts {limit depth : Nat} (hdepth : depth < limit) (reported : Bool)
    (e : Expr) : ofExpr limit depth reported e =
      ofParts e (operands reported (ofExprs limit (depth + 1) e.parts)) := by
  cases e <;> rw [ofExpr, if_neg (Nat.not_le.2 hdepth)] <;> rfl

/-! ## Two limits -/

lemma ofExprs_congr {limit limit' depth : Nat} {es : List Expr}
    (h : ∀ e ∈ es, ∀ reported, ofExpr limit depth reported e = ofExpr limit' depth reported e) :
    ofExprs limit depth es = ofExprs limit' depth es := by
  induction es with
  | nil => rfl
  | cons e es ih =>
    obtain ⟨he, hes⟩ := List.forall_mem_cons.1 h
    rw [ofExprs, ofExprs, ih hes]
    exact congrArg (· :: _) (funext he)

/-- An expression comes to the same under any two limits that are not in its way. -/
lemma ofExpr_congr_limit {limit limit' : Nat} {e : Expr} (he : e.Placed) :
    ∀ depth reported, depth + e.height ≤ limit → depth + e.height ≤ limit' →
      ofExpr limit depth reported e = ofExpr limit' depth reported e := by
  induction he with
  | @intro e isProper within pairwise lower below ih =>
    intro depth reported hlimit hlimit'
    have hpos : 0 < e.height := (Expr.Placed.intro isProper within pairwise lower below).height_pos
    have hparts : ofExprs limit (depth + 1) e.parts = ofExprs limit' (depth + 1) e.parts := by
      refine ofExprs_congr fun x hx reported => ?_
      have hx := e.parts_sublist.subset hx
      have hlower := lower x hx
      exact ih x hx (depth + 1) reported (by omega) (by omega)
    rw [ofExpr_eq_ofParts (by omega), ofExpr_eq_ofParts (by omega), hparts]

/-- **The height of an expression keeps it off the depth limit.**  In a formula that can be read,
the height of every expression is the length of its longest path and at most 256.  A formula of one
expression comes to the same under every limit that is not below its height, and then the limit is
never reported. -/
theorem isLongest_height_and_ofTextWithin_eq (s : String) (tokens : List Token) (es : List Expr)
    (htokens : Token.ofText s = .ok tokens) (hstatements : Grammar.statements tokens = .ok es) :
    (∀ e ∈ es, ∀ x, e.Holds x → x.IsLongest x.height ∧ x.height ≤ 256) ∧
    ∀ e, es = [e] → ∀ limit, e.height ≤ limit →
      ofTextWithin limit s = ofText s ∧
        ∀ d ∈ (ofTextWithin limit s).diagnostics, d.kind ≠ .internal := by
  refine ⟨fun e he x hx => Grammar.statements_isLongest hstatements he hx, ?_⟩
  rintro e rfl limit hlimit
  obtain ⟨hplaced, hheight⟩ := Grammar.single_placed htokens hstatements
  rw [← Nat.zero_add e.height] at hlimit hheight
  rw [ofText, ofTextWithin_eq htokens hstatements, ofTextWithin_eq htokens hstatements]
  refine ⟨ofExpr_congr_limit hplaced 0 false hlimit hheight, fun d hd => ?_⟩
  obtain ⟨node, hreports⟩ := exists_reports hplaced hlimit hd
  exact hreports.kind_ne

/-- A number that takes two signs and a parenthesis into it, beside a member access and a faulty
operand. -/
def folded : String := "IF(-(-(1)) < @currentField.value, (!2), SIN(COS(3)) + 4)"

theorem isLongest_height_folded : ∃ tokens e, Token.ofText folded = .ok tokens ∧
    Grammar.statements tokens = .ok [e] ∧ e.IsLongest e.height ∧ e.height ≤ 256 ∧
    ofTextWithin e.height folded = ofText folded := by
  have hcount : statementCount? folded = some 1 := by decide +kernel
  obtain ⟨tokens, es, htokens, hstatements, hlength⟩ := exists_statements hcount
  obtain ⟨e, rfl⟩ := List.length_eq_one_iff.1 hlength
  obtain ⟨hheights, hlimits⟩ :=
    isLongest_height_and_ofTextWithin_eq folded tokens [e] htokens hstatements
  obtain ⟨hlongest, hheight⟩ := hheights e (List.mem_singleton_self e) e (.self e)
  exact ⟨tokens, e, htokens, hstatements, hlongest, hheight, (hlimits e rfl e.height (le_refl _)).1⟩

end FormulaTree.Lowering
