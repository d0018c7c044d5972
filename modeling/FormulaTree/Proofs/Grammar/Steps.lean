import FormulaTree.Proofs.Grammar.Derivation

/-!
# Readers step by step

Each reader of the grammar is a few attempts in a row.  This file gives every category its reader
(`Category.reader`) and restates the readers by `Except.bind` and `Except.map`, one equation for
each token that decides how to go on.  What is proved about reading afterwards is proved from these
equations alone.
-/

namespace FormulaTree.Grammar

open FormulaTree.Expr (ofBinary ofCall ofConditional ofMember ofUnary signed)

/-! ## The readers of the categories -/

/-- The readers one level down, if there is a level. -/
def below : Nat → Option Level
  | 0 => none
  | m + 1 => some (levels m)

lemma levels_eq (m : Nat) : levels m = level (below m) := by
  cases m <;> rfl

/-- The reader of a category that may go down so many levels. -/
def Category.reader (m : Nat) : Category → ExprReader
  | .choice => Grammar.expression (below m) (Grammar.unary (below m))
  | .binary levels => levels.foldr leftAssoc (Grammar.unary (below m))
  | .unary => Grammar.unary (below m)
  | .applied => Grammar.applied (below m)
  | .primary => Grammar.primary (below m)

lemma expression_levels (m : Nat) : (levels m).expression = Category.choice.reader m := by
  rw [levels_eq]
  rfl

lemma unary_levels (m : Nat) : (levels m).unary = Category.unary.reader m := by
  rw [levels_eq]
  rfl

/-! ## The reader's tables -/

/-- The reader has the grammar's levels of binary signs. -/
lemma precedence_eq : precedence = binaryLevels := rfl

/-- It takes the same signs before an operand. -/
lemma unarySigns_eq : unarySigns = leadingSigns := rfl

/-! ## Expected tokens and heights -/

lemma expect_cons {kind : Token.Kind} {what : Expectation} {l : Location}
    {rest : List Token} : expect kind what (⟨kind, l⟩ :: rest) = .ok (l, rest) :=
  if_pos rfl

lemma expect_eq_ok {kind : Token.Kind} {what : Expectation} {ts rest : List Token}
    {l : Location} : expect kind what ts = .ok (l, rest) ↔ ts = ⟨kind, l⟩ :: rest := by
  constructor
  · intro h
    cases ts with
    | nil => cases h
    | cons t ts =>
      obtain ⟨kind', l'⟩ := t
      simp only [expect] at h
      split at h
      · rename_i hkind
        cases h
        rw [hkind]
      · cases h
  · rintro rfl
    exact expect_cons

lemma ensureHeight_eq_ok {blamed : List Token} {e e' : Expr} :
    ensureHeight blamed e = .ok e' ↔ e = e' ∧ e.height ≤ heightLimit := by
  unfold ensureHeight
  split
  · rename_i h
    simp [h]
  · rename_i h
    simp [h]

/-! ## Primary expressions and what is applied to them -/

lemma groupTail_some (inner : Level) (opening : Location) (ts : List Token) :
    groupTail (some inner) opening ts = (inner.expression.read ts).bind fun r =>
      (expect .closeParen .closeGroup r.2).map fun s =>
        (r.1.relocate (opening.cover s.1), s.2) := by
  cases h : inner.expression.read ts <;> simp only [groupTail, h, Except.bind]

lemma applied_read (inner? : Option Level) (ts : List Token) :
    (applied inner?).read ts =
      ((primary inner?).read ts).bind fun r => applications inner? r.1 r.2 := by
  cases h : (primary inner?).read ts <;> simp only [applied, h, Except.bind]

lemma callTail_some (inner : Level) (callee : Expr) (opening ts : List Token) :
    callTail (some inner) callee opening ts = (arguments inner.expression ts).bind fun r =>
      (expect .closeParen .closeArguments r.2).bind fun s =>
        (ensureHeight opening (ofCall callee r.1 s.1)).map (·, s.2) := by
  cases h : arguments inner.expression ts with
  | error f => simp only [callTail, h, Except.bind]
  | ok r =>
    cases hclose : expect .closeParen .closeArguments r.2 <;>
      simp only [callTail, h, hclose, Except.bind]

lemma applications_openParen (inner? : Option Level) (e : Expr) (l : Location)
    (rest : List Token) :
    applications inner? e (⟨.openParen, l⟩ :: rest) =
      (callTail inner? e (⟨.openParen, l⟩ :: rest) rest).bind fun r =>
        applications inner? r.1 r.2 := by
  rw [applications]
  cases callTail inner? e (⟨.openParen, l⟩ :: rest) rest <;> rfl

lemma applications_dot (inner? : Option Level) (e : Expr) (l : Location) (rest : List Token) :
    applications inner? e (⟨.dot, l⟩ :: rest) =
      (memberTail e rest).bind fun r => applications inner? r.1 r.2 := by
  rw [applications]
  cases memberTail e rest <;> rfl

lemma applications_of_ends {inner? : Option Level} {e : Expr} {rest : List Token}
    (h : Ends .applied rest) : applications inner? e rest = .ok (e, rest) := by
  cases rest with
  | nil => rw [applications]
  | cons t rest =>
    rw [ends_cons] at h
    rw [applications]
    split
    · rename_i hkind
      simp [Category.continues, applies, hkind] at h
    · rename_i hkind
      simp [Category.continues, applies, hkind] at h
    · rfl

/-! ## Arguments -/

lemma arguments_closeParen (argument : ExprReader) (l : Location) (rest : List Token) :
    arguments argument (⟨.closeParen, l⟩ :: rest) = .ok ([], ⟨.closeParen, l⟩ :: rest) := rfl

lemma arguments_of_ne (argument : ExprReader) {ts : List Token}
    (h : ts.head?.map Token.kind ≠ some .closeParen) :
    arguments argument ts = (argument.read ts).bind fun r =>
      (moreArguments argument r.2).map fun s => (r.1 :: s.1, s.2) := by
  unfold arguments
  rw [if_neg h]
  cases argument.read ts <;> rfl

lemma moreArguments_comma (argument : ExprReader) (l : Location) (rest : List Token) :
    moreArguments argument (⟨.comma, l⟩ :: rest) = (argument.read rest).bind fun r =>
      (moreArguments argument r.2).map fun s => (r.1 :: s.1, s.2) := by
  rw [moreArguments]
  cases argument.read rest <;> rfl

lemma moreArguments_of_ne {argument : ExprReader} {ts : List Token}
    (h : ts.head?.map Token.kind ≠ some .comma) : moreArguments argument ts = .ok ([], ts) := by
  cases ts with
  | nil => rw [moreArguments]
  | cons t ts =>
    rw [moreArguments]
    split
    · rename_i hkind
      exact absurd (congrArg some hkind) h
    · rfl

lemma moreArguments_closeParen (argument : ExprReader) (l : Location) (rest : List Token) :
    moreArguments argument (⟨.closeParen, l⟩ :: rest) = .ok ([], ⟨.closeParen, l⟩ :: rest) := by
  rw [moreArguments]

/-! ## Signs -/

lemma applySign_eq (sign : Sign) (place : Location) (blamed : List Token) (operand : Expr) :
    applySign sign place blamed operand = ensureHeight blamed (signed sign place operand) := by
  fun_cases applySign sign place blamed operand with
  | case1 => rfl
  | case2 => simp_all [Expr.signed]

lemma unaryTail_some (inner : Level) (sign : Sign) (place : Location) (blamed ts : List Token) :
    unaryTail (some inner) sign place blamed ts = (inner.unary.read ts).bind fun r =>
      (ensureHeight blamed (signed sign place r.1)).map (·, r.2) := by
  cases h : inner.unary.read ts <;> simp only [unaryTail, h, applySign_eq, Except.bind]

lemma unary_sign {inner? : Option Level} {sign : Sign} {l : Location} {rest : List Token}
    (h : sign ∈ leadingSigns) : (unary inner?).read (⟨.operator sign, l⟩ :: rest) =
      unaryTail inner? sign l (⟨.operator sign, l⟩ :: rest) rest :=
  if_pos (unarySigns_eq ▸ h)

lemma unary_of_notMem {inner? : Option Level} {sign : Sign} {l : Location} {rest : List Token}
    (h : sign ∉ leadingSigns) : (unary inner?).read (⟨.operator sign, l⟩ :: rest) =
      (applied inner?).read (⟨.operator sign, l⟩ :: rest) :=
  if_neg (unarySigns_eq ▸ h)

lemma leftAssoc_read (signs : List Sign) (operand : ExprReader) (ts : List Token) :
    (leftAssoc signs operand).read ts =
      (operand.read ts).bind fun r => chain signs operand r.1 r.2 := by
  cases h : operand.read ts <;> simp only [leftAssoc, h, Except.bind]

lemma chain_operator {signs : List Sign} {operand : ExprReader} {left : Expr} {sign : Sign}
    {l : Location} {rest : List Token} (h : sign ∈ signs) :
    chain signs operand left (⟨.operator sign, l⟩ :: rest) = (operand.read rest).bind fun r =>
      (ensureHeight (⟨.operator sign, l⟩ :: rest) (ofBinary sign left r.1)).bind fun e =>
        chain signs operand e r.2 := by
  rw [chain]
  simp only [if_pos h]
  cases operand.read rest with
  | error f => rfl
  | ok r =>
    cases h : ensureHeight (⟨.operator sign, l⟩ :: rest) (ofBinary sign left r.1) <;>
      simp only [h, Except.bind]

lemma chain_of_ne {signs : List Sign} {operand : ExprReader} {left : Expr} {ts : List Token}
    (h : ∀ sign ∈ signs, ts.head?.map Token.kind ≠ some (.operator sign)) :
    chain signs operand left ts = .ok (left, ts) := by
  cases ts with
  | nil => rw [chain]
  | cons t ts =>
    rw [chain]
    split
    · rename_i sign hkind
      exact if_neg fun hmem => h sign hmem (congrArg some hkind)
    · rfl

lemma chain_of_ends {signs : List Sign} {tighter : List (List Sign)} {operand : ExprReader}
    {e : Expr} {rest : List Token} (h : Ends (.binary (signs :: tighter)) rest) :
    chain signs operand e rest = .ok (e, rest) := by
  cases rest with
  | nil => rw [chain]
  | cons t rest =>
    rw [ends_cons] at h
    rw [chain]
    split
    · rename_i sign hkind
      have hmem : sign ∉ signs := by
        intro hmem
        simp [Category.continues, joins, hkind, hmem] at h
      rw [if_neg hmem]
    · rfl

/-! ## Choices -/

lemma expression_read (inner? : Option Level) (operand : ExprReader) (ts : List Token) :
    (expression inner? operand).read ts =
      ((binaryLevels.foldr leftAssoc operand).read ts).bind fun r => choice inner? r.1 r.2 := by
  rw [← precedence_eq]
  show _ = ((binary operand).read ts).bind _
  cases h : (binary operand).read ts <;> simp only [expression, h, Except.bind]

lemma choiceTail_some (inner : Level) (test : Expr) (blamed ts : List Token) :
    choiceTail (some inner) test blamed ts = (inner.expression.read ts).bind fun r =>
      (expect .colon .colon r.2).bind fun s => (inner.expression.read s.2).bind fun u =>
        (ensureHeight blamed (ofConditional test r.1 u.1)).map (·, u.2) := by
  cases hyes : inner.expression.read ts with
  | error f => simp only [choiceTail, hyes, Except.bind]
  | ok r =>
    cases hcolon : expect .colon .colon r.2 with
    | error f => simp only [choiceTail, hyes, hcolon, Except.bind]
    | ok s =>
      cases hno : inner.expression.read s.2 <;>
        simp only [choiceTail, hyes, hcolon, hno, Except.bind]

lemma choice_question (inner? : Option Level) (test : Expr) (l : Location)
    (rest : List Token) :
    choice inner? test (⟨.question, l⟩ :: rest) =
      choiceTail inner? test (⟨.question, l⟩ :: rest) rest := rfl

lemma choice_of_ne {inner? : Option Level} {test : Expr} {ts : List Token}
    (h : ts.head?.map Token.kind ≠ some .question) : choice inner? test ts = .ok (test, ts) := by
  cases ts with
  | nil => rfl
  | cons t ts =>
    rw [choice]
    split
    · rename_i hkind
      exact absurd (congrArg some hkind) h
    · rfl

lemma choice_of_ends {inner? : Option Level} {test : Expr} {rest : List Token}
    (h : Ends .choice rest) : choice inner? test rest = .ok (test, rest) := by
  cases rest with
  | nil => rfl
  | cons t rest =>
    rw [ends_cons] at h
    simp only [choice]
    split
    · rename_i hkind
      simp [Category.continues, hkind] at h
    · rfl

/-! ## Statements -/

lemma statementsFrom_semicolon {expression : ExprReader} {t : Token} (rest : List Token)
    (hkind : t.kind = .semicolon) :
    statementsFrom expression (t :: rest) = statementsFrom expression rest := by
  rw [statementsFrom, if_pos hkind]

lemma statementsFrom_eq {expression : ExprReader} {t : Token} (rest : List Token)
    (hkind : t.kind ≠ .semicolon) :
    statementsFrom expression (t :: rest) = (expression.read (t :: rest)).bind fun r =>
      match r.2 with
      | [] => .ok [r.1]
      | next :: more =>
        if separates r.1 next then (statementsFrom expression (next :: more)).map (r.1 :: ·)
        else .error ⟨.unexpected, next :: more⟩ := by
  rw [statementsFrom, if_neg hkind]
  split <;> simp_all [Except.bind]

end FormulaTree.Grammar
