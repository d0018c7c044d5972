import FormulaTree.Proofs.Grammar.Height

/-!
# Where reading tokens fails

A reader that fails blames one of the tokens it was given, or the end of the formula: what it
reports as the rest of the tokens is the rest of those it was given (`Blames`).  Readers that are
run one after another keep to this, and so do the readers of a level if those of the level below do.
So the place of a syntax error is that of a token, or the empty stretch after the last one.

If reading succeeds, every part of an expression is derived from tokens of its own that follow each
other in the formula (`Derives.of_holds`), and so stands between the edges of tokens.
-/

namespace FormulaTree.Grammar

open Token (Ordered)

/-! ## Attempts that blame their input -/

/-- If the attempt fails, the tokens from the one to blame on are the last of the given ones. -/
def Blames {α : Type} (ts : List Token) (x : Except Fault α) : Prop :=
  ∀ f, x = .error f → f.rest <:+ ts

namespace Blames

variable {α β : Type} {x : Except Fault α} {ts us : List Token}

lemma ok (a : α) (ts : List Token) : Blames ts (.ok a) := nofun

lemma error {f : Fault} (h : f.rest <:+ ts) : Blames ts (.error f : Except Fault α) := by
  rintro _ ⟨⟩
  exact h

lemma mono (h : Blames us x) (hsub : us <:+ ts) : Blames ts x :=
  fun f hf => (h f hf).trans hsub

lemma map (h : Blames ts x) (g : α → β) : Blames ts (x.map g) := by
  cases x with
  | error f => exact .error (h f rfl)
  | ok a => exact .ok (g a) ts

lemma bind {g : α → Except Fault β} (h : Blames ts x) (hg : ∀ a, x = .ok a → Blames ts (g a)) :
    Blames ts (x.bind g) := by
  cases x with
  | error f => exact .error (h f rfl)
  | ok a => exact hg a rfl

end Blames

/-- A reader that blames the tokens it is given. -/
def BlamesInput (r : ExprReader) : Prop := ∀ ts, Blames ts (r.read ts)

lemma ensureHeight_blames (blamed : List Token) (e : Expr) :
    Blames blamed (ensureHeight blamed e) := by
  unfold ensureHeight
  split_ifs
  · exact .ok e blamed
  · exact .error List.suffix_rfl

lemma expect_blames (kind : Token.Kind) (what : Expectation) (ts : List Token) :
    Blames ts (expect kind what ts) := by
  fun_cases expect kind what ts with
  | case2 => exact .ok _ _
  | case1 | case3 => exact .error List.suffix_rfl

/-! ## Binary signs -/

lemma chain_blames {operand : ExprReader} (hoperand : BlamesInput operand) (signs : List Sign)
    (left : Expr) (ts : List Token) : Blames ts (chain signs operand left ts) := by
  fun_induction chain signs operand left ts with
  | case1 | case5 | case6 => exact .ok _ _
  | case2 left t rest sign _ _ f hright =>
    exact .error ((hoperand rest f hright).trans (List.suffix_cons _ _))
  | case3 left t rest sign _ _ right rest' hright f hheight =>
    exact .error (ensureHeight_blames _ _ f hheight)
  | case4 left t rest sign _ _ right rest' hright e _ ih =>
    exact ih.mono ((operand.follows hright).suffix.trans (List.suffix_cons _ _))

lemma leftAssoc_blames (signs : List Sign) {operand : ExprReader}
    (hoperand : BlamesInput operand) : BlamesInput (leftAssoc signs operand) := by
  intro ts
  rw [leftAssoc_read]
  refine (hoperand ts).bind fun r hr => ?_
  exact (chain_blames hoperand signs r.1 r.2).mono (operand.follows hr).suffix

lemma binary_blames {operand : ExprReader} (hoperand : BlamesInput operand) :
    BlamesInput (binary operand) := by
  unfold binary
  induction precedence with
  | nil => exact hoperand
  | cons signs tighter ih => exact leftAssoc_blames signs ih

/-! ## Arguments -/

section Arguments

variable {argument : ExprReader} (hargument : BlamesInput argument)

include hargument

lemma moreArguments_blames (ts : List Token) : Blames ts (moreArguments argument ts) := by
  fun_induction moreArguments argument ts with
  | case1 | case4 => exact .ok _ _
  | case2 t rest _ f hfirst =>
    exact .error ((hargument rest f hfirst).trans (List.suffix_cons _ _))
  | case3 t rest _ e rest' hfirst ih =>
    exact (ih.map _).mono ((argument.follows hfirst).suffix.trans (List.suffix_cons _ _))

lemma arguments_blames (ts : List Token) : Blames ts (arguments argument ts) := by
  by_cases hclose : ts.head?.map Token.kind = some .closeParen
  · rw [arguments, if_pos hclose]
    exact .ok _ ts
  · rw [arguments_of_ne argument hclose]
    refine (hargument ts).bind fun r hr => ?_
    exact ((moreArguments_blames hargument r.2).map _).mono (argument.follows hr).suffix

end Arguments

/-! ## The readers of a level -/

/-- Both readers of a level blame the tokens they are given. -/
structure Level.IsFair (level : Level) : Prop where
  expression : BlamesInput level.expression
  unary : BlamesInput level.unary

section Level

variable {inner? : Option Level} (hinner : ∀ inner ∈ inner?, inner.IsFair)

include hinner

lemma callTail_blames (callee : Expr) {opening ts : List Token} (hts : ts <:+ opening) :
    Blames opening (callTail inner? callee opening ts) := by
  cases inner? with
  | none => exact .error hts
  | some inner =>
    rw [callTail_some]
    refine ((arguments_blames (hinner inner rfl).expression ts).mono hts).bind fun r hr => ?_
    have hrest := (arguments_suffix hr).trans hts
    refine ((expect_blames _ _ r.2).mono hrest).bind fun s hs => ?_
    exact (ensureHeight_blames opening _).map _

omit hinner in
lemma memberTail_blames (object : Expr) (ts : List Token) : Blames ts (memberTail object ts) := by
  fun_cases memberTail object ts with
  | case2 => exact (ensureHeight_blames _ _).map _
  | case1 | case3 => exact .error List.suffix_rfl

lemma applications_blames (e : Expr) (ts : List Token) :
    Blames ts (applications inner? e ts) := by
  fun_induction applications inner? e ts with
  | case1 | case6 => exact .ok _ _
  | case2 e t rest _ f hcall =>
    exact .error (callTail_blames hinner e (List.suffix_cons t rest) f hcall)
  | case3 e t rest _ call rest' hcall ih =>
    exact ih.mono ((callTail_follows hcall).suffix.trans (List.suffix_cons _ _))
  | case4 e t rest _ f hmember =>
    exact .error ((memberTail_blames e rest f hmember).trans (List.suffix_cons _ _))
  | case5 e t rest _ access rest' hmember ih =>
    exact ih.mono ((memberTail_follows hmember).suffix.trans (List.suffix_cons _ _))

lemma groupTail_blames (opening : Location) (ts : List Token) :
    Blames ts (groupTail inner? opening ts) := by
  cases inner? with
  | none => exact .error List.suffix_rfl
  | some inner =>
    rw [groupTail_some]
    refine ((hinner inner rfl).expression ts).bind fun r hr => ?_
    exact ((expect_blames _ _ r.2).map _).mono (inner.expression.follows hr).suffix

lemma primary_blames : BlamesInput (primary inner?) := by
  intro ts
  cases ts with
  | nil => exact .error List.suffix_rfl
  | cons t rest =>
    simp only [primary]
    split
    case h_6 => exact (groupTail_blames hinner _ rest).mono (List.suffix_cons _ _)
    case h_7 => exact .error List.suffix_rfl
    all_goals exact .ok _ _

lemma applied_blames : BlamesInput (applied inner?) := by
  intro ts
  rw [applied_read]
  refine (primary_blames hinner ts).bind fun r hr => ?_
  exact (applications_blames hinner r.1 r.2).mono ((primary inner?).follows hr).suffix

lemma unaryTail_blames (sign : Sign) (place : Location) {blamed ts : List Token}
    (hts : ts <:+ blamed) : Blames blamed (unaryTail inner? sign place blamed ts) := by
  cases inner? with
  | none => exact .error hts
  | some inner =>
    rw [unaryTail_some]
    refine (((hinner inner rfl).unary ts).mono hts).bind fun r _ => ?_
    exact (ensureHeight_blames blamed _).map _

lemma unary_blames : BlamesInput (unary inner?) := by
  intro ts
  cases ts with
  | nil => exact applied_blames hinner []
  | cons t rest =>
    simp only [unary]
    split
    · split_ifs
      · exact unaryTail_blames hinner _ _ (List.suffix_cons _ _)
      · exact applied_blames hinner (t :: rest)
    · exact applied_blames hinner (t :: rest)

lemma choiceTail_blames (test : Expr) {blamed ts : List Token} (hts : ts <:+ blamed) :
    Blames blamed (choiceTail inner? test blamed ts) := by
  cases inner? with
  | none => exact .error hts
  | some inner =>
    rw [choiceTail_some]
    refine (((hinner inner rfl).expression ts).mono hts).bind fun r hr => ?_
    have hcolon := (inner.expression.follows hr).suffix.trans hts
    refine ((expect_blames _ _ r.2).mono hcolon).bind fun s hs => ?_
    have halternate := (expect_follows hs).suffix.trans hcolon
    refine (((hinner inner rfl).expression s.2).mono halternate).bind fun u _ => ?_
    exact (ensureHeight_blames blamed _).map _

lemma choice_blames (test : Expr) (ts : List Token) : Blames ts (choice inner? test ts) := by
  fun_cases choice inner? test ts with
  | case1 | case3 => exact .ok _ _
  | case2 => exact choiceTail_blames hinner test (List.suffix_cons _ _)

lemma expression_blames {operand : ExprReader} (hoperand : BlamesInput operand) :
    BlamesInput (expression inner? operand) := by
  intro ts
  rw [expression_read]
  refine (binary_blames hoperand ts).bind fun r hr => ?_
  exact (choice_blames hinner r.1 r.2).mono ((binary operand).follows hr).suffix

lemma level_isFair : (level inner?).IsFair :=
  ⟨expression_blames hinner (unary_blames hinner), unary_blames hinner⟩

end Level

lemma levels_isFair (m : Nat) : (levels m).IsFair := by
  induction m with
  | zero => exact level_isFair nofun
  | succ m ih =>
    refine level_isFair fun inner hinner => ?_
    obtain rfl := Option.some.inj hinner
    exact ih

/-! ## Statements -/

lemma statementsFrom_blames {expression : ExprReader} (h : BlamesInput expression)
    (ts : List Token) : Blames ts (statementsFrom expression ts) := by
  fun_induction statementsFrom expression ts with
  | case1 | case4 => exact .ok _ _
  | case2 t rest _ ih => exact ih.mono (List.suffix_cons _ _)
  | case3 t rest _ f hfirst => exact .error (h _ f hfirst)
  | case5 t rest _ e next more hfirst _ ih =>
    exact (ih.map _).mono (expression.follows hfirst).suffix
  | case6 t rest _ e next more hfirst =>
    exact .error (expression.follows hfirst).suffix

/-- A syntax error is at a token or after the last one. -/
lemma location_of_statements {ts : List Token} {e : SyntaxError} (h : statements ts = .error e) :
    (∃ t ∈ ts, e.location = t.location) ∨ e.location = SyntaxError.endOf ts := by
  have hlocate {f : Fault} (hrest : f.rest <:+ ts) :
      (∃ t ∈ ts, (SyntaxError.locate ts f).location = t.location) ∨
        (SyntaxError.locate ts f).location = SyntaxError.endOf ts := by
    obtain ⟨cause, rest⟩ := f
    cases rest with
    | nil => exact .inr rfl
    | cons t rest => exact .inl ⟨t, hrest.subset (List.mem_cons_self ..), rfl⟩
  unfold statements at h
  split at h
  · rename_i f hstatements
    cases h
    exact hlocate (statementsFrom_blames (levels_isFair nestingLimit).expression ts f hstatements)
  · cases h
    exact hlocate List.nil_suffix
  · cases h

/-! ## The tokens of the parts of an expression -/

/-- The expression is derived from tokens that follow each other in the list. -/
def DerivedWithin (ts : List Token) (x : Expr) : Prop :=
  ∃ c n us, us <:+: ts ∧ Derives c n us x

lemma DerivedWithin.mono {ts us : List Token} {x : Expr} (h : DerivedWithin us x)
    (hsub : us <:+: ts) : DerivedWithin ts x := by
  obtain ⟨c, n, vs, hvs, hderives⟩ := h
  exact ⟨c, n, vs, hvs.trans hsub, hderives⟩

lemma Derives.within {c : Category} {n : Nat} {ts us : List Token} {x : Expr}
    (h : Derives c n us x) (hsub : us <:+: ts) : DerivedWithin ts x :=
  ⟨c, n, us, hsub, h⟩

lemma infix_append_cons (ts : List Token) (t : Token) (us : List Token) : us <:+: ts ++ t :: us :=
  ((List.suffix_cons t us).trans (List.suffix_append ts (t :: us))).isInfix

mutual

/-- Each child of an expression is derived from some of its tokens. -/
lemma Derives.child {c : Category} {n : Nat} {ts : List Token} {e x : Expr} :
    Derives c n ts e → x ∈ e.children → DerivedWithin ts x
  | .number, h | .text, h | .boolean, h | .identifier, h | .field, h => absurd h List.not_mem_nil
  | .group inside, h => by
    rw [Expr.children_relocate] at h
    refine (inside.child h).mono ?_
    exact (List.prefix_append _ _).isInfix.trans (List.suffix_cons _ _).isInfix
  | .call applied inside, h => by
    rcases List.mem_cons.1 h with rfl | h
    · exact applied.within (List.prefix_append _ _).isInfix
    · refine (inside.derivedWithin h).mono ?_
      exact (List.prefix_append _ _).isInfix.trans (infix_append_cons _ _ _)
  | .member applied, h => by
    rw [List.mem_singleton.1 h]
    exact applied.within (List.prefix_append _ _).isInfix
  | .signed _ inside, h => by
    unfold Expr.signed at h
    split at h
    · exact absurd h List.not_mem_nil
    · rw [List.mem_singleton.1 h]
      exact inside.within (List.suffix_cons _ _).isInfix
  | .chain first _ second, h => by
    rcases List.mem_cons.1 h with rfl | h
    · exact first.within (List.prefix_append _ _).isInfix
    · rw [List.mem_singleton.1 h]
      exact second.within (infix_append_cons _ _ _)
  | .choice condition yes no, h => by
    rcases List.mem_cons.1 h with rfl | h
    · exact condition.within (List.prefix_append _ _).isInfix
    · rcases List.mem_cons.1 h with rfl | h
      · exact yes.within ((List.prefix_append _ _).isInfix.trans (infix_append_cons _ _ _))
      · rw [List.mem_singleton.1 h]
        exact no.within ((infix_append_cons _ _ _).trans (infix_append_cons _ _ _))
  | .primary alone, h | .applied alone, h | .operand alone, h | .level alone, h | .test alone, h =>
    alone.child h

lemma DerivesArguments.derivedWithin {n : Nat} {ts : List Token} {es : List Expr} {x : Expr} :
    DerivesArguments n ts es → x ∈ es → DerivedWithin ts x
  | .none, h => absurd h List.not_mem_nil
  | .some first others, h => by
    rcases List.mem_cons.1 h with rfl | h
    · exact first.within (List.prefix_append _ _).isInfix
    · exact (others.derivedWithin h).mono (List.suffix_append _ _).isInfix

lemma DerivesMore.derivedWithin {n : Nat} {ts : List Token} {es : List Expr} {x : Expr} :
    DerivesMore n ts es → x ∈ es → DerivedWithin ts x
  | .none, h => absurd h List.not_mem_nil
  | .some first others, h => by
    rcases List.mem_cons.1 h with rfl | h
    · exact first.within ((List.prefix_append _ _).isInfix.trans (List.suffix_cons _ _).isInfix)
    · refine (others.derivedWithin h).mono ?_
      exact ((List.suffix_append _ _).trans (List.suffix_cons _ _)).isInfix

end

/-- Each part of an expression, at whatever depth, is derived from some of its tokens. -/
theorem Derives.of_holds {c : Category} {n : Nat} {ts : List Token} {e x : Expr}
    (h : Derives c n ts e) (hx : e.Holds x) : DerivedWithin ts x := by
  induction hx generalizing c n ts with
  | self e => exact h.within List.infix_rfl
  | child hmem _ ih =>
    obtain ⟨d, k, us, hsub, hderives⟩ := h.child hmem
    exact (ih hderives).mono hsub

/-- Each part of the expressions of a formula stands between the edges of tokens. -/
lemma statements_restsOn {ts : List Token} {es : List Expr} (h : statements ts = .ok es)
    (hordered : Ordered ts) {e x : Expr} (he : e ∈ es) (hx : e.Holds x) :
    x.location.RestsOn ts ∧ x.location.IsProper := by
  obtain ⟨n, taken, hsub, hderives, -, -⟩ := statements_derives h e he
  obtain ⟨c, k, us, hus, hpart⟩ := hderives.of_holds hx
  have hsub' : us.Sublist ts := hus.sublist.trans hsub
  have hstands := hpart.stands (hordered.sublist hsub')
  exact ⟨hstands.spans.toRestsOn.mono hsub'.subset, hstands.placed.isProper⟩

end FormulaTree.Grammar
