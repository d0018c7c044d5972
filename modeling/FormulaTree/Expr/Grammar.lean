import FormulaTree.Expr.Basic
import FormulaTree.Expr.SyntaxError
import FormulaTree.Reader

/-!
# From tokens to expressions

The grammar, from the loosest construct to the tightest:

* a choice `test ? consequent : alternate`, whose branches are again choices;
* eight levels of binary signs, each grouping to the left (`precedence`);
* a sign before its operand, where a minus sign before a number is part of the number;
* calls and member accesses, one after another;
* literals, names, and expressions in parentheses.

## Nesting

Every construct that encloses another one goes down a level, and a formula may go down
`nestingLimit` levels.  A `Level` holds the readers of one level; `level` builds them from the
readers of the level below, if there is one, so the readers of a formula arise from
`nestingLimit` steps and no reader calls itself.  What remains are loops along the tokens of one
level.  They end because each round takes a token.

## Statements

`Grammar.statements` reads a whole formula.  It may hold several expressions: they are separated by
semicolons, or by a line break where the next token cannot continue the expression before it.
-/

namespace FormulaTree.Grammar

open FormulaTree.Expr (ofBinary ofCall ofConditional ofMember ofUnary)

/-- A reader of expressions. -/
abbrev ExprReader := Reader Token Fault Expr

/-- The readers of one level of nesting. -/
structure Level where
  expression : ExprReader
  unary : ExprReader

/-- Accepts an expression unless it is too tall; then the tokens `blamed` are at fault. -/
def ensureHeight (blamed : List Token) (e : Expr) : Except Fault Expr :=
  if e.height ≤ heightLimit then .ok e else .error ⟨.height, blamed⟩

/-- Takes a token of a given kind and gives its location. -/
def expect (kind : Token.Kind) (what : Expectation) :
    List Token → Except Fault (Location × List Token)
  | [] => .error ⟨.expected what, []⟩
  | t :: rest =>
    if t.kind = kind then .ok (t.location, rest) else .error ⟨.expected what, t :: rest⟩

theorem expect_follows {kind : Token.Kind} {what : Expectation} {ts rest : List Token}
    {l : Location} (h : expect kind what ts = .ok (l, rest)) : Follows rest ts := by
  cases ts with
  | nil => simp [expect] at h
  | cons t ts =>
    simp only [expect] at h
    split at h
    · cases h
      exact .tail t _
    · cases h

/-! ## Binary signs -/

/-- The binary signs, level by level, the loosest first. -/
def precedence : List (List Sign) :=
  [[.doubleBar],
   [.doubleAmpersand],
   [.bar],
   [.ampersand],
   [.equal, .notEqual, .strictEqual, .strictNotEqual],
   [.less, .lessOrEqual, .greater, .greaterOrEqual],
   [.plus, .minus],
   [.star, .slash, .percent]]

/-- Goes on from a left operand as long as one of the signs comes next. -/
def chain (signs : List Sign) (operand : ExprReader) (left : Expr) :
    List Token → Except Fault (Expr × List Token)
  | [] => .ok (left, [])
  | t :: rest =>
    match t.kind with
    | .operator sign =>
      if sign ∈ signs then
        match _right : operand.read rest with
        | .error f => .error f
        | .ok (right, rest') =>
          match ensureHeight (t :: rest) (ofBinary sign left right) with
          | .error f => .error f
          | .ok e => chain signs operand e rest'
      else .ok (left, t :: rest)
    | _ => .ok (left, t :: rest)
termination_by ts => ts.length
decreasing_by
  have := (operand.follows _right).length_lt
  simp only [List.length_cons]
  omega

theorem chain_suffix {signs : List Sign} {operand : ExprReader} {left e : Expr}
    {ts rest : List Token} (h : chain signs operand left ts = .ok (e, rest)) : rest <:+ ts := by
  fun_induction chain signs operand left ts with
  | case1 => cases h; exact List.suffix_rfl
  | case2 | case3 => cases h
  | case4 _ t _ sign _ _ right rest' hright e _ ih =>
    exact (ih h).trans ((operand.follows hright).suffix.trans (List.suffix_cons _ _))
  | case5 | case6 => cases h; exact List.suffix_rfl

/-- A level of binary signs: operands with one of the signs between them, grouped to the
left. -/
def leftAssoc (signs : List Sign) (operand : ExprReader) : ExprReader where
  read ts :=
    match operand.read ts with
    | .error f => .error f
    | .ok (left, rest) => chain signs operand left rest
  follows := by
    intro ts e rest h
    split at h
    · cases h
    · rename_i left rest' hleft
      exact .trans_suffix (chain_suffix h) (operand.follows hleft)

/-- All levels of binary signs over the tightest operand. -/
def binary (operand : ExprReader) : ExprReader := precedence.foldr leftAssoc operand

/-! ## Arguments -/

/-- Reads further arguments as long as a comma comes next. -/
def moreArguments (argument : ExprReader) : List Token → Except Fault (List Expr × List Token)
  | [] => .ok ([], [])
  | t :: rest =>
    match t.kind with
    | .comma =>
      match _first : argument.read rest with
      | .error f => .error f
      | .ok (e, rest') => (moreArguments argument rest').map fun r => (e :: r.1, r.2)
    | _ => .ok ([], t :: rest)
termination_by ts => ts.length
decreasing_by
  have := (argument.follows _first).length_lt
  simp only [List.length_cons]
  omega

theorem moreArguments_suffix {argument : ExprReader} {es : List Expr} {ts rest : List Token}
    (h : moreArguments argument ts = .ok (es, rest)) : rest <:+ ts := by
  fun_induction moreArguments argument ts generalizing es with
  | case1 => cases h; exact List.suffix_rfl
  | case2 => cases h
  | case3 t _ _ e rest' hfirst ih =>
    obtain ⟨⟨es', rest''⟩, hmore, heq⟩ := map_eq_ok.1 h
    cases heq
    exact (ih hmore).trans ((argument.follows hfirst).suffix.trans (List.suffix_cons _ _))
  | case4 => cases h; exact List.suffix_rfl

/-- Reads the arguments of a call, up to the parenthesis that closes it. -/
def arguments (argument : ExprReader) (ts : List Token) :
    Except Fault (List Expr × List Token) :=
  if (ts.head?.map Token.kind) = some .closeParen then .ok ([], ts)
  else
    match argument.read ts with
    | .error f => .error f
    | .ok (e, rest) => (moreArguments argument rest).map fun r => (e :: r.1, r.2)

theorem arguments_suffix {argument : ExprReader} {es : List Expr} {ts rest : List Token}
    (h : arguments argument ts = .ok (es, rest)) : rest <:+ ts := by
  unfold arguments at h
  split at h
  · cases h
    exact List.suffix_rfl
  · split at h
    · cases h
    · rename_i e rest' hfirst
      obtain ⟨⟨es', rest''⟩, hmore, heq⟩ := map_eq_ok.1 h
      cases heq
      exact (moreArguments_suffix hmore).trans (argument.follows hfirst).suffix

/-! ## Calls, members, and what they are applied to -/

/-- Reads the inside of a call, after its opening parenthesis. -/
def callTail (inner? : Option Level) (callee : Expr) (opening : List Token) (ts : List Token) :
    Except Fault (Expr × List Token) :=
  match inner? with
  | none => .error ⟨.nesting, ts⟩
  | some inner =>
    match arguments inner.expression ts with
    | .error f => .error f
    | .ok (args, rest) =>
      match expect .closeParen .closeArguments rest with
      | .error f => .error f
      | .ok (close, rest') => (ensureHeight opening (ofCall callee args close)).map (·, rest')

theorem callTail_follows {inner? : Option Level} {callee e : Expr} {opening ts rest : List Token}
    (h : callTail inner? callee opening ts = .ok (e, rest)) : Follows rest ts := by
  unfold callTail at h
  split at h
  · cases h
  · split at h
    · cases h
    · rename_i args rest' hargs
      split at h
      · cases h
      · rename_i close rest'' hclose
        obtain ⟨_, _, heq⟩ := map_eq_ok.1 h
        cases heq
        exact .suffix_trans (expect_follows hclose) (arguments_suffix hargs)

/-- Reads the property of a member access, after the point. -/
def memberTail (object : Expr) : List Token → Except Fault (Expr × List Token)
  | [] => .error ⟨.expected .property, []⟩
  | t :: rest =>
    match t.kind with
    | .identifier name =>
      (ensureHeight (t :: rest) (ofMember object name t.location)).map (·, rest)
    | _ => .error ⟨.expected .property, t :: rest⟩

theorem memberTail_follows {object e : Expr} {ts rest : List Token}
    (h : memberTail object ts = .ok (e, rest)) : Follows rest ts := by
  fun_cases memberTail object ts with
  | case1 => simp [memberTail] at h
  | case2 t rest' name kind =>
    simp only [memberTail, kind] at h
    obtain ⟨_, _, heq⟩ := map_eq_ok.1 h
    cases heq
    exact .tail t _
  | case3 t rest' kind =>
    unfold memberTail at h
    split at h
    · rename_i name hkind
      exact absurd hkind (kind name)
    · cases h

/-- Goes on from an expression as long as a call or a member access comes next. -/
def applications (inner? : Option Level) (e : Expr) :
    List Token → Except Fault (Expr × List Token)
  | [] => .ok (e, [])
  | t :: rest =>
    match t.kind with
    | .openParen =>
      match _call : callTail inner? e (t :: rest) rest with
      | .error f => .error f
      | .ok (call, rest') => applications inner? call rest'
    | .dot =>
      match _member : memberTail e rest with
      | .error f => .error f
      | .ok (access, rest') => applications inner? access rest'
    | _ => .ok (e, t :: rest)
termination_by ts => ts.length
decreasing_by
  · have := (callTail_follows _call).length_lt
    simp only [List.length_cons]
    omega
  · have := (memberTail_follows _member).length_lt
    simp only [List.length_cons]
    omega

theorem applications_suffix {inner? : Option Level} {e e' : Expr} {ts rest : List Token}
    (h : applications inner? e ts = .ok (e', rest)) : rest <:+ ts := by
  fun_induction applications inner? e ts with
  | case1 => cases h; exact List.suffix_rfl
  | case2 | case4 => cases h
  | case3 _ t _ _ call rest' hcall ih =>
    exact (ih h).trans ((callTail_follows hcall).suffix.trans (List.suffix_cons _ _))
  | case5 _ t _ _ access rest' hmember ih =>
    exact (ih h).trans ((memberTail_follows hmember).suffix.trans (List.suffix_cons _ _))
  | case6 => cases h; exact List.suffix_rfl

/-- Reads the inside of a parenthesis, after its opening. -/
def groupTail (inner? : Option Level) (opening : Location) (ts : List Token) :
    Except Fault (Expr × List Token) :=
  match inner? with
  | none => .error ⟨.nesting, ts⟩
  | some inner =>
    match inner.expression.read ts with
    | .error f => .error f
    | .ok (e, rest) =>
      (expect .closeParen .closeGroup rest).map fun r => (e.relocate (opening.cover r.1), r.2)

theorem groupTail_follows {inner? : Option Level} {opening : Location} {e : Expr}
    {ts rest : List Token} (h : groupTail inner? opening ts = .ok (e, rest)) :
    Follows rest ts := by
  unfold groupTail at h
  split at h
  · cases h
  · rename_i inner
    split at h
    · cases h
    · rename_i e' rest' hinside
      obtain ⟨⟨close, rest''⟩, hclose, heq⟩ := map_eq_ok.1 h
      cases heq
      exact .suffix_trans (expect_follows hclose) (inner.expression.follows hinside).suffix

/-- A literal, a name, or an expression in parentheses. -/
def primary (inner? : Option Level) : ExprReader where
  read
    | [] => .error ⟨.unexpected, []⟩
    | t :: rest =>
      match t.kind with
      | .number n => .ok (.number n t.location, rest)
      | .text s => .ok (.text s t.location, rest)
      | .boolean b => .ok (.boolean b t.location, rest)
      | .identifier name => .ok (.identifier name t.location, rest)
      | .field name => .ok (.identifier name t.location, rest)
      | .openParen => groupTail inner? t.location rest
      | _ => .error ⟨.unexpected, t :: rest⟩
  follows := by
    intro ts e rest h
    cases ts with
    | nil => cases h
    | cons t ts =>
      dsimp only at h
      split at h
      case h_6 => exact .cons t (groupTail_follows h).suffix
      all_goals cases h
      all_goals exact .tail t _

/-- A primary expression with the calls and member accesses applied to it. -/
def applied (inner? : Option Level) : ExprReader where
  read ts :=
    match (primary inner?).read ts with
    | .error f => .error f
    | .ok (e, rest) => applications inner? e rest
  follows := by
    intro ts e rest h
    split at h
    · cases h
    · rename_i e' rest' hprimary
      exact .trans_suffix (applications_suffix h) ((primary inner?).follows hprimary)

/-! ## Signs before an operand -/

/-- The signs that may stand before their operand. -/
def unarySigns : List Sign := [.minus, .plus, .bang]

/-- Applies a sign at a place to the operand after it.  A minus sign makes a number negative. -/
def applySign (sign : Sign) (place : Location) (blamed : List Token) (operand : Expr) :
    Except Fault Expr :=
  match sign, operand with
  | .minus, .number n l => .ok (.number n.negate (place.cover l))
  | _, _ => ensureHeight blamed (ofUnary sign place operand)

/-- Reads the operand of a sign, after the sign. -/
def unaryTail (inner? : Option Level) (sign : Sign) (place : Location) (blamed : List Token)
    (ts : List Token) : Except Fault (Expr × List Token) :=
  match inner? with
  | none => .error ⟨.nesting, ts⟩
  | some inner =>
    match inner.unary.read ts with
    | .error f => .error f
    | .ok (operand, rest) => (applySign sign place blamed operand).map (·, rest)

theorem unaryTail_follows {inner? : Option Level} {sign : Sign} {place : Location} {e : Expr}
    {blamed ts rest : List Token} (h : unaryTail inner? sign place blamed ts = .ok (e, rest)) :
    Follows rest ts := by
  unfold unaryTail at h
  split at h
  · cases h
  · rename_i inner
    split at h
    · cases h
    · rename_i operand rest' hoperand
      obtain ⟨_, _, heq⟩ := map_eq_ok.1 h
      cases heq
      exact inner.unary.follows hoperand

/-- An operand with the signs before it. -/
def unary (inner? : Option Level) : ExprReader where
  read
    | [] => (applied inner?).read []
    | t :: rest =>
      match t.kind with
      | .operator sign =>
        if sign ∈ unarySigns then unaryTail inner? sign t.location (t :: rest) rest
        else (applied inner?).read (t :: rest)
      | _ => (applied inner?).read (t :: rest)
  follows := by
    intro ts e rest h
    cases ts with
    | nil => exact (applied inner?).follows h
    | cons t ts =>
      dsimp only at h
      split at h
      · split at h
        · exact .cons t (unaryTail_follows h).suffix
        · exact (applied inner?).follows h
      · exact (applied inner?).follows h

/-! ## Choices -/

/-- Reads the two branches of a choice, after the question mark. -/
def choiceTail (inner? : Option Level) (test : Expr) (blamed : List Token) (ts : List Token) :
    Except Fault (Expr × List Token) :=
  match inner? with
  | none => .error ⟨.nesting, ts⟩
  | some inner =>
    match inner.expression.read ts with
    | .error f => .error f
    | .ok (consequent, rest) =>
      match expect .colon .colon rest with
      | .error f => .error f
      | .ok (_, rest') =>
        match inner.expression.read rest' with
        | .error f => .error f
        | .ok (alternate, rest'') =>
          (ensureHeight blamed (ofConditional test consequent alternate)).map (·, rest'')

theorem choiceTail_follows {inner? : Option Level} {test e : Expr} {blamed ts rest : List Token}
    (h : choiceTail inner? test blamed ts = .ok (e, rest)) : Follows rest ts := by
  unfold choiceTail at h
  split at h
  · cases h
  · rename_i inner
    split at h
    · cases h
    · rename_i consequent rest' hconsequent
      split at h
      · cases h
      · rename_i _ rest'' hcolon
        split at h
        · cases h
        · rename_i alternate rest''' halternate
          obtain ⟨_, _, heq⟩ := map_eq_ok.1 h
          cases heq
          exact .suffix_trans (inner.expression.follows halternate)
            ((expect_follows hcolon).suffix.trans (inner.expression.follows hconsequent).suffix)

/-- Goes on from a test if a question mark comes next. -/
def choice (inner? : Option Level) (test : Expr) : List Token → Except Fault (Expr × List Token)
  | [] => .ok (test, [])
  | t :: rest =>
    match t.kind with
    | .question => choiceTail inner? test (t :: rest) rest
    | _ => .ok (test, t :: rest)

theorem choice_suffix {inner? : Option Level} {test e : Expr} {ts rest : List Token}
    (h : choice inner? test ts = .ok (e, rest)) : rest <:+ ts := by
  unfold choice at h
  split at h
  · cases h
    exact List.suffix_rfl
  · split at h
    · exact (choiceTail_follows h).suffix.trans (List.suffix_cons _ _)
    · cases h
      exact List.suffix_rfl

/-- A whole expression. -/
def expression (inner? : Option Level) (operand : ExprReader) : ExprReader where
  read ts :=
    match (binary operand).read ts with
    | .error f => .error f
    | .ok (test, rest) => choice inner? test rest
  follows := by
    intro ts e rest h
    split at h
    · cases h
    · rename_i test rest' htest
      exact .trans_suffix (choice_suffix h) ((binary operand).follows htest)

/-! ## Levels of nesting -/

/-- The readers of a level over those of the level below. -/
def level (inner? : Option Level) : Level :=
  ⟨expression inner? (unary inner?), unary inner?⟩

/-- The readers that may go down a given number of levels. -/
def levels : Nat → Level
  | 0 => level none
  | n + 1 => level (some (levels n))

/-- The reader of an expression that is not nested in another. -/
def reader : ExprReader := (levels nestingLimit).expression

/-! ## Statements -/

/-- Whether a token may begin a new statement after an expression. -/
def separates (e : Expr) (t : Token) : Bool :=
  t.kind == .semicolon || e.location.stop.line < t.location.start.line

/-- Reads expressions up to the end. -/
def statementsFrom (expression : ExprReader) : List Token → Except Fault (List Expr)
  | [] => .ok []
  | t :: rest =>
    if t.kind = .semicolon then statementsFrom expression rest
    else
      match _first : expression.read (t :: rest) with
      | .error f => .error f
      | .ok (e, []) => .ok [e]
      | .ok (e, next :: more) =>
        if separates e next then (statementsFrom expression (next :: more)).map (e :: ·)
        else .error ⟨.unexpected, next :: more⟩
termination_by ts => ts.length
decreasing_by
  · simp
  · exact (expression.follows _first).length_lt

/-- The expressions of a formula; there is at least one. -/
def statements (ts : List Token) : Except SyntaxError (List Expr) :=
  match statementsFrom reader ts with
  | .error f => .error (.locate ts f)
  | .ok [] => .error (.locate ts ⟨.empty, []⟩)
  | .ok (e :: es) => .ok (e :: es)

end FormulaTree.Grammar
