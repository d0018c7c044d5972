import FormulaTree.Token.Basic

/-!
# Why tokens are not a formula

A reader of expressions fails at a token: it reports why, and the tokens from that one on.  An
empty rest means that the formula ended too early.  `SyntaxError` adds the location, which for
an empty rest is the empty stretch after the last token.
-/

namespace FormulaTree

/-- How many levels deep a formula may be nested.  Parentheses, argument lists, the operand of a
sign and the two branches of a choice are each a level of their own. -/
def nestingLimit : Nat := 128

/-- How tall an expression may be. -/
def heightLimit : Nat := 256

/-- What a formula must go on with at some places. -/
inductive Expectation where
  /-- The colon between the two branches of a choice. -/
  | colon
  /-- The end of a parenthesis. -/
  | closeGroup
  /-- The end of an argument list. -/
  | closeArguments
  /-- The name of a property. -/
  | property
deriving DecidableEq

/-- The expectation in words. -/
def Expectation.message : Expectation → String
  | .colon => "Expected ':' in conditional expression"
  | .closeGroup => "Expected ')' after expression"
  | .closeArguments => "Expected ')' after function arguments"
  | .property => "Expected property name after '.'"

/-- Why tokens are not a formula. -/
inductive SyntaxError.Cause where
  | unexpected
  | expected (what : Expectation)
  /-- There is no expression at all. -/
  | empty
  /-- More levels than `nestingLimit`. -/
  | nesting
  /-- An expression taller than `heightLimit`. -/
  | height
deriving DecidableEq

/-- Why reading failed, and the tokens from the one to blame on. -/
structure Fault where
  cause : SyntaxError.Cause
  rest : List Token
deriving DecidableEq

/-- Why tokens are not a formula, and where. -/
structure SyntaxError extends Fault where
  location : Location
deriving DecidableEq

namespace SyntaxError

/-- The cause in words. -/
def Cause.message (found? : Option Token.Kind) : Cause → String
  | .unexpected =>
    match found? with
    | some found => s!"Unexpected token: {found.describe}"
    | none => "Unexpected end of formula"
  | .expected what =>
    let found := match found? with
      | some found => found.describe
      | none => "end of formula"
    s!"{what.message}, found {found}"
  | .empty => "Empty expression"
  | .nesting => s!"Formula is nested more than {nestingLimit} levels deep"
  | .height => s!"Expression is nested more than {heightLimit} operators deep"

/-- The cause in words. -/
def message (e : SyntaxError) : String := e.cause.message (e.rest.head?.map Token.kind)

/-- The error in words, with the place where it begins. -/
def text (e : SyntaxError) : String := s!"Parse error at {e.location.start.text}: {e.message}"

/-- The empty stretch after the last token. -/
def endOf (ts : List Token) : Location :=
  match ts.getLast? with
  | some t => .empty t.location.stop
  | none => .initial

/-- Finds the place of a fault among the tokens that were read. -/
def locate (ts : List Token) (f : Fault) : SyntaxError :=
  ⟨f, match f.rest with
    | t :: _ => t.location
    | [] => endOf ts⟩

end SyntaxError

end FormulaTree
