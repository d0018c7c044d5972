import FormulaTree.Operator

/-!
# Words of the formula language

A formula names an operator by a function name or by an operator sign.  Several words may name
one operator, and two different calls, `IF` and `SWITCH`, both build ternaries; so a word
resolves to a **keyword**: the operator together with the way it was spelled.
-/

namespace FormulaTree

/-- How the arguments of a call are laid out. -/
inductive Spelling where
  /-- A value, then pairs of a case and its result, then perhaps a default. -/
  | switch
  /-- Pairs of a test and its result, then perhaps a default. -/
  | conditional
  /-- The operands themselves. -/
  | plain
deriving DecidableEq

/-- What a word of the formula language stands for. -/
structure Keyword where
  operator : Operator
  spelling : Spelling
deriving DecidableEq

namespace Keyword

/-- The arity of a call by this keyword. -/
def callArity (k : Keyword) : Arity :=
  match k.spelling with
  | .switch => .atLeast 3
  | .conditional => .atLeast 2
  | .plain => k.operator.arity

/-- The keyword for a word in small letters. -/
def ofLowercase? : String → Option Keyword
  | "concatenate" | "concat" | "&" | "+" => some ⟨.add, .plain⟩
  | "and" | "&&" => some ⟨.and, .plain⟩
  | "or" | "||" => some ⟨.or, .plain⟩
  | "switch" => some ⟨.ternary, .switch⟩
  | "if" | "?" => some ⟨.ternary, .conditional⟩
  | "tostring" => some ⟨.toText, .plain⟩
  | "number" => some ⟨.toNumber, .plain⟩
  | "date" => some ⟨.toDate, .plain⟩
  | "tolocalestring" => some ⟨.toLocaleText, .plain⟩
  | "tolocaledatestring" => some ⟨.toLocaleDate, .plain⟩
  | "tolocaletimestring" => some ⟨.toLocaleTime, .plain⟩
  | "-" => some ⟨.subtract, .plain⟩
  | "/" => some ⟨.divide, .plain⟩
  | "*" => some ⟨.multiply, .plain⟩
  | "<" => some ⟨.less, .plain⟩
  | "<=" => some ⟨.lessOrEqual, .plain⟩
  | ">" => some ⟨.greater, .plain⟩
  | ">=" => some ⟨.greaterOrEqual, .plain⟩
  | "==" => some ⟨.equal, .plain⟩
  | "!=" => some ⟨.notEqual, .plain⟩
  | "cos" => some ⟨.cosine, .plain⟩
  | "sin" => some ⟨.sine, .plain⟩
  | _ => none

/-- The keyword for a word, whatever the case of its letters.

Only the letters `A` to `Z` are folded.  No other character has a small form that occurs in a
keyword (the one character outside ASCII with an ASCII small form is the Kelvin sign, and no
keyword has a `k`), so folding more letters would resolve no further word. -/
def ofWord? (word : String) : Option Keyword :=
  ofLowercase? (String.ofList (word.toList.map Char.toLower))

end Keyword

end FormulaTree
