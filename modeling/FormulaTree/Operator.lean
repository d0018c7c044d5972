import FormulaTree.Arity

/-!
# Operators of the canonical tree

A canonical tree is built from 21 operators.  Each has a **symbol**, the word that stands for it
in a stored tree; a **call name**, the word a formula uses to apply it like a function; an arity;
and a style: an *inline* operator stands between its operands, the others are written as calls.
-/

namespace FormulaTree

/-- The operators of the canonical tree. -/
inductive Operator where
  | add
  | and
  | or
  | ternary
  | toText
  | toNumber
  | toDate
  | toLocaleText
  | toLocaleDate
  | toLocaleTime
  | subtract
  | divide
  | multiply
  | less
  | lessOrEqual
  | greater
  | greaterOrEqual
  | equal
  | notEqual
  | cosine
  | sine
deriving DecidableEq

namespace Operator

/-- Every operator, once. -/
def all : List Operator :=
  [.add, .and, .or, .ternary, .toText, .toNumber, .toDate, .toLocaleText, .toLocaleDate,
   .toLocaleTime, .subtract, .divide, .multiply, .less, .lessOrEqual, .greater,
   .greaterOrEqual, .equal, .notEqual, .cosine, .sine]

/-- The word that stands for an operator in a stored tree. -/
def symbol : Operator → String
  | .add => "+"
  | .and => "&&"
  | .or => "||"
  | .ternary => "?"
  | .toText => "toString()"
  | .toNumber => "Number()"
  | .toDate => "Date()"
  | .toLocaleText => "toLocaleString()"
  | .toLocaleDate => "toLocaleDateString()"
  | .toLocaleTime => "toLocaleTimeString()"
  | .subtract => "-"
  | .divide => "/"
  | .multiply => "*"
  | .less => "<"
  | .lessOrEqual => "<="
  | .greater => ">"
  | .greaterOrEqual => ">="
  | .equal => "=="
  | .notEqual => "!="
  | .cosine => "cos"
  | .sine => "sin"

/-- The operator with a given symbol. -/
def ofSymbol? (symbol : String) : Option Operator :=
  all.find? fun op => op.symbol == symbol

theorem ofSymbol?_symbol (op : Operator) : ofSymbol? op.symbol = some op := by
  cases op <;> rfl

/-- How many operands an operation of a canonical tree has.  A ternary may lack its third
operand, the value for a failed test. -/
def arity : Operator → Arity
  | .add | .and | .or => .atLeast 2
  | .ternary => .between 2 3
  | .subtract | .divide | .multiply | .less | .lessOrEqual | .greater | .greaterOrEqual
  | .equal | .notEqual => .exactly 2
  | .toText | .toNumber | .toDate | .toLocaleText | .toLocaleDate | .toLocaleTime
  | .cosine | .sine => .exactly 1

/-- Whether the operator is written between its operands. -/
def isInline : Operator → Bool
  | .add | .subtract | .divide | .multiply | .less | .lessOrEqual | .greater
  | .greaterOrEqual | .equal | .notEqual => true
  | _ => false

/-- The word a formula applies the operator by when it is written as a call. -/
def callName : Operator → String
  | .add => "CONCATENATE"
  | .and => "AND"
  | .or => "OR"
  | .ternary => "IF"
  | .toText => "TOSTRING"
  | .toNumber => "NUMBER"
  | .toDate => "DATE"
  | .toLocaleText => "TOLOCALESTRING"
  | .toLocaleDate => "TOLOCALEDATESTRING"
  | .toLocaleTime => "TOLOCALETIMESTRING"
  | .cosine => "COS"
  | .sine => "SIN"
  | op => op.symbol

end Operator

end FormulaTree
