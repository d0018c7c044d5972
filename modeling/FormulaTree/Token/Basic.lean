import FormulaTree.Number.Text
import FormulaTree.Position

/-!
# Tokens

A formula is read in two steps, and a **token** is what passes from the first to the second: a
piece of the text that belongs together, with its location.  `Kind` is what a token says;
`Kind.describe` is how a message names it.
-/

namespace FormulaTree

/-- The operator signs of the formula language. -/
inductive Sign where
  | plus
  | minus
  | star
  | slash
  | percent
  | ampersand
  | doubleAmpersand
  | bar
  | doubleBar
  | less
  | lessOrEqual
  | greater
  | greaterOrEqual
  | equal
  | notEqual
  | strictEqual
  | strictNotEqual
  | bang
deriving DecidableEq

namespace Sign

/-- How a sign is written. -/
def text : Sign → String
  | .plus => "+"
  | .minus => "-"
  | .star => "*"
  | .slash => "/"
  | .percent => "%"
  | .ampersand => "&"
  | .doubleAmpersand => "&&"
  | .bar => "|"
  | .doubleBar => "||"
  | .less => "<"
  | .lessOrEqual => "<="
  | .greater => ">"
  | .greaterOrEqual => ">="
  | .equal => "=="
  | .notEqual => "!="
  | .strictEqual => "==="
  | .strictNotEqual => "!=="
  | .bang => "!"

end Sign

namespace Token

/-- What a token says. -/
inductive Kind where
  | number (value : Number)
  | text (value : String)
  | boolean (value : Bool)
  | identifier (name : String)
  /-- The name of a field, with its `@`. -/
  | field (name : String)
  | operator (sign : Sign)
  | openParen
  | closeParen
  | comma
  | dot
  | question
  | colon
  | semicolon
deriving DecidableEq

/-- How a message names a token. -/
def Kind.describe : Kind → String
  | .number n => s!"number {n.text}"
  | .text s => "string \"" ++ s ++ "\""
  | .boolean true => "true"
  | .boolean false => "false"
  | .identifier name => s!"identifier '{name}'"
  | .field name => s!"'{name}'"
  | .operator sign => s!"'{sign.text}'"
  | .openParen => "'('"
  | .closeParen => "')'"
  | .comma => "','"
  | .dot => "'.'"
  | .question => "'?'"
  | .colon => "':'"
  | .semicolon => "';'"

end Token

/-- A piece of a formula that belongs together. -/
structure Token where
  kind : Token.Kind
  location : Location
deriving DecidableEq

end FormulaTree
