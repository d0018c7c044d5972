import FormulaTree.Token.Basic

/-!
# Expressions

An **expression** is a formula with its structure made explicit.  Each node knows its location,
from the first character of its first token to the last of its last one, and its height, the
number of nodes on the longest way down to a leaf.

The functions `Expr.ofMember` to `Expr.ofConditional` build a node over finished parts and work
out location and height; nothing else builds one.
-/

namespace FormulaTree

/-- A formula with its structure made explicit. -/
inductive Expr where
  | number (value : Number) (location : Location)
  | text (value : String) (location : Location)
  | boolean (value : Bool) (location : Location)
  /-- A name, of a function or of a field. -/
  | identifier (name : String) (location : Location)
  | member (object : Expr) (property : String) (height : Nat) (location : Location)
  | call (callee : Expr) (arguments : List Expr) (height : Nat) (location : Location)
  | binary (sign : Sign) (left right : Expr) (height : Nat) (location : Location)
  | unary (sign : Sign) (operand : Expr) (height : Nat) (location : Location)
  | conditional (test consequent alternate : Expr) (height : Nat) (location : Location)

namespace Expr

/-- Where the expression stands. -/
def location : Expr → Location
  | .number _ l | .text _ l | .boolean _ l | .identifier _ l | .member _ _ _ l | .call _ _ _ l
  | .binary _ _ _ _ l | .unary _ _ _ l | .conditional _ _ _ _ l => l

/-- The number of nodes on the longest way down to a leaf. -/
def height : Expr → Nat
  | .number _ _ | .text _ _ | .boolean _ _ | .identifier _ _ => 1
  | .member _ _ h _ | .call _ _ h _ | .binary _ _ _ h _ | .unary _ _ h _
  | .conditional _ _ _ h _ => h

/-- The same expression at another place: parentheses belong to what they enclose. -/
def relocate (l : Location) : Expr → Expr
  | .number v _ => .number v l
  | .text v _ => .text v l
  | .boolean v _ => .boolean v l
  | .identifier n _ => .identifier n l
  | .member o p h _ => .member o p h l
  | .call c as h _ => .call c as h l
  | .binary s a b h _ => .binary s a b h l
  | .unary s a h _ => .unary s a h l
  | .conditional a b c h _ => .conditional a b c h l

/-! ## Building nodes -/

/-- The height of the tallest expression of a list, but at least `least`. -/
def tallest (least : Nat) (es : List Expr) : Nat := es.foldl (fun h e => max h e.height) least

/-- The access to a property of an object. -/
def ofMember (object : Expr) (property : String) (propertyLocation : Location) : Expr :=
  .member object property (1 + object.height) (object.location.cover propertyLocation)

/-- The call of a function with arguments; it ends with a closing parenthesis. -/
def ofCall (callee : Expr) (arguments : List Expr) (close : Location) : Expr :=
  .call callee arguments (1 + tallest callee.height arguments) (callee.location.cover close)

/-- An operator sign between two operands. -/
def ofBinary (sign : Sign) (left right : Expr) : Expr :=
  .binary sign left right (1 + max left.height right.height) (left.location.cover right.location)

/-- An operator sign before its operand. -/
def ofUnary (sign : Sign) (signLocation : Location) (operand : Expr) : Expr :=
  .unary sign operand (1 + operand.height) (signLocation.cover operand.location)

/-- A choice between two expressions. -/
def ofConditional (test consequent alternate : Expr) : Expr :=
  .conditional test consequent alternate
    (1 + max (max test.height consequent.height) alternate.height)
    (test.location.cover alternate.location)

end Expr

end FormulaTree
