import FormulaTree.Field
import FormulaTree.Number.Basic
import FormulaTree.Operator

/-!
# Canonical trees

A **canonical tree** is the meaning of a formula: values at the leaves, and at each inner node an
operator over an ordered list of operands.  Nothing ties the number of operands to the operator's
arity, since a tree may also be read from a file that someone else wrote.

Trees are compared by `Tree.beq`, which compares numbers by value: zero equals negative zero, and
what is not a number equals nothing.
-/

namespace FormulaTree

/-- A tree of operators over values. -/
inductive Tree where
  | text (value : String)
  | number (value : Number)
  | boolean (value : Bool)
  | field (field : Field)
  | operation (operator : Operator) (operands : List Tree)

namespace Tree

mutual

/-- The number of nodes of a tree. -/
def size : Tree → Nat
  | .operation _ operands => 1 + sizes operands
  | _ => 1

/-- The number of nodes of a list of trees. -/
def sizes : List Tree → Nat
  | [] => 0
  | t :: ts => size t + sizes ts

end

mutual

/-- Equality of trees, with numbers compared by value. -/
def beq : Tree → Tree → Bool
  | .text s, .text t => s == t
  | .number m, .number n => m.beq n
  | .boolean a, .boolean b => a == b
  | .field f, .field g => f == g
  | .operation f ts, .operation g us => f == g && beqs ts us
  | _, _ => false

/-- Equality of lists of trees, with numbers compared by value. -/
def beqs : List Tree → List Tree → Bool
  | [], [] => true
  | t :: ts, u :: us => beq t u && beqs ts us
  | _, _ => false

end

/-- Whether a tree is the empty text, which stands for an absent default. -/
def isEmptyText : Tree → Bool
  | .text s => s.isEmpty
  | _ => false

end Tree

end FormulaTree
