import FormulaTree.Keyword
import FormulaTree.Tree.Basic

/-!
# Trees of calls

Most calls apply their operator to their arguments.  `IF` and `SWITCH` take pairs of a test, or a
case, and a result, and perhaps a default after the last pair; their trees are chains of ternaries.
-/

namespace FormulaTree.Tree

/-- The chain of ternaries for pairs of a condition and a result.  A condition without a result is
the default, which is the empty text if there is none. -/
def chain (test : Tree → Tree) : List Tree → Tree
  | [] => .text ""
  | [default] => default
  | condition :: result :: rest =>
    .operation .ternary [test condition, result, chain test rest]

/-- The tree of a call.  A `SWITCH` needs a value to compare the cases with, so there is no tree
for one without arguments.  A program that takes this value off the front of the arguments does not
go on here but stops with a fault. -/
def ofCall? (k : Keyword) (arguments : List Tree) : Option Tree :=
  match k.spelling, arguments with
  | .switch, [] => none
  | .switch, pivot :: pairs => some (chain (fun case => .operation .equal [pivot, case]) pairs)
  | .conditional, pairs => some (chain id pairs)
  | .plain, operands => some (.operation k.operator operands)

end FormulaTree.Tree
