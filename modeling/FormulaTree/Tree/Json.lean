import FormulaTree.Json.Read
import FormulaTree.Json.Write
import FormulaTree.Tree.Basic

/-!
# Trees as JSON

A stored tree is a JSON text.  Values stand for themselves and a field is written as its token, so
a text that spells a token is read back as that field.  An operation is written as an object with
the members `operator` and `operands`.

Reading is more liberal than writing:

* the operator may be given under the name `operation`;
* the operands may be left out, and then there are none;
* members with other names are skipped;
* an operation may be an array of the operator and, unless there are none, the operands;
* an operator may be an object whose one member has the symbol for its name, and is null.
-/

namespace FormulaTree

namespace Operator

/-- The operator that a JSON value stands for. -/
def ofJson? : Json → Option Operator
  | .text symbol => ofSymbol? symbol
  | .object [(symbol, .null)] => ofSymbol? symbol
  | _ => none

end Operator

namespace Tree

/-! ## Writing -/

mutual

/-- The JSON value of a tree. -/
def toJson : Tree → Json
  | .text s => .text s
  | .number n => .number n
  | .boolean b => .boolean b
  | .field f => .text f.token
  | .operation op operands =>
    .object [("operator", .text op.symbol), ("operands", .array (toJsons operands))]

/-- The JSON values of a list of trees. -/
def toJsons : List Tree → List Json
  | [] => []
  | t :: ts => toJson t :: toJsons ts

end

/-- The JSON text of a tree. -/
def textIn (layout : Json.Layout) (t : Tree) : String := t.toJson.textIn layout

/-! ## Reading -/

/-- The leaf that a JSON text stands for. -/
def ofToken (s : String) : Tree :=
  match Field.ofToken? s with
  | some f => .field f
  | none => .text s

/-- The values of the members that give an operator. -/
def operatorMembers (members : List (String × Json)) : List Json :=
  (members.filter fun m => m.1 == "operator" || m.1 == "operation").map (·.2)

mutual

/-- The tree that a JSON value stands for. -/
def ofJson? : Json → Option Tree
  | .null => none
  | .boolean b => some (.boolean b)
  | .number n => some (.number n)
  | .text s => some (ofToken s)
  | .array [operator] => (Operator.ofJson? operator).map (.operation · [])
  | .array [operator, .array items] => do
    let op ← Operator.ofJson? operator
    return .operation op (← ofJsons? items)
  | .array _ => none
  | .object members =>
    match operatorMembers members, operandMembers? members with
    | [operator], some [] => (Operator.ofJson? operator).map (.operation · [])
    | [operator], some [operands] => (Operator.ofJson? operator).map (.operation · operands)
    | _, _ => none

/-- The trees that the values of a list stand for. -/
def ofJsons? : List Json → Option (List Tree)
  | [] => some []
  | j :: js => do
    let t ← ofJson? j
    return t :: (← ofJsons? js)

/-- The operands given by the members of an object, one list for each member that gives some. -/
def operandMembers? : List (String × Json) → Option (List (List Tree))
  | [] => some []
  | (name, .array items) :: members =>
    if name = "operands" then do
      let operands ← ofJsons? items
      return operands :: (← operandMembers? members)
    else operandMembers? members
  | (name, _) :: members => if name = "operands" then none else operandMembers? members

end

/-- Why a text is not a stored tree. -/
inductive ReadError where
  /-- The text is not JSON. -/
  | notJson (fault : Json.Fault)
  /-- The text begins with a JSON value that is not a tree. -/
  | notATree

/-- Reads a stored tree, with the numerals in it read in a given way.  A whole value is read before
it is looked at, and what follows is looked at only if the value is a tree. -/
def ofTextBy (numerals : Json.Numerals) (s : String) : Except ReadError Tree :=
  match Json.readValueBy numerals s.toList with
  | .error fault => .error (.notJson fault)
  | .ok (j, rest) =>
    match ofJson? j with
    | none => .error .notATree
    | some t => if (Json.skipSpace rest).isEmpty then .ok t else .error (.notJson .malformed)

/-- Reads a stored tree. -/
def ofText (s : String) : Except ReadError Tree := ofTextBy .nearest s

end Tree

end FormulaTree
