import FormulaTree.Diagnostic
import FormulaTree.Expr.Grammar
import FormulaTree.Token.Scan
import FormulaTree.Tree.Call
import FormulaTree.Tree.Json

/-!
# Trees of formulas

`Lowering.ofText` reads a formula and gives its canonical tree.  It reports what is wrong with the
formula by diagnostics, and goes on: each operand is looked at even if another one is faulty, and
the tree that remains, with the faulty operands left out, is kept as a help.

A text that cannot be read, or holds more than one formula, has one diagnostic and no tree.

## The depth limit

No expression is looked at that is more than a given number of levels down.  The grammar admits
none as deep as `heightLimit`, so only a smaller limit has an effect.  That the limit was reached is
reported once, for the first expression beyond it; each step is therefore told whether this was
`reported` already.

A call whose arguments are all beyond the limit is looked at without them.  If it is a `SWITCH`,
there is no tree for it (`Tree.ofCall?`), and what is around it goes on as if it were not there.
-/

namespace FormulaTree

/-- A tree, unless there is none, and what is wrong with it. -/
structure Lowering where
  tree? : Option Tree
  diagnostics : List Diagnostic

namespace Lowering

/-- A tree with nothing wrong. -/
def done (t : Tree) : Lowering := ⟨some t, []⟩

/-- One problem and no tree. -/
def failed (d : Diagnostic) : Lowering := ⟨none, [d]⟩

/-- Whether there is a tree and nothing is wrong with it. -/
def isOk (l : Lowering) : Bool := l.tree?.isSome && l.diagnostics.isEmpty

/-- The tree if nothing is wrong with it, and otherwise what is. -/
def result (l : Lowering) : Except (List Diagnostic) Tree :=
  match l.tree?, l.diagnostics with
  | some t, [] => .ok t
  | _, ds => .error ds

/-- Whether nothing is wrong and the tree is equal to a given one. -/
def agrees (l : Lowering) (t : Tree) : Bool := l.diagnostics.isEmpty && l.tree?.any (·.beq t)

/-- The JSON value of a lowering; without a tree it has no such member. -/
def toJson (l : Lowering) : Json :=
  .object (l.tree?.toList.map (fun t => ("tree", t.toJson)) ++
    [("diagnostics", .array (l.diagnostics.map Diagnostic.toJson))])

/-- Whether the depth limit was reported. -/
def reportsDepth (l : Lowering) : Bool := l.diagnostics.any (·.kind = .internal)

/-! ## Expressions -/

/-- The depth limit was reached. -/
def tooDeep (limit : Nat) (l : Location) : Diagnostic :=
  ⟨.internal, s!"Expression is nested more than {limit} levels deep", some l⟩

/-- A call by a known name with the wrong number of arguments. -/
def wrongArity (name : String) (a : Arity) (l : Location) : Diagnostic :=
  ⟨.arity, name ++ " expects " ++ a.text, some l⟩

/-- What siblings come to: the trees there are, and all that is wrong. -/
structure Operands where
  trees : List Tree
  diagnostics : List Diagnostic

/-- Takes siblings in order, each told whether the depth limit was reported before it. -/
def operands (reported : Bool) : List (Bool → Lowering) → Operands
  | [] => ⟨[], []⟩
  | step :: steps =>
    let first := step reported
    let others := operands (reported || first.reportsDepth) steps
    ⟨first.tree?.toList ++ others.trees, first.diagnostics ++ others.diagnostics⟩

/-- An operator over the trees there are. -/
def operation (op : Operator) (o : Operands) : Lowering :=
  ⟨some (.operation op o.trees), o.diagnostics⟩

/-- A call by a known name.  If an argument is faulty, its place in the list is not known any more,
and the operator is applied to what there is. -/
def call (k : Keyword) (o : Operands) : Lowering :=
  if o.diagnostics.isEmpty then ⟨Tree.ofCall? k o.trees, []⟩ else operation k.operator o

/-- A name that stands alone. -/
def identifier (name : String) (l : Location) : Lowering :=
  match Field.ofName? name with
  | some f => done (.field f)
  | none => failed (.unknownIdentifier name l)

/-- The access to a property of an object. -/
def member (object : Expr) (property : String) (l : Location) : Lowering :=
  match object with
  | .identifier name objectLocation =>
    if Field.hasMembers name then
      match Field.member? name property with
      | some f => done (.field f)
      | none => failed (.unknownProperty property l)
    else failed (.unknownIdentifier name objectLocation)
  | _ => failed (.unsupported object.location)

/-- What a call stands for, if there are so many arguments: the keyword that is called. -/
def callee (e : Expr) (count : Nat) (l : Location) : Except Diagnostic Keyword :=
  match e with
  | .identifier name calleeLocation =>
    match Keyword.ofWord? name with
    | some k =>
      if k.callArity.admits count then .ok k else .error (wrongArity name k.callArity l)
    | none => .error (.unknownFunction name calleeLocation)
  | _ => .error (.unsupported e.location)

mutual

/-- The tree of an expression that is so many levels down. -/
def ofExpr (limit depth : Nat) (reported : Bool) (e : Expr) : Lowering :=
  if limit ≤ depth then ⟨none, if reported then [] else [tooDeep limit e.location]⟩
  else
    match e with
    | .number n _ => done (.number n)
    | .text s _ => done (.text s)
    | .boolean b _ => done (.boolean b)
    | .identifier name l => identifier name l
    | .member object property _ l => member object property l
    | .call e arguments _ l =>
      match callee e arguments.length l with
      | .ok k => call k (operands reported (ofExprs limit (depth + 1) arguments))
      | .error d => failed d
    | .binary sign left right _ l =>
      match Keyword.ofWord? sign.text with
      | some k =>
        operation k.operator (operands reported
          [(ofExpr limit (depth + 1) · left), (ofExpr limit (depth + 1) · right)])
      | none => failed (.unknownOperator sign.text l)
    | .unary _ _ _ l => failed (.unsupported l)
    | .conditional test consequent alternate _ _ =>
      operation .ternary (operands reported
        [(ofExpr limit (depth + 1) · test), (ofExpr limit (depth + 1) · consequent),
          (ofExpr limit (depth + 1) · alternate)])

/-- The steps that give the trees of a list of expressions. -/
def ofExprs (limit depth : Nat) : List Expr → List (Bool → Lowering)
  | [] => []
  | e :: es => (ofExpr limit depth · e) :: ofExprs limit depth es

end

/-! ## Formulas -/

/-- The tree of a list of formulas, of which there should be just one. -/
def ofStatements (limit : Nat) : List Expr → Lowering
  | [] => ⟨none, []⟩
  | [e] => ofExpr limit 0 false e
  | _ :: second :: _ => failed (.multipleTopLevel second.location)

/-- The tree of a formula, with a depth limit.  Under a limit that leaves a `SWITCH` without
arguments the answer is what remains without that call; a program that stops with a fault at such a
call (`Tree.ofCall?`) has no answer there.  The limit `heightLimit` leaves no call without its
arguments. -/
def ofTextWithin (limit : Nat) (s : String) : Lowering :=
  match Token.ofText s with
  | .error e => failed (.malformed e.cause.message e.location)
  | .ok tokens =>
    match Grammar.statements tokens with
    | .error e => failed (.malformed e.message e.location)
    | .ok es => ofStatements limit es

/-- The tree of a formula. -/
def ofText (s : String) : Lowering := ofTextWithin heightLimit s

end Lowering

end FormulaTree
