import FormulaTree.Number.Text
import FormulaTree.Text.Quoted
import FormulaTree.Tree.Basic

/-!
# Formulas written from trees

A **term** is a formula as it is laid out on the page: which operators stand between their
operands, where there are parentheses, what is a call.  A tree is first laid out as a term
(`Term.ofTree`) and the term is then spelled (`Term.spell`).

## Layout

* An operation with too few operands leaves nothing, and operands in excess are dropped.
* An inline operator stands between two operands.  Parentheses are put around an operand that has
  an inline operator too, except around a first operand with the same one; quotients and
  comparisons always get them.
* A sum of more than two operands is a call: `a + b + c` would be read as a sum of sums.
* A chain of ternaries is one call.  If the first test compares a value, the pivot, by `==` with
  two operands, the call is `SWITCH`, and the chain goes on for as long as the tests compare the
  same pivot.  Otherwise it is `IF`, and the chain goes on for as long as there are ternaries.
* The default of the last ternary is left out if it is the empty text.
-/

namespace FormulaTree

/-- A formula as it is laid out. -/
inductive Term where
  /-- Nothing at all. -/
  | blank
  | text (value : String)
  | number (value : Number)
  | boolean (value : Bool)
  | field (field : Field)
  /-- A term between parentheses. -/
  | group (inner : Term)
  /-- An operator between its operands. -/
  | between (operator : Operator) (left right : Term)
  | call (name : String) (arguments : List Term)

namespace Term

/-! ## Layout -/

/-- Whether a tree gets parentheses as the operand of an inline operator; `first` says whether it
is the first of the two. -/
def needsGroup (parent : Operator) (first : Bool) : Tree → Bool
  | .operation child _ =>
    child.isInline &&
      (child matches .divide | .less | .lessOrEqual | .greater | .greaterOrEqual ||
        child != parent || !first)
  | _ => false

/-- The term of an operand of an inline operator. -/
def ofOperand (parent : Operator) (first : Bool) (t : Tree) : Term → Term
  | .blank => .blank
  | term => if needsGroup parent first t then .group term else term

/-- An operator applied to operands, which are given with their terms. -/
def ofOperation (op : Operator) : List Tree → List Term → Term
  | [left, right], [leftTerm, rightTerm] =>
    if op.isInline then
      .between op (ofOperand op true left leftTerm) (ofOperand op false right rightTerm)
    else .call op.callName [leftTerm, rightTerm]
  | _, terms => .call op.callName terms

/-- The last argument of a call that stands for a chain of ternaries, if there is one. -/
def ofDefault (t : Tree) : Term → List Term
  | .blank => []
  | term => if t.isEmptyText then [] else [term]

mutual

/-- The layout of a tree. -/
def ofTree : Tree → Term
  | .text s => .text s
  | .number n => .number n
  | .boolean b => .boolean b
  | .field f => .field f
  | .operation .ternary (.operation .equal [pivot, case] :: result :: rest) =>
    .call "SWITCH" (ofTree pivot :: ofTree case :: ofTree result :: switchRest pivot rest)
  | .operation .ternary (test :: result :: rest) =>
    .call "IF" (ofTree test :: ofTree result :: ifRest rest)
  | .operation op operands =>
    if operands.length < op.arity.min then .blank
    else ofOperation op (op.arity.clip operands) (op.arity.clip (ofTrees operands))

/-- The layout of each tree of a list. -/
def ofTrees : List Tree → List Term
  | [] => []
  | t :: ts => ofTree t :: ofTrees ts

/-- The further arguments of `SWITCH` for the operands of a ternary after the second.  A ternary
that compares another pivot is a default, and itself a `SWITCH`. -/
def switchRest (pivot : Tree) : List Tree → List Term
  | [] => []
  | .operation .ternary (.operation .equal [pivot', case] :: result :: rest) :: _ =>
    if pivot'.beq pivot then ofTree case :: ofTree result :: switchRest pivot rest
    else [.call "SWITCH" (ofTree pivot' :: ofTree case :: ofTree result :: switchRest pivot' rest)]
  | t :: _ => ofDefault t (ofTree t)

/-- The further arguments of `IF` for the operands of a ternary after the second. -/
def ifRest : List Tree → List Term
  | [] => []
  | .operation .ternary (test :: result :: rest) :: _ =>
    ofTree test :: ofTree result :: ifRest rest
  | t :: _ => ofDefault t (ofTree t)

end

/-- Induction along the layout of a tree: `P` is about trees, `Q` about lists of them, `R` about
what is left for an `IF`, and `S` about what is left for the `SWITCH` of a pivot. -/
theorem ofTree_induction {P : Tree → Prop} {Q R : List Tree → Prop} {S : Tree → List Tree → Prop}
    (text : ∀ s, P (.text s)) (number : ∀ n, P (.number n)) (boolean : ∀ b, P (.boolean b))
    (field : ∀ f, P (.field f))
    (switch : ∀ pivot case result rest, P pivot → P case → P result → S pivot rest →
      P (.operation .ternary (.operation .equal [pivot, case] :: result :: rest)))
    (conditional : ∀ test result rest,
      (∀ pivot case, test = .operation .equal [pivot, case] → False) →
      P test → P result → R rest → P (.operation .ternary (test :: result :: rest)))
    (few : ∀ op operands,
      (∀ test result rest, op = .ternary → operands = test :: result :: rest → False) →
      operands.length < op.arity.min → P (.operation op operands))
    (enough : ∀ op operands,
      (∀ test result rest, op = .ternary → operands = test :: result :: rest → False) →
      ¬operands.length < op.arity.min → Q operands → P (.operation op operands))
    (nil : Q []) (cons : ∀ t ts, P t → Q ts → Q (t :: ts))
    (ifEnd : R [])
    (ifTernary : ∀ test result rest tail, P test → P result → R rest →
      R (.operation .ternary (test :: result :: rest) :: tail))
    (ifDefault : ∀ t tail,
      (∀ test result rest, t = .operation .ternary (test :: result :: rest) → False) →
      P t → R (t :: tail))
    (switchEnd : ∀ pivot, S pivot [])
    (switchSame : ∀ pivot pivot' case result rest tail, pivot'.beq pivot = true →
      P case → P result → S pivot rest →
      S pivot (.operation .ternary (.operation .equal [pivot', case] :: result :: rest) :: tail))
    (switchOther : ∀ pivot pivot' case result rest tail, ¬pivot'.beq pivot = true →
      P pivot' → P case → P result → S pivot' rest →
      S pivot (.operation .ternary (.operation .equal [pivot', case] :: result :: rest) :: tail))
    (switchDefault : ∀ pivot t tail, (∀ pivot' case result rest,
        t = .operation .ternary (.operation .equal [pivot', case] :: result :: rest) → False) →
      P t → S pivot (t :: tail))
    (t : Tree) : P t :=
  (ofTree.mutual_induct P Q R S text number boolean field switch conditional
    (fun op operands _ => few op operands) (fun op operands _ => enough op operands) nil cons
    ifEnd ifTernary ifDefault switchEnd switchSame switchOther switchDefault).1 t

/-! ## Spelling -/

mutual

/-- The characters of a term. -/
def spell : Term → List Char
  | .blank => []
  | .text s => Text.quote s
  | .number n => n.formulaText
  | .boolean true => "true".toList
  | .boolean false => "false".toList
  | .field f => f.token.toList
  | .group inner => '(' :: (spell inner ++ [')'])
  | .between op left right => spell left ++ (' ' :: (op.symbol.toList ++ (' ' :: spell right)))
  | .call name arguments => name.toList ++ ('(' :: (spellArguments arguments ++ [')']))

/-- The characters of the arguments of a call. -/
def spellArguments : List Term → List Char
  | [] => []
  | [term] => spell term
  | term :: terms => spell term ++ (',' :: ' ' :: spellArguments terms)

end

end Term

namespace Tree

/-- The formula of a tree, with or without an equals sign before it. -/
def formula (t : Tree) (equals : Bool) : String :=
  let spelled := (Term.ofTree t).spell
  String.ofList (if equals then '=' :: spelled else spelled)

end Tree

end FormulaTree
