import FormulaTree.Expr.Grammar
import Mathlib.Tactic.Lemma

/-!
# The grammar of formulas

`Grammar.Derives` is the grammar as a relation between tokens and the expression they stand for.
It knows nothing of readers: where a reader decides by the next token, a derivation may be built
in any order, its categories are left-recursive where operators group to the left, and its signs are
written out here and not taken from the reader's tables.

## Categories

From the loosest to the tightest, with `s` a sign of the level in question:

* `choice   ::= or | or '?' choice ':' choice`, where `or` is the loosest binary level;
* `level    ::= next | level s next`, for each level of `binaryLevels`;
* `unary    ::= s unary | applied`, with one of the `leadingSigns`;
* `applied  ::= primary | applied '(' arguments ')' | applied '.' name`;
* `primary  ::= literal | name | field | '(' choice ')'`.

Parentheses leave no trace in the expression but for its location, and a minus sign before a number
makes the number negative (`Expr.signed`).

## Nesting

`Derives c n ts e` says that the tokens `ts` derive `e` in the category `c` by a derivation that
nests `n` levels deep.  A parenthesis, an argument list (also an empty one), the operand of a sign
and either branch of a choice are each one level below what they are part of.
-/

namespace FormulaTree

/-- A sign before an operand.  A minus sign before a number is part of the number. -/
def Expr.signed (sign : Sign) (place : Location) (operand : Expr) : Expr :=
  match sign, operand with
  | .minus, .number v l => .number v.negate (place.cover l)
  | _, _ => .ofUnary sign place operand

namespace Grammar

open FormulaTree.Expr (ofBinary ofCall ofConditional ofMember ofUnary signed)

/-- The binary signs by level, from the loosest to the tightest. -/
def binaryLevels : List (List Sign) :=
  [[.doubleBar], [.doubleAmpersand], [.bar], [.ampersand],
    [.equal, .notEqual, .strictEqual, .strictNotEqual],
    [.less, .lessOrEqual, .greater, .greaterOrEqual], [.plus, .minus], [.star, .slash, .percent]]

/-- The signs that stand before an operand. -/
def leadingSigns : List Sign := [.minus, .plus, .bang]

/-- The categories of the grammar. -/
inductive Category where
  | choice
  /-- The loosest of these levels of binary signs; without a level, an operand. -/
  | binary (levels : List (List Sign))
  | unary
  | applied
  | primary

mutual

/-- The tokens derive the expression, nesting so many levels deep. -/
inductive Derives : Category → Nat → List Token → Expr → Prop
  | number {v : Number} {l : Location} : Derives .primary 0 [⟨.number v, l⟩] (.number v l)
  | text {s : String} {l : Location} : Derives .primary 0 [⟨.text s, l⟩] (.text s l)
  | boolean {b : Bool} {l : Location} : Derives .primary 0 [⟨.boolean b, l⟩] (.boolean b l)
  | identifier {name : String} {l : Location} :
      Derives .primary 0 [⟨.identifier name, l⟩] (.identifier name l)
  | field {name : String} {l : Location} :
      Derives .primary 0 [⟨.field name, l⟩] (.identifier name l)
  | group {n : Nat} {ts : List Token} {e : Expr} {opening closing : Location}
      (inside : Derives .choice n ts e) :
      Derives .primary (n + 1) (⟨.openParen, opening⟩ :: (ts ++ [⟨.closeParen, closing⟩]))
        (e.relocate (opening.cover closing))
  | primary {n : Nat} {ts : List Token} {e : Expr} (alone : Derives .primary n ts e) :
      Derives .applied n ts e
  | call {m n : Nat} {ts us : List Token} {callee : Expr} {arguments : List Expr}
      {opening closing : Location} (applied : Derives .applied m ts callee)
      (inside : DerivesArguments n us arguments) :
      Derives .applied (max m (n + 1))
        (ts ++ ⟨.openParen, opening⟩ :: (us ++ [⟨.closeParen, closing⟩]))
        (ofCall callee arguments closing)
  | member {n : Nat} {ts : List Token} {object : Expr} {name : String} {point l : Location}
      (applied : Derives .applied n ts object) :
      Derives .applied n (ts ++ [⟨.dot, point⟩, ⟨.identifier name, l⟩]) (ofMember object name l)
  | applied {n : Nat} {ts : List Token} {e : Expr} (alone : Derives .applied n ts e) :
      Derives .unary n ts e
  | signed {n : Nat} {ts : List Token} {operand : Expr} {sign : Sign} {place : Location}
      (mem : sign ∈ leadingSigns) (inside : Derives .unary n ts operand) :
      Derives .unary (n + 1) (⟨.operator sign, place⟩ :: ts) (signed sign place operand)
  | operand {n : Nat} {ts : List Token} {e : Expr} (alone : Derives .unary n ts e) :
      Derives (.binary []) n ts e
  | level {n : Nat} {ts : List Token} {e : Expr} {signs : List Sign}
      {tighter : List (List Sign)} (alone : Derives (.binary tighter) n ts e) :
      Derives (.binary (signs :: tighter)) n ts e
  | chain {m n : Nat} {ts us : List Token} {left right : Expr} {signs : List Sign}
      {tighter : List (List Sign)} {sign : Sign} {place : Location}
      (first : Derives (.binary (signs :: tighter)) m ts left) (mem : sign ∈ signs)
      (second : Derives (.binary tighter) n us right) :
      Derives (.binary (signs :: tighter)) (max m n) (ts ++ ⟨.operator sign, place⟩ :: us)
        (ofBinary sign left right)
  | test {n : Nat} {ts : List Token} {e : Expr} (alone : Derives (.binary binaryLevels) n ts e) :
      Derives .choice n ts e
  | choice {m n k : Nat} {ts us vs : List Token} {test consequent alternate : Expr}
      {question colon : Location} (condition : Derives (.binary binaryLevels) m ts test)
      (yes : Derives .choice n us consequent) (no : Derives .choice k vs alternate) :
      Derives .choice (max m (max (n + 1) (k + 1)))
        (ts ++ ⟨.question, question⟩ :: (us ++ ⟨.colon, colon⟩ :: vs))
        (ofConditional test consequent alternate)

/-- The tokens between the parentheses of a call derive its arguments. -/
inductive DerivesArguments : Nat → List Token → List Expr → Prop
  | none : DerivesArguments 0 [] []
  | some {m n : Nat} {ts us : List Token} {e : Expr} {es : List Expr}
      (first : Derives .choice m ts e) (others : DerivesMore n us es) :
      DerivesArguments (max m n) (ts ++ us) (e :: es)

/-- The tokens derive further arguments, each after a comma. -/
inductive DerivesMore : Nat → List Token → List Expr → Prop
  | none : DerivesMore 0 [] []
  | some {m n : Nat} {ts us : List Token} {e : Expr} {es : List Expr} {comma : Location}
      (first : Derives .choice m ts e) (others : DerivesMore n us es) :
      DerivesMore (max m n) (⟨.comma, comma⟩ :: (ts ++ us)) (e :: es)

end

/-- An operand is an expression of every binary level. -/
lemma Derives.of_unary {n : Nat} {ts : List Token} {e : Expr} (h : Derives .unary n ts e)
    (levels : List (List Sign)) : Derives (.binary levels) n ts e := by
  induction levels with
  | nil => exact .operand h
  | cons signs levels ih => exact .level ih

/-! ## Where an expression begins -/

/-- The tokens that begin a primary expression. -/
def beginsPrimary : Token.Kind → Bool
  | .number _ | .text _ | .boolean _ | .identifier _ | .field _ | .openParen => true
  | _ => false

/-- The tokens that begin an operand with the signs before it. -/
def beginsUnary : Token.Kind → Bool
  | .operator sign => sign ∈ leadingSigns
  | kind => beginsPrimary kind

/-- The tokens that begin an expression of a category. -/
def Category.begins : Category → Token.Kind → Bool
  | .primary, kind | .applied, kind => beginsPrimary kind
  | .unary, kind | .binary _, kind | .choice, kind => beginsUnary kind

/-- The tokens are not empty and begin as those of the category do. -/
def Begins (c : Category) (ts : List Token) : Prop :=
  ∃ t us, ts = t :: us ∧ c.begins t.kind = true

lemma Begins.append {c : Category} {ts : List Token} (h : Begins c ts) (us : List Token) :
    Begins c (ts ++ us) := by
  obtain ⟨t, ts, rfl, hbegins⟩ := h
  exact ⟨t, ts ++ us, rfl, hbegins⟩

lemma Begins.mono {c d : Category} {ts : List Token} (h : Begins c ts)
    (himp : ∀ kind, c.begins kind = true → d.begins kind = true) : Begins d ts := by
  obtain ⟨t, ts, rfl, hbegins⟩ := h
  exact ⟨t, ts, rfl, himp t.kind hbegins⟩

lemma beginsUnary_of_beginsPrimary {kind : Token.Kind} (h : beginsPrimary kind = true) :
    beginsUnary kind = true := by
  cases kind <;> simp_all [beginsPrimary, beginsUnary]

lemma begins_signed {sign : Sign} (h : sign ∈ leadingSigns) (place : Location) (ts : List Token) :
    Begins .unary (⟨.operator sign, place⟩ :: ts) :=
  ⟨_, _, rfl, decide_eq_true h⟩

/-- Where an expression is derived, its first token is one that may begin it. -/
lemma Derives.begins {c : Category} {n : Nat} {ts : List Token} {e : Expr} :
    Derives c n ts e → Begins c ts
  | .number | .text | .boolean | .identifier | .field | .group _ => ⟨_, _, rfl, rfl⟩
  | .primary h => h.begins.mono fun _ => id
  | .call h _ | .member h => h.begins.append _
  | .applied h => h.begins.mono fun _ => beginsUnary_of_beginsPrimary
  | .signed hmem _ => begins_signed hmem _ _
  | .operand h | .level h | .test h => h.begins.mono fun _ => id
  | .chain h _ _ => h.begins.append _
  | .choice h _ _ => (h.begins.append _).mono fun _ => id

lemma Derives.ne_nil {c : Category} {n : Nat} {ts : List Token} {e : Expr}
    (h : Derives c n ts e) : ts ≠ [] := by
  obtain ⟨t, us, rfl, -⟩ := h.begins
  exact List.cons_ne_nil t us

/-! ## Where an expression ends -/

/-- The tokens that apply what stands before them. -/
def applies : Token.Kind → Bool
  | .openParen | .dot => true
  | _ => false

/-- The tokens that go on with an expression of some binary level. -/
def joins (levels : List (List Sign)) : Token.Kind → Bool
  | .operator sign => levels.any (sign ∈ ·)
  | kind => applies kind

/-- The tokens that go on with an expression of a category. -/
def Category.continues : Category → Token.Kind → Bool
  | .choice, kind => kind == .question || joins binaryLevels kind
  | .binary levels, kind => joins levels kind
  | .unary, kind | .applied, kind => applies kind
  | .primary, _ => false

/-- An expression of the category ends where these tokens begin. -/
def Ends (c : Category) (rest : List Token) : Prop :=
  ∀ t ∈ rest.head?, c.continues t.kind = false

@[simp] lemma ends_nil (c : Category) : Ends c [] := by simp [Ends]

@[simp] lemma ends_cons {c : Category} {t : Token} {rest : List Token} :
    Ends c (t :: rest) ↔ c.continues t.kind = false := by simp [Ends]

lemma ends_primary (rest : List Token) : Ends .primary rest := by simp [Ends, Category.continues]

/-- What ends an expression ends it whatever makes it end more easily. -/
lemma Ends.mono {c d : Category} {rest : List Token} (h : Ends c rest)
    (himp : ∀ kind, d.continues kind = true → c.continues kind = true) : Ends d rest := by
  intro t ht
  cases hcontinues : d.continues t.kind with
  | false => rfl
  | true =>
    have hc := himp t.kind hcontinues
    rw [h t ht] at hc
    cases hc

lemma joins_of_applies {levels : List (List Sign)} {kind : Token.Kind}
    (h : applies kind = true) : joins levels kind = true := by
  cases kind <;> simp_all [applies, joins]

lemma joins_cons {signs : List Sign} {tighter : List (List Sign)} {kind : Token.Kind}
    (h : joins tighter kind = true) : joins (signs :: tighter) kind = true := by
  cases kind <;> simp_all [joins]

lemma Ends.tighter {signs : List Sign} {tighter : List (List Sign)} {rest : List Token}
    (h : Ends (.binary (signs :: tighter)) rest) : Ends (.binary tighter) rest :=
  h.mono fun _ => joins_cons

lemma Ends.unary {levels : List (List Sign)} {rest : List Token}
    (h : Ends (.binary levels) rest) : Ends .unary rest :=
  h.mono fun _ => joins_of_applies

lemma Ends.test {rest : List Token} (h : Ends .choice rest) :
    Ends (.binary binaryLevels) rest :=
  h.mono fun kind hkind => by
    have hjoins : joins binaryLevels kind = true := hkind
    simp [Category.continues, hjoins]

/-! ## Heights -/

@[simp] lemma height_relocate (e : Expr) (l : Location) : (e.relocate l).height = e.height := by
  cases e <;> rfl

@[simp] lemma height_ofBinary (sign : Sign) (left right : Expr) :
    (ofBinary sign left right).height = 1 + max left.height right.height := rfl

@[simp] lemma height_ofMember (object : Expr) (name : String) (l : Location) :
    (ofMember object name l).height = 1 + object.height := rfl

@[simp] lemma height_ofConditional (test consequent alternate : Expr) :
    (ofConditional test consequent alternate).height =
      1 + max (max test.height consequent.height) alternate.height := rfl

/-- A list is no taller than a bound just when nothing in it is. -/
lemma tallest_le_iff {least bound : Nat} {es : List Expr} :
    Expr.tallest least es ≤ bound ↔ least ≤ bound ∧ ∀ e ∈ es, e.height ≤ bound := by
  induction es generalizing least with
  | nil => simp [Expr.tallest]
  | cons e es ih =>
    have hcons : Expr.tallest least (e :: es) = Expr.tallest (max least e.height) es := rfl
    rw [hcons, ih, List.forall_mem_cons, Nat.max_le, and_assoc]

@[simp] lemma height_ofCall (callee : Expr) (arguments : List Expr) (l : Location) :
    (ofCall callee arguments l).height = 1 + Expr.tallest callee.height arguments := rfl

/-- A sign adds one to the height, except for a minus sign that becomes part of a number. -/
lemma height_signed (sign : Sign) (place : Location) (operand : Expr) :
    (signed sign place operand).height = 1 + operand.height ∨
      ((signed sign place operand).height = 1 ∧ operand.height = 1) := by
  unfold Expr.signed
  split
  · exact .inr ⟨rfl, rfl⟩
  · exact .inl rfl

end Grammar

end FormulaTree
