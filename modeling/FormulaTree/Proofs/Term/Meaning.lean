import FormulaTree.Proofs.Lowering.Meaning
import FormulaTree.Proofs.Lowering.Outcome
import FormulaTree.Proofs.Term.Spelling
import FormulaTree.Proofs.Tree.Equality

/-!
# What a term is read as

The tokens of a readable term derive an expression, and the expression means a tree.  Both can be
told from the term alone: `Term.tree` is the tree, `Term.nesting` how deep the derivation nests and
`Term.height` how tall the expression is (`Readable.derives`).
-/

namespace FormulaTree

open Grammar (Category Derives DerivesArguments DerivesMore binaryLevels)
open Lowering (Means)

namespace Term

mutual

/-- The tree that a term is read as; what is no call counts as the empty text. -/
def tree : Term → Tree
  | .blank => .text ""
  | .text s => .text s
  | .number n => .number n.normal
  | .boolean b => .boolean b
  | .field f => .field f
  | .group inner => tree inner
  | .between op left right => .operation op [tree left, tree right]
  | .call name arguments =>
    ((Keyword.ofWord? name).bind (Tree.ofCall? · (trees arguments))).getD (.text "")

/-- The trees that terms are read as. -/
def trees : List Term → List Tree
  | [] => []
  | term :: terms => tree term :: trees terms

end

mutual

/-- How deep the tokens of a term nest. -/
def nesting : Term → Nat
  | .blank | .text _ | .boolean _ | .field _ => 0
  | .number (.finite negative m) => if Number.isBelowZero negative m then 1 else 0
  | .number (.infinite _) | .number .notANumber => 0
  | .group inner => nesting inner + 1
  | .between _ left right => max (nesting left) (nesting right)
  | .call _ arguments => nestings arguments + 1

/-- How deep the tokens of the deepest of some terms nest. -/
def nestings : List Term → Nat
  | [] => 0
  | term :: terms => max (nesting term) (nestings terms)

end

mutual

/-- The height of the expression of a term. -/
def height : Term → Nat
  | .blank | .text _ | .number _ | .boolean _ => 1
  | .field f => if f.property?.isSome then 2 else 1
  | .group inner => height inner
  | .between _ left right => 1 + max (height left) (height right)
  | .call _ arguments => 1 + max 1 (heights arguments)

/-- The height of the tallest expression of some terms. -/
def heights : List Term → Nat
  | [] => 0
  | term :: terms => max (height term) (heights terms)

end

/-! ## Categories -/

/-- The levels of binary signs from that of an operator on. -/
def levelsOf (op : Operator) : List (List Sign) :=
  binaryLevels.dropWhile fun signs => !op.sign?.any (· ∈ signs)

/-- The category of a term. -/
def category (term : Term) : Category :=
  match term.operator? with
  | some op => .binary (levelsOf op)
  | none => .unary

lemma derives_of_suffix {tighter levels : List (List Sign)} {n : Nat} {ts : List Token} {e : Expr}
    (hsuffix : tighter <:+ levels) (h : Derives (.binary tighter) n ts e) :
    Derives (.binary levels) n ts e := by
  obtain ⟨looser, rfl⟩ := hsuffix
  induction looser with
  | nil => exact h
  | cons signs looser ih => exact .level ih

/-- Every term is an expression, whatever its operator. -/
lemma derives_choice {term : Term} {n : Nat} {ts : List Token} {e : Expr}
    (h : Derives term.category n ts e) : Derives .choice n ts e := by
  refine .test ?_
  unfold category at h
  split at h
  · exact derives_of_suffix (List.dropWhile_suffix _) h
  · exact h.of_unary binaryLevels

/-- The level of an operator has its sign. -/
lemma levelsOf_eq {op : Operator} {sign : Sign} (h : op.sign? = some sign) :
    ∃ signs tighter, levelsOf op = signs :: tighter ∧ sign ∈ signs := by
  cases op <;> cases h <;> exact ⟨_, _, rfl, by decide⟩

/-! ## Readings -/

/-- Tokens of the right kinds derive an expression as the term foretells. -/
def HasReading (term : Term) : Prop :=
  ∀ ts : List Token, ts.map Token.kind = term.kinds →
    ∃ e, Derives term.category term.nesting ts e ∧ e.height = term.height ∧ Means e term.tree

lemma HasReading.number (negative : Bool) (m : Magnitude) :
    HasReading (.number (.finite negative m)) := by
  intro ts hts
  rw [kinds, Number.kinds] at hts
  rw [nesting, tree, Number.normal]
  split_ifs at hts ⊢ with hsign
  · obtain ⟨⟨_, place⟩, rest, rfl, rfl, hrest⟩ := List.map_eq_cons_iff.1 hts
    obtain ⟨⟨_, l⟩, rfl, rfl⟩ := List.map_eq_singleton_iff.1 hrest
    refine ⟨_, .signed (by decide) (.applied (.primary .number)), rfl, ?_⟩
    rw [hsign]
    exact .number _ _
  · obtain ⟨⟨_, l⟩, rfl, rfl⟩ := List.map_eq_singleton_iff.1 hts
    rw [Bool.not_eq_true] at hsign
    rw [hsign]
    exact ⟨_, .applied (.primary .number), rfl, .number _ _⟩

/-- The parts of a field mean the field. -/
lemma field_parts (f : Field) : (f.property? = none → Field.ofName? f.name = some f) ∧
    ∀ property ∈ f.property?, Field.hasMembers f.name = true ∧
      Field.member? f.name property = some f := by
  cases f <;> decide +kernel

lemma HasReading.field (f : Field) : HasReading (.field f) := by
  intro ts hts
  obtain ⟨halone, hmember⟩ := field_parts f
  rw [kinds, Field.kinds] at hts
  rw [nesting, height, tree]
  cases hproperty : f.property? with
  | none =>
    rw [hproperty] at hts
    obtain ⟨⟨_, l⟩, rfl, rfl⟩ := List.map_eq_singleton_iff.1 hts
    exact ⟨_, .applied (.primary .field), rfl, .identifier (halone hproperty) l⟩
  | some property =>
    rw [hproperty] at hts
    obtain ⟨⟨_, l⟩, rest, rfl, rfl, hrest⟩ := List.map_eq_cons_iff.1 hts
    obtain ⟨⟨_, point⟩, more, rfl, rfl, hmore⟩ := List.map_eq_cons_iff.1 hrest
    obtain ⟨⟨_, l'⟩, rfl, rfl⟩ := List.map_eq_singleton_iff.1 hmore
    obtain ⟨hobject, hproperty⟩ := hmember property hproperty
    exact ⟨_, .applied (.member (.primary .field)), rfl, .member hobject hproperty l l'⟩

lemma HasReading.group {inner : Term} (h : HasReading inner) : HasReading (.group inner) := by
  intro ts hts
  rw [kinds] at hts
  obtain ⟨⟨_, opening⟩, rest, rfl, rfl, hrest⟩ := List.map_eq_cons_iff.1 hts
  obtain ⟨us, vs, rfl, hus, hvs⟩ := List.map_eq_append_iff.1 hrest
  obtain ⟨⟨_, closing⟩, rfl, rfl⟩ := List.map_eq_singleton_iff.1 hvs
  obtain ⟨e, hderives, hheight, hmeans⟩ := h us hus
  rw [nesting, height, tree]
  refine ⟨_, .applied (.primary (.group (derives_choice hderives))), ?_, hmeans.relocate _⟩
  rw [Grammar.height_relocate, hheight]

lemma ofWord?_of_sign? {op : Operator} {sign : Sign} (h : op.sign? = some sign) :
    Keyword.ofWord? sign.text = some ⟨op, .plain⟩ := by
  cases op <;> cases h <;> rfl

lemma HasReading.between {op : Operator} {left right : Term} (hop : op.isInline = true)
    (hleft : HasReading left) (hright : HasReading right)
    (hsame : ∀ child ∈ left.operator?, child = op) (hapart : right.operator? = none) :
    HasReading (.between op left right) := by
  intro ts hts
  obtain ⟨sign, hsign⟩ := Operator.exists_sign? hop
  obtain ⟨signs, tighter, hlevels, hmem⟩ := levelsOf_eq hsign
  rw [kinds, hsign] at hts
  obtain ⟨us, rest, rfl, hus, hrest⟩ := List.map_eq_append_iff.1 hts
  obtain ⟨⟨_, place⟩, vs, rfl, rfl, hvs⟩ := List.map_eq_cons_iff.1 hrest
  obtain ⟨e, hfirst, hheight, hmeans⟩ := hleft us hus
  obtain ⟨e', hsecond, hheight', hmeans'⟩ := hright vs hvs
  have hfirst : Derives (.binary (signs :: tighter)) left.nesting us e := by
    unfold category at hfirst
    cases hchild : left.operator? with
    | none =>
      rw [hchild] at hfirst
      exact hfirst.of_unary _
    | some child =>
      rw [hchild, hsame child hchild] at hfirst
      rwa [← hlevels]
  have hsecond : Derives (.binary tighter) right.nesting vs e' := by
    rw [category, hapart] at hsecond
    exact hsecond.of_unary tighter
  have hcategory : (Term.between op left right).category = .binary (signs :: tighter) := by
    rw [← hlevels]
    rfl
  rw [hcategory, nesting, height, tree]
  refine ⟨_, .chain hfirst hmem hsecond, ?_, .binary (ofWord?_of_sign? hsign) hmeans hmeans'⟩
  rw [Grammar.height_ofBinary, hheight, hheight']

/-- The arguments of a call, from the first one on. -/
lemma derives_arguments : ∀ (a : Term) (arguments : List Term),
    (∀ b ∈ a :: arguments, HasReading b) → ∀ ts : List Token,
      ts.map Token.kind = kindsOfArguments (a :: arguments) →
        ∃ e es us vs, ts = us ++ vs ∧ Derives .choice a.nesting us e ∧
          DerivesMore (nestings arguments) vs es ∧
            List.Forall₂ (fun e b => e.height = b.height ∧ Means e b.tree) (e :: es)
              (a :: arguments)
  | a, [], h, ts, hts => by
    obtain ⟨e, hderives, hreading⟩ := h a (List.mem_singleton_self a) ts hts
    exact ⟨e, [], ts, [], (List.append_nil ts).symm, derives_choice hderives, .none,
      .cons hreading .nil⟩
  | a, b :: arguments, h, ts, hts => by
    rw [List.forall_mem_cons] at h
    obtain ⟨us, rest, rfl, hus, hrest⟩ := List.map_eq_append_iff.1 hts
    obtain ⟨⟨_, comma⟩, vs, rfl, rfl, hvs⟩ := List.map_eq_cons_iff.1 hrest
    obtain ⟨e, hderives, hreading⟩ := h.1 us hus
    obtain ⟨e', es, vs, ws, rfl, hfirst, hmore, hreadings⟩ :=
      derives_arguments b arguments h.2 vs hvs
    exact ⟨e, e' :: es, us, _, rfl, derives_choice hderives, .some hfirst hmore,
      .cons hreading hreadings⟩

lemma tallest_eq {es : List Expr} {terms : List Term} (least : Nat)
    (h : List.Forall₂ (fun e b => e.height = b.height ∧ Means e b.tree) es terms) :
    Expr.tallest least es = max least (heights terms) := by
  induction h generalizing least with
  | nil => exact (Nat.max_zero least).symm
  | @cons e b es terms hfirst _ ih =>
    have hcons : Expr.tallest least (e :: es) = Expr.tallest (max least e.height) es := rfl
    rw [hcons, ih, hfirst.1, heights, Nat.max_assoc]

lemma forall₂_trees {es : List Expr} {terms : List Term}
    (h : List.Forall₂ (fun e b => e.height = b.height ∧ Means e b.tree) es terms) :
    List.Forall₂ Means es (trees terms) := by
  induction h with
  | nil => exact .nil
  | cons hfirst _ ih => exact .cons hfirst.2 ih

lemma HasReading.call {name : String} {arguments : List Term} {k : Keyword}
    (hword : Keyword.ofWord? name = some k)
    (hcount : k.callArity.admits arguments.length = true)
    (h : ∀ a ∈ arguments, HasReading a) : HasReading (.call name arguments) := by
  intro ts hts
  cases arguments with
  | nil =>
    rw [List.length_nil, Keyword.admits_zero] at hcount
    cases hcount
  | cons a arguments =>
    rw [kinds] at hts
    obtain ⟨⟨_, l⟩, rest, rfl, rfl, hrest⟩ := List.map_eq_cons_iff.1 hts
    obtain ⟨⟨_, opening⟩, more, rfl, rfl, hmore⟩ := List.map_eq_cons_iff.1 hrest
    obtain ⟨us, vs, rfl, hus, hvs⟩ := List.map_eq_append_iff.1 hmore
    obtain ⟨⟨_, closing⟩, rfl, rfl⟩ := List.map_eq_singleton_iff.1 hvs
    obtain ⟨e, es, us, vs, rfl, hfirst, hothers, hreadings⟩ :=
      derives_arguments a arguments h us hus
    obtain ⟨t, ht⟩ : ∃ t, Tree.ofCall? k (a.tree :: trees arguments) = some t := by
      rw [← Option.ne_none_iff_exists', Ne, Lowering.ofCall?_eq_none_iff]
      exact fun hnil => List.cons_ne_nil _ _ hnil.2
    have htree : (Term.call name (a :: arguments)).tree = t := by
      rw [tree, hword]
      exact congrArg (·.getD (.text "")) ht
    have hlength := hreadings.length_eq
    have hderives : Derives .applied (max 0 (nestings (a :: arguments) + 1))
        ([⟨.identifier name, l⟩] ++ ⟨.openParen, opening⟩ :: (us ++ vs ++ [⟨.closeParen, closing⟩]))
        (.ofCall (.identifier name l) (e :: es) closing) :=
      .call (.primary .identifier) (.some hfirst hothers)
    rw [Nat.zero_max] at hderives
    rw [nesting, height, htree]
    refine ⟨_, .applied hderives, ?_,
      .call hword (hlength ▸ hcount) (forall₂_trees hreadings) ht l closing⟩
    rw [Grammar.height_ofCall, tallest_eq _ hreadings]
    rfl

/-- The tokens of a readable term derive an expression of the term's nesting and height that means
the term's tree. -/
lemma Readable.hasReading {term : Term} (h : Readable term) : HasReading term := by
  induction h with
  | text s =>
    intro ts hts
    obtain ⟨⟨_, l⟩, rfl, rfl⟩ := List.map_eq_singleton_iff.1 hts
    exact ⟨_, .applied (.primary .text), rfl, .text s l⟩
  | number negative m => exact .number negative m
  | boolean b =>
    intro ts hts
    obtain ⟨⟨_, l⟩, rfl, rfl⟩ := List.map_eq_singleton_iff.1 hts
    exact ⟨_, .applied (.primary .boolean), rfl, .boolean b l⟩
  | field f => exact .field f
  | group _ ih => exact ih.group
  | between hop _ _ hsame hapart hleft hright => exact .between hop hleft hright hsame hapart
  | call _ hword hcount _ ih => exact .call hword hcount ih

end Term

end FormulaTree
