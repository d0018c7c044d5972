import FormulaTree.Proofs.Lowering.Meaning

/-!
# First match

The arguments of an `IF` are pairs of a condition and its result, and perhaps a default after the
last pair.  Those of a `SWITCH` are a value, the pivot, and then pairs of a case and its result, and
perhaps a default.  `Tree.Cases` is a list of arguments read in this way.

* Each list of arguments that `IF` or `SWITCH` takes is read so, with nothing left over
  (`exists_arguments_eq`), and the tree of the call has one ternary for each pair
  (`ofCall?_arguments`).
* Whoever evaluates a ternary by its test finds the result of the first pair whose test holds, or
  the default if none does (`isFirstMatch_tree`).

Nothing else is asked of an evaluator: it may give any meaning to the other operators, and hold
for true whatever it likes.
-/

namespace FormulaTree.Tree

/-- The arguments of `IF` or `SWITCH`, by what they are for. -/
structure Cases where
  /-- The value that the cases of a `SWITCH` are compared with. -/
  pivot? : Option Tree
  /-- The conditions, or cases, each with its result. -/
  pairs : List (Tree × Tree)
  default? : Option Tree

namespace Cases

/-- Pairs as a list of arguments. -/
def flat (pairs : List (Tree × Tree)) : List Tree := pairs.flatMap fun p => [p.1, p.2]

/-- A ternary for each pair, in the place of the third operand of the ternary for the pair before
it, and the default in that of the last one. -/
def ternaries (test : Tree → Tree) (default : Tree) (pairs : List (Tree × Tree)) : Tree :=
  pairs.foldr (fun p alternate => .operation .ternary [test p.1, p.2, alternate]) default

/-- The arguments in order. -/
def arguments (c : Cases) : List Tree := c.pivot?.toList ++ (flat c.pairs ++ c.default?.toList)

/-- The test of a condition or case. -/
def test (c : Cases) (condition : Tree) : Tree :=
  match c.pivot? with
  | none => condition
  | some pivot => .operation .equal [pivot, condition]

/-- The default, which is the empty text unless it is given. -/
def default (c : Cases) : Tree := c.default?.getD (.text "")

/-- The tree of a call with these arguments. -/
def tree (c : Cases) : Tree := ternaries c.test c.default c.pairs

/-- The arguments are for a call that is spelled so: there is a pivot just for `SWITCH`. -/
def IsSpelled (c : Cases) : Spelling → Prop
  | .switch => ∃ pivot, c.pivot? = some pivot
  | .conditional => c.pivot? = none
  | .plain => False

/-! ## Reading arguments -/

lemma flat_cons (p : Tree × Tree) (pairs : List (Tree × Tree)) :
    flat (p :: pairs) = p.1 :: p.2 :: flat pairs := by
  simp [flat]

/-- Arguments are taken two at a time, and one that is left over is the default. -/
lemma exists_flat_eq : ∀ ts : List Tree, ∃ pairs default?,
    flat pairs ++ Option.toList default? = ts
  | [] => ⟨[], none, rfl⟩
  | [default] => ⟨[], some default, rfl⟩
  | condition :: result :: rest => by
    obtain ⟨pairs, default?, rfl⟩ := exists_flat_eq rest
    refine ⟨(condition, result) :: pairs, default?, ?_⟩
    rw [flat_cons, List.cons_append, List.cons_append]

/-- Two arguments are a pair at least. -/
lemma ne_nil_of_two_le {pairs : List (Tree × Tree)} {default? : Option Tree}
    (h : 2 ≤ (flat pairs ++ default?.toList).length) : pairs ≠ [] := by
  rintro rfl
  have hlength : default?.toList.length ≤ 1 := by cases default? <;> simp
  rw [flat, List.flatMap_nil, List.nil_append] at h
  omega

/-- Whatever arguments an `IF` or a `SWITCH` takes are cases, one pair at least, and no argument is
left out or comes to stand elsewhere. -/
theorem exists_arguments_eq {k : Keyword} (hk : k.spelling ≠ .plain) {ts : List Tree}
    (hcount : k.callArity.admits ts.length = true) :
    ∃ c : Cases, c.IsSpelled k.spelling ∧ c.pairs ≠ [] ∧ c.arguments = ts := by
  obtain ⟨op, spelling⟩ := k
  cases spelling with
  | plain => exact absurd rfl hk
  | conditional =>
    obtain ⟨pairs, default?, rfl⟩ := exists_flat_eq ts
    have htwo := Arity.admits_atLeast.1 hcount
    exact ⟨⟨none, pairs, default?⟩, rfl, ne_nil_of_two_le htwo, rfl⟩
  | switch =>
    have hthree : 3 ≤ ts.length := Arity.admits_atLeast.1 hcount
    obtain ⟨pivot, rest, rfl⟩ : ∃ pivot rest, ts = pivot :: rest := by
      apply List.exists_cons_of_length_pos
      omega
    obtain ⟨pairs, default?, rfl⟩ := exists_flat_eq rest
    have htwo := Nat.le_of_succ_le_succ hthree
    exact ⟨⟨some pivot, pairs, default?⟩, ⟨pivot, rfl⟩, ne_nil_of_two_le htwo, rfl⟩

/-! ## The tree of a call -/

lemma chain_flat (test : Tree → Tree) (pairs : List (Tree × Tree)) (default? : Option Tree) :
    chain test (flat pairs ++ default?.toList) =
      ternaries test (default?.getD (.text "")) pairs := by
  induction pairs with
  | nil => cases default? <;> rfl
  | cons p pairs ih =>
    rw [flat_cons, List.cons_append, List.cons_append, chain, ih]
    rfl

/-- The tree of a call is the chain of ternaries for its cases. -/
theorem ofCall?_arguments {k : Keyword} {c : Cases} (h : c.IsSpelled k.spelling) :
    ofCall? k c.arguments = some c.tree := by
  obtain ⟨op, spelling⟩ := k
  obtain ⟨pivot?, pairs, default?⟩ := c
  cases spelling with
  | plain => exact h.elim
  | conditional =>
    obtain rfl : pivot? = none := h
    exact congrArg some (chain_flat _ pairs default?)
  | switch =>
    obtain ⟨pivot, rfl⟩ : ∃ pivot, pivot? = some pivot := h
    exact congrArg some (chain_flat _ pairs default?)

/-- What an `IF` or a `SWITCH` means is the chain for the cases that its arguments mean. -/
lemma means_tree {word : String} {k : Keyword} {c : Cases} {es : List Expr}
    (hword : Keyword.ofWord? word = some k) (h : c.IsSpelled k.spelling)
    (hcount : k.callArity.admits es.length = true)
    (hes : List.Forall₂ Lowering.Means es c.arguments) (l l' : Location) :
    Lowering.Means (.ofCall (.identifier word l) es l') c.tree :=
  Lowering.Means.call hword hcount hes (ofCall?_arguments h) l l'

/-! ## Evaluation -/

/-- The value is that of the result of the first pair whose test holds, and that of the default if
no test does. -/
structure IsFirstMatch {α : Type} (ev : Tree → α) (truthy : α → Bool) (c : Cases) (value : α) :
    Prop where
  first : ∀ (i : Nat) (p : Tree × Tree), c.pairs[i]? = some p →
    truthy (ev (c.test p.1)) = true →
    (∀ j < i, ∀ q, c.pairs[j]? = some q → truthy (ev (c.test q.1)) = false) → value = ev p.2
  default : (∀ p ∈ c.pairs, truthy (ev (c.test p.1)) = false) → value = ev c.default

section Evaluation

variable {α : Type} {ev : Tree → α} {truthy : α → Bool}
  (hev : ∀ t a b, ev (.operation .ternary [t, a, b]) = if truthy (ev t) then ev a else ev b)

include hev

lemma ev_ternaries_cons_of_true (test : Tree → Tree) (default : Tree) {p : Tree × Tree}
    (pairs : List (Tree × Tree)) (h : truthy (ev (test p.1)) = true) :
    ev (ternaries test default (p :: pairs)) = ev p.2 :=
  (hev _ _ _).trans (if_pos h)

lemma ev_ternaries_cons_of_false (test : Tree → Tree) (default : Tree) {p : Tree × Tree}
    (pairs : List (Tree × Tree)) (h : truthy (ev (test p.1)) = false) :
    ev (ternaries test default (p :: pairs)) = ev (ternaries test default pairs) :=
  (hev _ _ _).trans (if_neg (by rw [h]; exact Bool.false_ne_true))

/-- Pairs are passed over until a test holds. -/
lemma ev_ternaries_of_first (test : Tree → Tree) (default : Tree) {pairs : List (Tree × Tree)}
    {i : Nat} {p : Tree × Tree} (hp : pairs[i]? = some p) (htrue : truthy (ev (test p.1)) = true)
    (hfalse : ∀ j < i, ∀ q, pairs[j]? = some q → truthy (ev (test q.1)) = false) :
    ev (ternaries test default pairs) = ev p.2 := by
  induction pairs generalizing i with
  | nil => cases hp
  | cons q pairs ih =>
    cases i with
    | zero =>
      obtain rfl : q = p := Option.some.inj hp
      exact ev_ternaries_cons_of_true hev test default pairs htrue
    | succ i =>
      have hq : truthy (ev (test q.1)) = false := hfalse 0 (Nat.succ_pos i) q rfl
      rw [ev_ternaries_cons_of_false hev test default pairs hq]
      apply ih hp
      intro j hj r hr
      exact hfalse (j + 1) (Nat.succ_lt_succ hj) r hr

lemma ev_ternaries_of_forall (test : Tree → Tree) (default : Tree) {pairs : List (Tree × Tree)}
    (hfalse : ∀ p ∈ pairs, truthy (ev (test p.1)) = false) :
    ev (ternaries test default pairs) = ev default := by
  induction pairs with
  | nil => rfl
  | cons p pairs ih =>
    rw [List.forall_mem_cons] at hfalse
    rw [ev_ternaries_cons_of_false hev test default pairs hfalse.1]
    exact ih hfalse.2

theorem isFirstMatch_tree (c : Cases) : c.IsFirstMatch ev truthy (ev c.tree) where
  first _ _ hp htrue hfalse := ev_ternaries_of_first hev c.test c.default hp htrue hfalse
  default hfalse := ev_ternaries_of_forall hev c.test c.default hfalse

end Evaluation

/-- **`IF` and `SWITCH` mean the first match.**  The tree of a call has the value of the first pair
whose test holds, or else of the default.  Any arguments that such a call takes are cases: there is
a ternary for each pair, every argument is in its place, and so it is where the call is lowered. -/
theorem ofCall?_isFirstMatch {α : Type} (ev : Tree → α) (truthy : α → Bool)
    (hev : ∀ t a b, ev (.operation .ternary [t, a, b]) = if truthy (ev t) then ev a else ev b)
    (k : Keyword) :
    (∀ c : Cases, c.IsSpelled k.spelling →
      ∃ t, ofCall? k c.arguments = some t ∧ c.IsFirstMatch ev truthy (ev t)) ∧
    (k.spelling ≠ .plain → ∀ ts : List Tree, k.callArity.admits ts.length = true →
      ∃ c : Cases, c.IsSpelled k.spelling ∧ c.pairs ≠ [] ∧ c.arguments = ts ∧
        ofCall? k ts = some (ternaries c.test c.default c.pairs) ∧
        ∀ word es l l', Keyword.ofWord? word = some k → List.Forall₂ Lowering.Means es ts →
          Lowering.Means (.ofCall (.identifier word l) es l')
            (ternaries c.test c.default c.pairs)) := by
  constructor
  · intro c hspelled
    exact ⟨c.tree, ofCall?_arguments hspelled, isFirstMatch_tree hev c⟩
  · intro hk ts hcount
    obtain ⟨c, hspelled, hpairs, rfl⟩ := exists_arguments_eq hk hcount
    refine ⟨c, hspelled, hpairs, rfl, ofCall?_arguments hspelled, ?_⟩
    intro word es l l' hword hes
    rw [← hes.length_eq] at hcount
    exact means_tree hword hspelled hcount hes l l'

/-! ### An evaluator -/

/-- Whether a tree is the boolean for true. -/
def isTrue : Tree → Bool
  | .boolean b => b
  | _ => false

/-- The value of a tree of ternaries and equalities; all else is its own value. -/
def value : Tree → Tree
  | .operation .ternary [test, result, alternate] =>
    if isTrue (value test) then value result else value alternate
  | .operation .equal [left, right] => .boolean ((value left).beq (value right))
  | t => t

/-- A case that comes twice. -/
def sizes : Cases where
  pivot? := some (.text "m")
  pairs := [(.text "s", .text "small"), (.text "m", .text "medium"), (.text "m", .text "middle")]
  default? := some (.text "large")

/-- No condition that holds, and no default. -/
def unsettled : Cases := ⟨none, [(.boolean false, .text "a"), (.field .me, .text "b")], none⟩

theorem ofCall?_isFirstMatch_sizes :
    (∃ t, ofCall? ⟨.ternary, .switch⟩ sizes.arguments = some t ∧ value t = .text "medium") ∧
    (∃ t, ofCall? ⟨.ternary, .conditional⟩ unsettled.arguments = some t ∧ value t = .text "") ∧
    ∃ c : Cases, c.arguments = sizes.arguments ∧ c.pairs ≠ [] := by
  have hmatch := ofCall?_isFirstMatch value isTrue fun _ _ _ => rfl
  obtain ⟨hswitch, hall⟩ := hmatch ⟨.ternary, .switch⟩
  obtain ⟨t, ht, hfirst⟩ := hswitch sizes ⟨_, rfl⟩
  obtain ⟨u, hu, hnone⟩ := (hmatch ⟨.ternary, .conditional⟩).1 unsettled rfl
  obtain ⟨c, -, hpairs, hc, -⟩ := hall (by decide) sizes.arguments (by decide)
  refine ⟨⟨t, ht, hfirst.first 1 _ rfl rfl ?_⟩, ⟨u, hu, hnone.default ?_⟩, c, hc, hpairs⟩
  · intro j hj q hq
    obtain rfl : j = 0 := Nat.lt_one_iff.1 hj
    obtain rfl := Option.some.inj hq
    rfl
  · simp [unsettled, test, value, isTrue]

end Cases

end FormulaTree.Tree
