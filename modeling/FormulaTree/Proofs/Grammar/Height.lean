import FormulaTree.Proofs.Grammar.Placement

/-!
# How high expressions are

Every expression carries its height along.  It is worked out once, from the heights of the parts,
when the expression is built, and is never looked into again; so that it is right is an invariant of
all the ways to build an expression (`Expr.Measured`).

What the height means is said without it: a `Path` leads down from an expression, from part to part,
as far as it goes, and the height is the number of expressions on the longest path.
-/

namespace FormulaTree

namespace Expr

/-! ## Paths -/

/-- A way down from an expression to one without parts, by the expressions that are on it. -/
inductive Path : Expr → List Expr → Prop
  | leaf {e : Expr} (none : e.children = []) : Path e [e]
  | down {e x : Expr} {path : List Expr} (mem : x ∈ e.children) (below : Path x path) :
      Path e (e :: path)

/-- The longest path from an expression has so many expressions on it. -/
structure IsLongest (e : Expr) (n : Nat) : Prop where
  exists_path : ∃ path, e.Path path ∧ path.length = n
  length_le : ∀ path, e.Path path → path.length ≤ n

/-- An expression is the other one or one of its parts, at whatever depth. -/
inductive Holds : Expr → Expr → Prop
  | self (e : Expr) : Holds e e
  | child {e x y : Expr} (mem : x ∈ e.children) (inside : Holds x y) : Holds e y

/-! ## Measured expressions -/

/-- Every part of the expression is one higher than the highest of its own parts. -/
inductive Measured : Expr → Prop
  | intro {e : Expr} (height_eq : e.height = 1 + tallest 0 e.children)
      (below : ∀ x ∈ e.children, Measured x) : Measured e

lemma Measured.height_eq {e : Expr} : e.Measured → e.height = 1 + tallest 0 e.children
  | .intro h _ => h

lemma height_le_tallest {x : Expr} {es : List Expr} (h : x ∈ es) (least : Nat) :
    x.height ≤ tallest least es :=
  (Grammar.tallest_le_iff.1 (le_refl (tallest least es))).2 x h

/-- The height of the tallest is that of one of the list, if it is not the least there may be. -/
lemma tallest_attained (least : Nat) (es : List Expr) :
    tallest least es = least ∨ ∃ e ∈ es, e.height = tallest least es := by
  induction es generalizing least with
  | nil => exact .inl rfl
  | cons e es ih =>
    have hcons : tallest least (e :: es) = tallest (max least e.height) es := rfl
    rw [hcons]
    rcases ih (max least e.height) with heq | ⟨x, hx, heq⟩
    · by_cases hle : e.height ≤ least
      · rw [Nat.max_eq_left hle] at heq ⊢
        exact .inl heq
      · rw [Nat.max_eq_right (Nat.le_of_not_le hle)] at heq ⊢
        exact .inr ⟨e, List.mem_cons_self .., heq.symm⟩
    · exact .inr ⟨x, List.mem_cons_of_mem _ hx, heq⟩

namespace Measured

variable {e x y : Expr}

lemma height_lt (h : e.Measured) (hx : x ∈ e.children) : x.height < e.height := by
  have htallest := height_le_tallest hx 0
  rw [h.height_eq]
  omega

/-- Some path is as long as the expression is high. -/
lemma exists_path (h : e.Measured) : ∃ path, e.Path path ∧ path.length = e.height := by
  induction h with
  | @intro e hheight hbelow ih =>
    by_cases hchildren : e.children = []
    · refine ⟨[e], .leaf hchildren, ?_⟩
      rw [hheight, hchildren]
      rfl
    · have htallest : ∃ x ∈ e.children, x.height = tallest 0 e.children := by
        rcases tallest_attained 0 e.children with hzero | hattained
        · -- A part is at least one high.
          obtain ⟨x, hx⟩ := List.exists_mem_of_ne_nil _ hchildren
          have hle := height_le_tallest hx 0
          have hpos := (hbelow x hx).height_eq
          omega
        · exact hattained
      obtain ⟨x, hx, hmax⟩ := htallest
      obtain ⟨path, hpath, hlength⟩ := ih x hx
      refine ⟨e :: path, .down hx hpath, ?_⟩
      rw [List.length_cons, hlength, hmax, hheight]
      omega

/-- No path is longer than the expression is high. -/
lemma length_le (h : e.Measured) {path : List Expr} (hpath : e.Path path) :
    path.length ≤ e.height := by
  induction hpath with
  | leaf hnone =>
    rw [h.height_eq]
    simp
  | @down e x path hx _ ih =>
    have hlower := h.height_lt hx
    obtain ⟨-, hbelow⟩ := h
    have hlength := ih (hbelow x hx)
    rw [List.length_cons]
    omega

lemma isLongest (h : e.Measured) : e.IsLongest e.height := ⟨h.exists_path, fun _ => h.length_le⟩

/-- What an expression holds is measured too, and not higher. -/
lemma of_holds (h : e.Measured) (hholds : e.Holds x) : x.Measured ∧ x.height ≤ e.height := by
  induction hholds with
  | self => exact ⟨h, le_refl _⟩
  | @child e y x hy _ ih =>
    have hlower := h.height_lt hy
    obtain ⟨-, hbelow⟩ := h
    obtain ⟨hx, hle⟩ := ih (hbelow y hy)
    exact ⟨hx, hle.trans hlower.le⟩

/-! ### One lemma for each way to build an expression -/

lemma leaf (hheight : e.height = 1) (hchildren : e.children = []) : e.Measured := by
  refine .intro ?_ ?_
  · rw [hheight, hchildren]
    rfl
  · simp [hchildren]

lemma relocate (h : e.Measured) (l : Location) : (e.relocate l).Measured := by
  obtain ⟨hheight, hbelow⟩ := h
  refine .intro ?_ ?_
  · rw [Grammar.height_relocate, children_relocate, hheight]
  · rw [children_relocate]
    exact hbelow

lemma call {callee : Expr} {arguments : List Expr} (h : callee.Measured)
    (harguments : ∀ x ∈ arguments, x.Measured) (l : Location) :
    (ofCall callee arguments l).Measured := by
  refine .intro ?_ (List.forall_mem_cons.2 ⟨h, harguments⟩)
  show 1 + tallest callee.height arguments = 1 + tallest (max 0 callee.height) arguments
  rw [Nat.zero_max]

lemma member {object : Expr} (h : object.Measured) (name : String) (l : Location) :
    (ofMember object name l).Measured := by
  refine .intro ?_ (List.forall_mem_singleton.2 h)
  show 1 + object.height = 1 + max 0 object.height
  rw [Nat.zero_max]

/-- A minus sign before a number leaves a number. -/
lemma signed {operand : Expr} (h : operand.Measured) (sign : Sign) (place : Location) :
    (Expr.signed sign place operand).Measured := by
  unfold Expr.signed
  split
  · exact .leaf rfl rfl
  · refine .intro ?_ (List.forall_mem_singleton.2 h)
    show 1 + operand.height = 1 + max 0 operand.height
    rw [Nat.zero_max]

lemma binary {left right : Expr} (hleft : left.Measured) (hright : right.Measured) (sign : Sign) :
    (ofBinary sign left right).Measured := by
  refine .intro ?_ (List.forall_mem_cons.2 ⟨hleft, List.forall_mem_singleton.2 hright⟩)
  show 1 + max left.height right.height = 1 + max (max 0 left.height) right.height
  rw [Nat.zero_max]

lemma conditional {test consequent alternate : Expr} (htest : test.Measured)
    (hyes : consequent.Measured) (hno : alternate.Measured) :
    (ofConditional test consequent alternate).Measured := by
  refine .intro ?_ (List.forall_mem_cons.2
    ⟨htest, List.forall_mem_cons.2 ⟨hyes, List.forall_mem_singleton.2 hno⟩⟩)
  show 1 + max (max test.height consequent.height) alternate.height =
    1 + max (max (max 0 test.height) consequent.height) alternate.height
  rw [Nat.zero_max]

end Measured

end Expr

/-! ## Derivations -/

namespace Grammar

mutual

/-- Every derived expression is measured. -/
lemma Derives.measured {c : Category} {n : Nat} {ts : List Token} {e : Expr} :
    Derives c n ts e → e.Measured
  | .number | .text | .boolean | .identifier | .field => .leaf rfl rfl
  | .group inside => inside.measured.relocate _
  | .call applied inside => .call applied.measured inside.measured _
  | .member applied => .member applied.measured _ _
  | .signed _ inside => .signed inside.measured _ _
  | .chain first _ second => .binary first.measured second.measured _
  | .choice condition yes no => .conditional condition.measured yes.measured no.measured
  | .primary alone | .applied alone | .operand alone | .level alone | .test alone => alone.measured

lemma DerivesArguments.measured {n : Nat} {ts : List Token} {es : List Expr} :
    DerivesArguments n ts es → ∀ e ∈ es, e.Measured
  | .none => by simp
  | .some first others => List.forall_mem_cons.2 ⟨first.measured, others.measured⟩

lemma DerivesMore.measured {n : Nat} {ts : List Token} {es : List Expr} :
    DerivesMore n ts es → ∀ e ∈ es, e.Measured
  | .none => by simp
  | .some first others => List.forall_mem_cons.2 ⟨first.measured, others.measured⟩

end

/-- Every part of a formula has its height, and none is too high. -/
lemma statements_isLongest {ts : List Token} {es : List Expr} {e x : Expr}
    (h : statements ts = .ok es) (he : e ∈ es) (hx : e.Holds x) :
    x.IsLongest x.height ∧ x.height ≤ heightLimit := by
  obtain ⟨n, taken, -, hderives, -, hheight⟩ := statements_derives h e he
  obtain ⟨hmeasured, hle⟩ := hderives.measured.of_holds hx
  exact ⟨hmeasured.isLongest, hle.trans hheight⟩

end Grammar

end FormulaTree
