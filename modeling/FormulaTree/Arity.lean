/-!
# How many operands an operator takes

An **arity** is a least number of operands and, unless there is no bound, a greatest one.
-/

namespace FormulaTree

/-- A range of operand counts; without `max?` there is no upper bound. -/
structure Arity where
  min : Nat
  max? : Option Nat
deriving DecidableEq

namespace Arity

/-- Just `n` operands. -/
def exactly (n : Nat) : Arity := ⟨n, some n⟩

/-- From `min` to `max` operands. -/
def between (min max : Nat) : Arity := ⟨min, some max⟩

/-- `min` operands or more. -/
def atLeast (min : Nat) : Arity := ⟨min, none⟩

/-- Whether a count of operands is in the range. -/
def admits (a : Arity) (count : Nat) : Bool :=
  a.min ≤ count &&
    match a.max? with
    | none => true
    | some max => count ≤ max

theorem admits_atLeast {n count : Nat} : (atLeast n).admits count = true ↔ n ≤ count := by
  rw [admits, Bool.and_eq_true, decide_eq_true_iff]
  exact and_iff_left rfl

/-- The range in words. -/
def text (a : Arity) : String :=
  match a.max? with
  | none => s!"at least {a.min} arguments"
  | some max =>
    if max = a.min then
      if max = 1 then s!"{max} argument" else s!"{max} arguments"
    else s!"{a.min}-{max} arguments"

/-- The leading elements of a list up to the upper bound. -/
def clip {α : Type} (a : Arity) (xs : List α) : List α :=
  match a.max? with
  | none => xs
  | some max => xs.take max

end Arity

end FormulaTree
