/-!
# Numbers

A number of the formula language is a binary floating-point value with 53 significant bits and
64 bits in all.  A formula never computes with its numbers: they are read, negated, compared and
written.  So a finite number is held exactly, as a sign and a whole multiple of the least
positive value `2 ^ -1074`, and everything below is arithmetic of natural numbers.

## Magnitudes

A magnitude is `significand * 2 ^ exponent` steps of size `2 ^ -1074`.  `Canonical` picks one
such pair for each value, so two magnitudes have the same value just when they are equal.

## Equality

`Number.beq` is the equality of numbers as values: the two zeros are equal, and what is not a
number equals nothing.
-/

namespace FormulaTree

/-- The pairs of significand and exponent that stand for a magnitude: at most 53 bits, no
overflow, and no smaller exponent for the same value. -/
def Canonical (significand exponent : Nat) : Prop :=
  significand < Nat.pow 2 53 ∧ exponent ≤ 2045 ∧
    (exponent = 0 ∨ Nat.pow 2 52 ≤ significand)

instance (significand exponent : Nat) : Decidable (Canonical significand exponent) :=
  inferInstanceAs (Decidable (_ ∧ _ ∧ _))

/-- The size of a finite number: `significand * 2 ^ exponent` steps of `2 ^ -1074`. -/
structure Magnitude where
  significand : Nat
  exponent : Nat
  canonical : Canonical significand exponent
deriving DecidableEq

namespace Magnitude

/-- How many steps of `2 ^ -1074` make up one. -/
def stepsPerUnit : Nat := Nat.pow 2 1074

/-- The size in steps of `2 ^ -1074`. -/
def steps (m : Magnitude) : Nat := m.significand * Nat.pow 2 m.exponent

/-- Nothing at all. -/
def zero : Magnitude := ⟨0, 0, by decide⟩

/-- The whole number that a magnitude is, if it is one. -/
def toNat? (m : Magnitude) : Option Nat :=
  if m.steps % stepsPerUnit = 0 then some (m.steps / stepsPerUnit) else none

end Magnitude

/-- A number of the formula language. -/
inductive Number where
  | finite (negative : Bool) (magnitude : Magnitude)
  | infinite (negative : Bool)
  | notANumber
deriving DecidableEq

namespace Number

/-- The number with the other sign. -/
def negate : Number → Number
  | .finite negative m => .finite (!negative) m
  | .infinite negative => .infinite (!negative)
  | .notANumber => .notANumber

/-- Whether a number is neither infinite nor undefined. -/
def isFinite : Number → Bool
  | .finite _ _ => true
  | _ => false

/-- Equality of values. -/
def beq : Number → Number → Bool
  | .finite s m, .finite t n => m.significand == n.significand && m.exponent == n.exponent &&
      (s == t || m.significand == 0)
  | .infinite s, .infinite t => s == t
  | _, _ => false

/-- The whole number below a limit in size that a number is, as a sign and a size, if it is
one.  Zero has no sign here. -/
def wholeBelow? (limit : Nat) : Number → Option Int
  | .finite negative m =>
    match m.toNat? with
    | some n => if n < limit then some (if negative then -(n : Int) else n) else none
    | none => none
  | _ => none

end Number

end FormulaTree
