import FormulaTree.Number.Basic

/-!
# The shortest decimal that reads back

Every number is written with the fewest decimal digits that still single it out, and among
decimals with so few digits by the nearest one.

## Exact arithmetic

A magnitude is a multiple of `2 ^ -1074`, and the borders of the range of decimals that read back
as it lie at quarters of such a step.  Since `2 ^ -1076 = 5 ^ 1076 / 10 ^ 1076`, magnitude and
borders are all whole multiples of `10 ^ -1076`.  In that unit the decimals with a last digit at
place `j` are the multiples of `10 ^ j`, and the search runs from coarse places to fine ones.
For each place only the two neighbours of the magnitude need to be looked at: if any multiple
of `10 ^ j` lies in the range, one of these does.
-/

namespace FormulaTree

/-- The decimal `digits * 10 ^ exponent`. -/
structure Decimal where
  digits : Nat
  exponent : Int
deriving DecidableEq

/-- What to do when two shortest decimals are equally near. -/
inductive Tie where
  | up
  | toEven
deriving DecidableEq

namespace Magnitude

/-- How many units of `10 ^ -1076` make up a quarter of a step of `2 ^ -1074`. -/
def unitsPerQuarter : Nat := Nat.pow 5 1076

/-- The size in units of `10 ^ -1076`. -/
def tiny (m : Magnitude) : Nat := 4 * m.steps * unitsPerQuarter

/-- How far above the magnitude, in units of `10 ^ -1076`, a decimal may lie and still read
back as it: half the distance to the next magnitude. -/
def slackAbove (m : Magnitude) : Nat := 2 * Nat.pow 2 m.exponent * unitsPerQuarter

/-- How far below the magnitude, in units of `10 ^ -1076`, a decimal may lie and still read
back as it.  Below a power of two the magnitudes lie closer together. -/
def slackBelow (m : Magnitude) : Nat :=
  if m.significand = Nat.pow 2 52 ∧ 0 < m.exponent then
    Nat.pow 2 m.exponent * unitsPerQuarter
  else m.slackAbove

/-- Whether `n` units of `10 ^ -1076` read back as the magnitude.  The borders of the range read
back as the neighbour with an even significand. -/
def admits (m : Magnitude) (n : Nat) : Bool :=
  if m.significand % 2 = 0 then
    m.tiny ≤ n + m.slackBelow && n ≤ m.tiny + m.slackAbove
  else
    m.tiny < n + m.slackBelow && n < m.tiny + m.slackAbove

/-- The neighbour of the magnitude among the multiples of `10 ^ place` that reads back as it,
counted in units of `10 ^ place`; of two the nearer. -/
def neighbour? (tie : Tie) (m : Magnitude) (place : Nat) : Option Nat :=
  let unit := Nat.pow 10 place
  let low := m.tiny / unit
  let rest := m.tiny % unit
  match m.admits (low * unit), m.admits ((low + 1) * unit) with
  | true, true =>
    if 2 * rest < unit then some low
    else if unit < 2 * rest then some (low + 1)
    else match tie with
      | .up => some (low + 1)
      | .toEven => some (if low % 2 = 0 then low else low + 1)
  | true, false => some low
  | false, true => some (low + 1)
  | false, false => none

/-- The first hit among places `place`, `place - 1`, …, `0`. -/
def searchFrom (tie : Tie) (m : Magnitude) : Nat → Decimal
  | 0 => ⟨m.tiny, -1076⟩
  | place + 1 =>
    match m.neighbour? tie (place + 1) with
    | some digits => ⟨digits, (place + 1 : Nat) - 1076⟩
    | none => searchFrom tie m place

/-- The shortest decimal that reads back as the magnitude.  The search starts at a place above
the leading digit; `0.30103` bounds the decimal logarithm of two. -/
def shortest (tie : Tie) (m : Magnitude) : Decimal :=
  if m.significand = 0 then ⟨0, 0⟩
  else m.searchFrom tie ((m.tiny.log2 + 1) * 30103 / 100000 + 1)

end Magnitude

end FormulaTree
