import FormulaTree.Number.Basic

/-!
# The number nearest to a decimal

Text gives numbers in decimal notation, and few decimals are numbers exactly.  `Number.ofRatio`
takes a quotient of natural numbers to the nearest number, and of two equally near ones to the
one with an even significand; a quotient too large for any finite number becomes infinite.
`Number.ofDecimal` does the same for a decimal.
-/

namespace FormulaTree

/-- The whole number nearest to `num / den`; a half goes to the even neighbour. -/
def nearestEven (num den : Nat) : Nat :=
  let low := num / den
  let rest := num % den
  if 2 * rest < den then low
  else if den < 2 * rest then low + 1
  else if low % 2 = 0 then low
  else low + 1

namespace Number

/-- The number nearest to `num / den` steps of `2 ^ -1074`. -/
def ofRatio (negative : Bool) (num den : Nat) : Number :=
  let exponent := (num / den).log2 - 52
  let rounded := nearestEven num (den * Nat.pow 2 exponent)
  -- Rounding up may reach the next power of two.
  let (significand, exponent) :=
    if rounded = Nat.pow 2 53 then (Nat.pow 2 52, exponent + 1) else (rounded, exponent)
  if h : Canonical significand exponent then
    .finite negative ⟨significand, exponent, h⟩
  else .infinite negative

/-- The number nearest to `digits * 10 ^ exponent`.

Exponents out of reach are answered without computing the power: from `10 ^ 400` on everything
is infinite, and what is below `10 ^ -399` is nothing. -/
def ofDecimal (negative : Bool) (digits : Nat) (exponent : Int) : Number :=
  if digits = 0 then .finite negative .zero
  else if 400 < exponent then .infinite negative
  else if exponent + 400 + digits.log2 < 0 then .finite negative .zero
  else
    match exponent with
    | .ofNat e => ofRatio negative (digits * Nat.pow 10 e * Magnitude.stepsPerUnit) 1
    | .negSucc e => ofRatio negative (digits * Magnitude.stepsPerUnit) (Nat.pow 10 (e + 1))

/-- The number nearest to a natural number. -/
def ofNat (n : Nat) : Number := ofDecimal false n 0

end Number

end FormulaTree
