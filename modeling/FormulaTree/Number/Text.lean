import FormulaTree.Number.Rounding
import FormulaTree.Number.Shortest

/-!
# Numbers as text

Two notations are in use.  A formula, and every message about one, writes a number in
**positional** notation, however large or small it is.  Stored trees are JSON text, which writes
very large and very small numbers in **scientific** notation.

Both print the digits of `Magnitude.shortest`; they differ in where the digits are put and in how
an exact tie between two shortest decimals is broken.
-/

namespace FormulaTree

/-- The digits of a natural number. -/
def digitsOf (n : Nat) : List Char := Nat.toDigits 10 n

/-- The value of a run of decimal digits. -/
def valueOf (digits : List Char) : Nat :=
  digits.foldl (fun n c => 10 * n + (c.toNat - '0'.toNat)) 0

namespace Decimal

/-- The decimal without an exponent: zeros fill the gap between the digits and the point. -/
def positional (d : Decimal) : List Char :=
  let digits := digitsOf d.digits
  match d.exponent with
  | .ofNat e => digits ++ List.replicate e '0'
  | .negSucc e =>
    let places := e + 1
    if places < digits.length then
      digits.take (digits.length - places) ++ '.' :: digits.drop (digits.length - places)
    else '0' :: '.' :: (List.replicate (places - digits.length) '0' ++ digits)

/-- The power of ten of the leading digit. -/
def leadingPower (d : Decimal) : Int := (digitsOf d.digits).length - 1 + d.exponent

/-- The decimal with one digit before the point and a signed exponent. -/
def scientific (d : Decimal) : List Char :=
  let mantissa := match digitsOf d.digits with
    | [] => []
    | [digit] => [digit]
    | digit :: more => digit :: '.' :: more
  let power := match d.leadingPower with
    | .ofNat e => '+' :: digitsOf e
    | .negSucc e => '-' :: digitsOf (e + 1)
  mantissa ++ 'e' :: power

end Decimal

namespace Number

/-- A minus sign where one is due. -/
def signText (negative : Bool) (digits : List Char) : List Char :=
  if negative then '-' :: digits else digits

/-- A whole number. -/
def intText (n : Int) : List Char := signText (n < 0) (digitsOf n.natAbs)

/-- The number in positional notation; of two equally near shortest decimals the larger. -/
def positional : Number → List Char
  | .finite negative m => signText negative (m.shortest .up).positional
  | .infinite negative => signText negative "inf".toList
  | .notANumber => "NaN".toList

/-- Positional notation as messages show it. -/
def text (n : Number) : String := String.ofList n.positional

/-- The bound in size below which a formula writes a whole number as such, so that the two
zeros look alike. -/
def formulaWholeLimit : Nat := Nat.pow 10 15

/-- The number as a formula writes it. -/
def formulaText (n : Number) : List Char :=
  match n.wholeBelow? formulaWholeLimit with
  | some i => intText i
  | none => n.positional

/-- The bound in size below which JSON text writes a whole number as such. -/
def jsonWholeLimit : Nat := Nat.pow 2 53

/-- The number as JSON text.  Leading powers from `-5` to `15` are written positionally, always
with a fraction; of two equally near shortest decimals the one with an even last digit is
taken.  JSON has no word for what is not finite. -/
def jsonText (n : Number) : List Char :=
  match n.wholeBelow? jsonWholeLimit with
  | some i => intText i
  | none =>
    match n with
    | .finite negative m =>
      let d := m.shortest .toEven
      signText negative <|
        if -5 ≤ d.leadingPower ∧ d.leadingPower ≤ 15 then
          if 0 ≤ d.exponent then d.positional ++ ['.', '0'] else d.positional
        else d.scientific
    | _ => "null".toList

end Number

end FormulaTree
