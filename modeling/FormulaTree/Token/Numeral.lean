import FormulaTree.Number.Text

/-!
# Numerals

A formula writes a number as a run of digits, perhaps a point and more digits, perhaps an
exponent.  `Numeral` holds what was written and `Numeral.read` takes the longest numeral off the
front of a text; whether it has a value, for the digits of an exponent may be missing, is a
separate question.
-/

namespace FormulaTree

/-- The exponent of a numeral as written. -/
structure Numeral.Exponent where
  mark : Char
  sign? : Option Char
  digits : List Char

/-- A decimal numeral as written. -/
structure Numeral where
  whole : List Char
  /-- The digits after the point, if there is a point. -/
  fraction? : Option (List Char)
  exponent? : Option Numeral.Exponent

namespace Numeral

/-- A point and the digits after it. -/
def fractionText : Option (List Char) → List Char
  | none => []
  | some digits => '.' :: digits

/-- The characters of an exponent. -/
def exponentText : Option Exponent → List Char
  | none => []
  | some e => e.mark :: (e.sign?.toList ++ e.digits)

/-- The characters of a numeral. -/
def text (n : Numeral) : List Char :=
  n.whole ++ (fractionText n.fraction? ++ exponentText n.exponent?)

/-- Takes a point and the digits after it off the front of a text. -/
def readFraction : List Char → Option (List Char) × List Char
  | '.' :: cs => (some (cs.takeWhile Char.isDigit), cs.dropWhile Char.isDigit)
  | cs => (none, cs)

/-- Takes a sign off the front of a text. -/
def readSign : List Char → Option Char × List Char
  | '+' :: cs => (some '+', cs)
  | '-' :: cs => (some '-', cs)
  | cs => (none, cs)

/-- Takes an exponent off the front of a text. -/
def readExponent : List Char → Option Exponent × List Char
  | [] => (none, [])
  | c :: cs =>
    if c = 'e' ∨ c = 'E' then
      let signed := readSign cs
      (some ⟨c, signed.1, signed.2.takeWhile Char.isDigit⟩, signed.2.dropWhile Char.isDigit)
    else (none, c :: cs)

/-- Takes the longest numeral off the front of a text. -/
def read (cs : List Char) : Numeral × List Char :=
  let fraction := readFraction (cs.dropWhile Char.isDigit)
  let exponent := readExponent fraction.2
  (⟨cs.takeWhile Char.isDigit, fraction.1, exponent.1⟩, exponent.2)

/-- The power of ten that an exponent stands for; one without digits has none. -/
def exponentValue? : Option Exponent → Option Int
  | none => some 0
  | some e =>
    if e.digits = [] then none
    else if e.sign? = some '-' then some (-(valueOf e.digits : Int))
    else some (valueOf e.digits)

/-- The number that a numeral stands for. -/
def value? (n : Numeral) : Option Number :=
  let fraction := n.fraction?.getD []
  if n.whole = [] ∧ fraction = [] then none
  else
    (exponentValue? n.exponent?).map fun e =>
      Number.ofDecimal false (valueOf (n.whole ++ fraction)) (e - fraction.length)

/-! ## Nothing is lost -/

theorem readFraction_text (cs : List Char) :
    fractionText (readFraction cs).1 ++ (readFraction cs).2 = cs := by
  fun_cases readFraction cs <;> simp [fractionText, List.takeWhile_append_dropWhile]

theorem readSign_text (cs : List Char) :
    (readSign cs).1.toList ++ (readSign cs).2 = cs := by
  fun_cases readSign cs <;> simp

theorem readExponent_text (cs : List Char) :
    exponentText (readExponent cs).1 ++ (readExponent cs).2 = cs := by
  fun_cases readExponent cs with
  | case1 => rfl
  | case2 c cs =>
    simpa [exponentText, List.takeWhile_append_dropWhile] using readSign_text cs
  | case3 => rfl

/-- The numeral and what comes after it make up the text. -/
theorem read_text (cs : List Char) : (read cs).1.text ++ (read cs).2 = cs := by
  simp only [read, text, List.append_assoc]
  rw [readExponent_text, readFraction_text, List.takeWhile_append_dropWhile]

/-- Where a digit or a point comes first, the numeral takes it. -/
theorem read_text_ne_nil {c : Char} (cs : List Char) (h : c.isDigit = true ∨ c = '.') :
    (read (c :: cs)).1.text ≠ [] := by
  by_cases digit : c.isDigit = true
  · simp [read, text, digit]
  · obtain rfl := h.resolve_left digit
    simp [read, text, readFraction, fractionText, digit]

end Numeral

end FormulaTree
