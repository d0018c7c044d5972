import FormulaTree.Text.Ranges

/-!
# Blank characters

The characters with the Unicode property *White_Space*.  They separate tokens and mean nothing
else.
-/

namespace FormulaTree.Text

/-- The code points with the property *White_Space*. -/
def blankRanges : List (Nat × Nat) :=
  [(0x0009, 0x000D), (0x0020, 0x0020), (0x0085, 0x0085), (0x00A0, 0x00A0), (0x1680, 0x1680),
   (0x2000, 0x200A), (0x2028, 0x2029), (0x202F, 0x202F), (0x205F, 0x205F), (0x3000, 0x3000)]

/-- Whether a character has the property *White_Space*. -/
def isBlank (c : Char) : Bool := inRanges c.toNat blankRanges

end FormulaTree.Text
