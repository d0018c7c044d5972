/-!
# Sets of characters given by ranges

A property of characters from the Unicode standard is data: an ascending list of disjoint
ranges of code points.  `inRanges` looks a code point up in such a list and stops at the first
range that begins above it.
-/

namespace FormulaTree.Text

/-- Whether a code point lies in one of the ranges of an ascending list; both ends of a range
belong to it. -/
def inRanges (n : Nat) : List (Nat × Nat) → Bool
  | [] => false
  | (low, high) :: rest =>
    if n < low then false
    else if n ≤ high then true
    else inRanges n rest

end FormulaTree.Text
