/-!
# Lines of a text

A line ends with a line feed, which may follow a carriage return; the last line need not end.  So
there is no line after a final line feed, and the empty text has no lines at all.
-/

namespace FormulaTree.Text

/-- The lines of a text, without what ends them. -/
def lines : List Char → List (List Char)
  | [] => []
  | '\n' :: cs => [] :: lines cs
  | '\r' :: '\n' :: cs => [] :: lines cs
  | c :: cs =>
    match lines cs with
    | [] => [[c]]
    | line :: others => (c :: line) :: others

/-- Whether a character is part of the end of a line. -/
def isLineEnd (c : Char) : Bool := c == '\n' || c == '\r'

/-- A text without the line ends after its last other character. -/
def trimEnd (cs : List Char) : List Char := (cs.reverse.dropWhile isLineEnd).reverse

end FormulaTree.Text
