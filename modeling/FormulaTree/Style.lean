/-!
# Coloured text

A terminal shows text in a **style** if it comes between two escape sequences: one that turns the
style on, and the reset, which turns all styles off.
-/

namespace FormulaTree

/-- The colours that are used. -/
inductive Colour where
  | red
  | green
  | blue
deriving DecidableEq

/-- The number of a colour in an escape sequence. -/
def Colour.code : Colour → String
  | .red => "31"
  | .green => "32"
  | .blue => "34"

/-- How text is shown. -/
inductive Style where
  | bold
  | coloured (colour : Colour)
  | boldColoured (colour : Colour)
deriving DecidableEq

namespace Style

/-- The numbers of a style in an escape sequence. -/
def code : Style → String
  | .bold => "1"
  | .coloured colour => colour.code
  | .boldColoured colour => "1;" ++ colour.code

/-- The escape sequence that turns a style on. -/
def start (s : Style) : List Char := '\x1b' :: '[' :: (s.code.toList ++ ['m'])

/-- The escape sequence that turns all styles off. -/
def reset : List Char := ['\x1b', '[', '0', 'm']

/-- Turns a style on again after each reset within a text. -/
def resume (s : Style) : List Char → List Char
  | [] => []
  | '\x1b' :: '[' :: '0' :: 'm' :: cs => reset ++ (s.start ++ resume s cs)
  | c :: cs => c :: resume s cs

/-- A text in a style, or as it is if there are no colours. -/
def paint (colours : Bool) (s : Style) (text : String) : String :=
  if colours then String.ofList (s.start ++ (s.resume text.toList ++ reset)) else text

end Style

end FormulaTree
