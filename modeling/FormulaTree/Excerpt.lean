import FormulaTree.Position
import FormulaTree.Style
import FormulaTree.Text.Lines

/-!
# Excerpts

An **excerpt** shows a location: the line it starts on, and carets under the part of that line that
it covers.
-/

namespace FormulaTree

/-- A line with carets under a part of it. -/
structure Excerpt where
  /-- The number of the line, from one. -/
  number : Nat
  line : List Char
  /-- How many characters come before the first caret. -/
  indent : Nat
  carets : Nat
deriving DecidableEq

namespace Excerpt

/-- The excerpt that shows a location, if there is such a line.  A location that goes on to a later
line is shown up to the end of the line, and one that covers nothing gets a caret all the same. -/
def of? (text : List Char) (l : Location) : Option Excerpt :=
  match l.start.line with
  | 0 => none
  | n + 1 =>
    (Text.lines text)[n]?.map fun line =>
      let start := min l.start.column line.length
      let stop := if l.stop.line = l.start.line then min l.stop.column line.length else line.length
      ⟨n + 1, line, start, max (stop - start) 1⟩

/-- The lines of an excerpt as they are shown. -/
def shown (colours : Bool) (x : Excerpt) : List String :=
  let number := toString x.number
  let gutter := String.ofList (List.replicate number.length ' ')
  let bar := Style.paint colours (.coloured .blue) "|"
  let carets := String.ofList (List.replicate x.carets '^')
  [gutter ++ " " ++ bar,
    Style.paint colours (.coloured .blue) number ++ " " ++ bar ++ " " ++ String.ofList x.line,
    gutter ++ " " ++ bar ++ " " ++ String.ofList (List.replicate x.indent ' ') ++
      Style.paint colours (.coloured .red) carets]

end Excerpt

end FormulaTree
