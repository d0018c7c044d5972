import FormulaTree.Json.Basic
import FormulaTree.Text.Hex

/-!
# Writing JSON text

A value can be written without any blanks or with one item on each line.  A `Layout` says which
blanks to put where, and `Json.write` is one function for both.
-/

namespace FormulaTree.Json

/-- Where blanks are put. -/
structure Layout where
  /-- What comes before an item that is so many levels down, and before the bracket that closes
  the level above. -/
  newline : Nat → List Char
  /-- What comes between the name and the value of a member. -/
  colon : List Char

/-- No blanks. -/
def compact : Layout := ⟨fun _ => [], [':']⟩

/-- Each item on a line of its own, two spaces further in than the brackets around it. -/
def pretty : Layout := ⟨fun depth => '\n' :: List.replicate (2 * depth) ' ', [':', ' ']⟩

/-- A character as it is written between quotes. -/
def escape (c : Char) : List Char :=
  match c with
  | '"' => ['\\', '"']
  | '\\' => ['\\', '\\']
  | '\x08' => ['\\', 'b']
  | '\t' => ['\\', 't']
  | '\n' => ['\\', 'n']
  | '\x0c' => ['\\', 'f']
  | '\r' => ['\\', 'r']
  | c => if c.toNat < 0x20 then '\\' :: 'u' :: Text.hexDigits 4 c.toNat else [c]

/-- A text between quotes. -/
def quote (s : String) : List Char := '"' :: (s.toList.flatMap escape ++ ['"'])

mutual

/-- The text of a value that is so many levels down. -/
def write (layout : Layout) (depth : Nat) : Json → List Char
  | .null => "null".toList
  | .boolean true => "true".toList
  | .boolean false => "false".toList
  | .number n => n.jsonText
  | .text s => quote s
  | .array [] => ['[', ']']
  | .array (item :: items) =>
    '[' :: (layout.newline (depth + 1) ++ (write layout (depth + 1) item ++
      (writeItems layout (depth + 1) items ++ (layout.newline depth ++ [']']))))
  | .object [] => ['{', '}']
  | .object ((name, value) :: members) =>
    '{' :: (layout.newline (depth + 1) ++ (quote name ++ (layout.colon ++
      (write layout (depth + 1) value ++
        (writeMembers layout (depth + 1) members ++ (layout.newline depth ++ ['}']))))))

/-- The text of the items after the first. -/
def writeItems (layout : Layout) (depth : Nat) : List Json → List Char
  | [] => []
  | item :: items =>
    ',' :: (layout.newline depth ++ (write layout depth item ++ writeItems layout depth items))

/-- The text of the members after the first. -/
def writeMembers (layout : Layout) (depth : Nat) : List (String × Json) → List Char
  | [] => []
  | (name, value) :: members =>
    ',' :: (layout.newline depth ++ (quote name ++ (layout.colon ++
      (write layout depth value ++ writeMembers layout depth members))))

end

/-- The text of a value in a layout. -/
def textIn (layout : Layout) (j : Json) : String := String.ofList (write layout 0 j)

end FormulaTree.Json
