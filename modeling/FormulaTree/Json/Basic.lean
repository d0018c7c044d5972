import FormulaTree.Number.Text

/-!
# JSON values

Stored trees, and the machine-readable answers of the command line, are JSON texts.  Members of an
object keep their order, and a name may occur more than once.
-/

namespace FormulaTree

/-- A JSON value. -/
inductive Json where
  | null
  | boolean (value : Bool)
  | number (value : Number)
  | text (value : String)
  | array (items : List Json)
  | object (members : List (String × Json))

namespace Json

/-- A natural number as a value. -/
def ofNat (n : Nat) : Json := .number (.ofNat n)

end Json

end FormulaTree
