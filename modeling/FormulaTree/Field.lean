/-!
# Fields

A **field** is a value that is known only when a tree is put to use: the cell being shown, the
reader, the time, the size of the window.  A stored tree names a field by its token, a text that
begins with `@`; a formula writes the same text, where the part after a dot is a member access.
-/

namespace FormulaTree

/-- The fields a formula may refer to. -/
inductive Field where
  | currentField
  | currentFieldEmail
  | currentFieldId
  | currentFieldTitle
  | currentFieldSip
  | currentFieldPicture
  | currentFieldLookupId
  | currentFieldLookupValue
  | currentFieldDesc
  | me
  | now
  | windowInnerHeight
  | windowInnerWidth
deriving DecidableEq

namespace Field

/-- Every field, once. -/
def all : List Field :=
  [.currentField, .currentFieldEmail, .currentFieldId, .currentFieldTitle, .currentFieldSip,
   .currentFieldPicture, .currentFieldLookupId, .currentFieldLookupValue, .currentFieldDesc,
   .me, .now, .windowInnerHeight, .windowInnerWidth]

/-- The text that names a field. -/
def token : Field → String
  | .currentField => "@currentField"
  | .currentFieldEmail => "@currentField.email"
  | .currentFieldId => "@currentField.id"
  | .currentFieldTitle => "@currentField.title"
  | .currentFieldSip => "@currentField.sip"
  | .currentFieldPicture => "@currentField.picture"
  | .currentFieldLookupId => "@currentField.lookupId"
  | .currentFieldLookupValue => "@currentField.lookupValue"
  | .currentFieldDesc => "@currentField.desc"
  | .me => "@me"
  | .now => "@now"
  | .windowInnerHeight => "@window.innerHeight"
  | .windowInnerWidth => "@window.innerWidth"

/-- The field with a given token. -/
def ofToken? (token : String) : Option Field :=
  all.find? fun field => field.token == token

theorem ofToken?_token (f : Field) : ofToken? f.token = some f := by
  cases f <;> rfl

/-- A text has no field just when it is not the token of one. -/
theorem ofToken?_eq_none_iff {s : String} : ofToken? s = none ↔ ∀ f : Field, s ≠ f.token := by
  have hall (f : Field) : f ∈ all := by cases f <;> decide
  simp only [ofToken?, List.find?_eq_none, beq_iff_eq]
  exact ⟨fun h f hs => h f (hall f) hs.symm, fun h f _ hs => h f hs.symm⟩

/-- The field that a name stands for on its own. -/
def ofName? : String → Option Field
  | "@currentField" => some .currentField
  | "@me" => some .me
  | "@now" => some .now
  | _ => none

/-- Whether a name may be followed by a member access. -/
def hasMembers (name : String) : Bool := name == "@currentField" || name == "@window"

/-- The field that a member access stands for. -/
def member? (name property : String) : Option Field :=
  match name, property with
  | "@currentField", "email" => some .currentFieldEmail
  | "@currentField", "id" => some .currentFieldId
  | "@currentField", "title" => some .currentFieldTitle
  | "@currentField", "sip" => some .currentFieldSip
  | "@currentField", "picture" => some .currentFieldPicture
  | "@currentField", "lookupId" => some .currentFieldLookupId
  | "@currentField", "lookupValue" => some .currentFieldLookupValue
  | "@currentField", "desc" => some .currentFieldDesc
  | "@window", "innerHeight" => some .windowInnerHeight
  | "@window", "innerWidth" => some .windowInnerWidth
  | _, _ => none

end Field

end FormulaTree
