import FormulaTree.Json.Basic
import FormulaTree.Position

/-!
# Diagnostics

A **diagnostic** is one problem with a formula: its kind, a message, and where in the text it is.
One without a location is about the formula as a whole.
-/

namespace FormulaTree

namespace Diagnostic

/-- The kinds of problems. -/
inductive Kind where
  /-- The text is not a formula. -/
  | malformed
  | unknownFunction
  | unknownOperator
  /-- A call with too few or too many arguments. -/
  | arity
  | unknownIdentifier
  | unknownProperty
  | multipleTopLevel
  /-- A formula for which there is no tree. -/
  | unsupported
  | internal
deriving DecidableEq

namespace Kind

/-- Every kind, once. -/
def all : List Kind :=
  [.malformed, .unknownFunction, .unknownOperator, .arity, .unknownIdentifier, .unknownProperty,
   .multipleTopLevel, .unsupported, .internal]

/-- The word for a kind. -/
def word : Kind → String
  | .malformed => "syntax"
  | .unknownFunction => "unknown_function"
  | .unknownOperator => "unknown_operator"
  | .arity => "arity"
  | .unknownIdentifier => "unknown_identifier"
  | .unknownProperty => "unknown_property"
  | .multipleTopLevel => "multiple_top_level_expressions"
  | .unsupported => "unsupported_syntax"
  | .internal => "internal"

/-- Whether a kind says that an operator is not known, by whichever word it was named. -/
def isUnknownOperator (k : Kind) : Bool := k matches .unknownFunction | .unknownOperator

end Kind

end Diagnostic

/-- One problem with a formula. -/
structure Diagnostic where
  kind : Diagnostic.Kind
  message : String
  location? : Option Location

namespace Diagnostic

/-! ## The problems -/

/-- The text cannot be read, for the reason given. -/
def malformed (reason : String) (l : Location) : Diagnostic := ⟨.malformed, reason, some l⟩

/-- No function has this name. -/
def unknownFunction (name : String) (l : Location) : Diagnostic :=
  ⟨.unknownFunction, "Unknown Function: " ++ name, some l⟩

/-- No operator has this sign. -/
def unknownOperator (sign : String) (l : Location) : Diagnostic :=
  ⟨.unknownOperator, "Unknown Operator: " ++ sign, some l⟩

/-- No field has this name. -/
def unknownIdentifier (name : String) (l : Location) : Diagnostic :=
  ⟨.unknownIdentifier, "Unknown Identifier: " ++ name, some l⟩

/-- The object has no property with this name. -/
def unknownProperty (name : String) (l : Location) : Diagnostic :=
  ⟨.unknownProperty, "Unknown Property: " ++ name, some l⟩

/-- No tree stands for an expression of this form. -/
def unsupported (l : Location) : Diagnostic := ⟨.unsupported, "Unknown Syntax", some l⟩

/-- There is a second formula in the text. -/
def multipleTopLevel (l : Location) : Diagnostic :=
  ⟨.multipleTopLevel, "only one top-level expression, nesting is allowed", some l⟩

/-! ## Writing a diagnostic -/

/-- The message and where the problem is. -/
def text (d : Diagnostic) : String :=
  match d.location? with
  | none => d.message
  | some l => d.message ++ " (at " ++ l.start.text ++ ")"

end Diagnostic

/-! ## As JSON -/

/-- The JSON value of a position. -/
def Position.toJson (p : Position) : Json :=
  .object [("line", .ofNat p.line), ("column", .ofNat p.column)]

/-- The JSON value of a location. -/
def Location.toJson (l : Location) : Json :=
  .object [("start", l.start.toJson), ("end", l.stop.toJson)]

/-- The JSON value of a diagnostic; without a location it has no such member. -/
def Diagnostic.toJson (d : Diagnostic) : Json :=
  .object ([("kind", .text d.kind.word), ("message", .text d.message)] ++
    d.location?.toList.map fun l => ("location", l.toJson))

end FormulaTree
