import FormulaTree.Position

/-!
# Reading off the front of a text

A scanner looks at the characters from some place on and takes some of them off.  Its answer is
either a `Scanned` value, with the place it got to and the characters from there on, or a
`ScanError`: why no token can be read, and the stretch of text that is to blame.
-/

namespace FormulaTree

/-- A value read off the front of a text, and what comes after it. -/
structure Scanned (α : Type) where
  value : α
  position : Position
  rest : List Char

namespace Scanned

/-- The same reading with another value. -/
def map {α β : Type} (f : α → β) (s : Scanned α) : Scanned β := ⟨f s.value, s.position, s.rest⟩

end Scanned

/-- Why a text is not a run of tokens. -/
inductive ScanError.Cause where
  | unterminatedText
  | unterminatedComment
  | invalidEscape
  | invalidNumber (written : List Char)
  | unexpectedCharacter (c : Char)
  /-- A single equals sign: it would assign, and a formula cannot. -/
  | assignment
deriving DecidableEq

/-- Why a text is not a run of tokens, and where. -/
structure ScanError where
  cause : ScanError.Cause
  location : Location
deriving DecidableEq

namespace ScanError

/-- The cause in words. -/
def Cause.message : Cause → String
  | .unterminatedText => "Unterminated string literal"
  | .unterminatedComment => "Unterminated comment"
  | .invalidEscape => "Invalid escape sequence"
  | .invalidNumber written => s!"Invalid number: {String.ofList written}"
  | .unexpectedCharacter c => s!"Unexpected character: '{c}'"
  | .assignment => "Unexpected character: '=' (use '==' to compare values)"

/-- The error in words, with the place where it begins. -/
def text (e : ScanError) : String :=
  s!"Tokenize error at {e.location.start.text}: {e.cause.message}"

end ScanError

end FormulaTree
