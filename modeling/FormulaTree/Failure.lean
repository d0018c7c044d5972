import FormulaTree.Diagnostic
import FormulaTree.Tree.Json

/-!
# Failures of a command

A command fails because it cannot read its input, because the input is not a stored tree, because a
formula is faulty, or because a check has a negative result.
-/

namespace FormulaTree

/-- Why a file, or the standard input, cannot be read. -/
inductive InputFailure where
  | missing
  | directory
  /-- The bytes are not the encoding of a text. -/
  | notText
  | other (message : String)
deriving DecidableEq

/-- The reason in words. -/
def InputFailure.message : InputFailure → String
  | .missing => "No such file or directory (os error 2)"
  | .directory => "Is a directory (os error 21)"
  | .notText => "stream did not contain valid UTF-8"
  | .other message => message

/-- What is wrong with a JSON text that is not a stored tree.  Only for a text that is JSON is
there anything to say. -/
def Tree.ReadError.message? : Tree.ReadError → Option String
  | .notJson _ => none
  | .notATree => some "data did not match any variant of untagged enum RawNode"

/-- Why a command fails. -/
inductive Failure where
  | input (cause : InputFailure)
  | stored (cause : Tree.ReadError)
  | faulty (diagnostics : List Diagnostic)
  | invalid (message : String)

namespace Failure

/-- The first of some diagnostics, and how many more there are. -/
def summary : List Diagnostic → String
  | [] => "no tree produced"
  | [d] => d.text
  | d :: ds => d.text ++ s!" (and {ds.length} more)"

/-- What a failure was caused by. -/
def cause? : Failure → Option String
  | .input cause => some cause.message
  | .stored cause => cause.message?
  | .faulty _ | .invalid _ => none

/-- The failure in words. -/
def text : Failure → String
  | .input cause => "IO error: " ++ cause.message
  | .stored cause =>
    match cause.message? with
    | some message => "JSON parsing error: " ++ message
    | none => "JSON parsing error"
  | .faulty diagnostics => "Translation failed: " ++ summary diagnostics
  | .invalid message => "Validation error: " ++ message

/-- The failure and its cause, as the program reports them. -/
def report (f : Failure) : String :=
  match f.cause? with
  | none => "Error: " ++ f.text
  | some cause => "Error: " ++ f.text ++ "\n\nCaused by:\n    " ++ cause

end Failure

end FormulaTree
