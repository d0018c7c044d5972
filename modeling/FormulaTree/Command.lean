import FormulaTree.Excerpt
import FormulaTree.Failure
import FormulaTree.Lowering
import FormulaTree.Term

/-!
# Commands

A **command** reads one or more texts, prints lines and then succeeds or fails.  All texts are read
before anything is printed, so a command that cannot read its input prints nothing.

* `lower` prints the tree of a formula;
* `render` prints the formula of a stored tree;
* `check` says which formulas are faulty;
* `roundTrip` writes the tree of a formula as a formula again, and checks that this has the same
  tree.

A line end after a formula is not part of it.  The result is printed either as a text for people,
perhaps with colours, or as JSON.
-/

namespace FormulaTree

/-- Where a text comes from. -/
inductive Source where
  /-- The text is given. -/
  | given (text : String)
  | file (path : String)
  /-- The standard input. -/
  | input
deriving DecidableEq

/-- The source that a command's arguments name: a given text comes before a file, and with neither
there is the standard input. -/
def Source.of (text? path? : Option String) : Source :=
  match text?, path? with
  | some text, _ => .given text
  | none, some path => .file path
  | none, none => .input

/-- What can be read: the files, each by its path, and the standard input. -/
structure Access where
  file : String → Except InputFailure String
  input : Except InputFailure String

/-- Reads the text of a source. -/
def Source.read (access : Access) : Source → Except InputFailure String
  | .given text => .ok text
  | .file path => access.file path
  | .input => access.input

/-- What a command is asked to do. -/
inductive Command where
  | lower (source : Source) (pretty : Bool)
  | render (source : Source) (equals : Bool)
  | check (formulas paths : List String)
  | roundTrip (source : Source)

/-- In which form results are printed. -/
inductive Format where
  | text
  | json
deriving DecidableEq

/-- How results are printed. -/
structure Presentation where
  format : Format
  colours : Bool

/-- What a command prints, line by line, and why it fails, unless it succeeds. -/
structure Report where
  lines : List String
  failure? : Option Failure

namespace Report

/-- All that is printed. -/
def printed (r : Report) : String := String.join (r.lines.map (· ++ "\n"))

/-- Nothing but a failure. -/
def failed (f : Failure) : Report := ⟨[], some f⟩

end Report

namespace Command

/-! ## Input -/

/-- The sources of a check, each under the name it is reported by. -/
def checkSources (formulas paths : List String) : List (String × Source) :=
  let sources := formulas.mapIdx (fun i formula => (s!"argument {i + 1}", Source.given formula)) ++
    paths.map fun path => (path, Source.file path)
  if sources.isEmpty then [("stdin", .input)] else sources

/-- The sources a command reads. -/
def sources : Command → List Source
  | .lower source _ | .render source _ | .roundTrip source => [source]
  | .check formulas paths => (checkSources formulas paths).map (·.2)

/-- Reads the texts of sources that have names. -/
def readAll (access : Access) :
    List (String × Source) → Except InputFailure (List (String × String))
  | [] => .ok []
  | (name, source) :: sources =>
    match source.read access with
    | .error failure => .error failure
    | .ok text => (readAll access sources).map ((name, text) :: ·)

/-- The formula that a text holds. -/
def formulaOf (text : String) : String := String.ofList (Text.trimEnd text.toList)

/-! ## Diagnostics -/

/-- The lines that show a diagnostic of a formula. -/
def showDiagnostic (colours : Bool) (formula : String) (d : Diagnostic) : List String :=
  let head := Style.paint colours (.boldColoured .red) ("error[" ++ d.kind.word ++ "]") ++ ": " ++
    Style.paint colours .bold d.message
  match d.location? with
  | none => [head]
  | some l =>
    let arrow := "  " ++ Style.paint colours (.coloured .blue) "-->" ++ " " ++ l.start.text
    match Excerpt.of? formula.toList l with
    | none => [head, arrow]
    | some x => head :: arrow :: x.shown colours

/-- The lines that show the diagnostics of a formula. -/
def showDiagnostics (colours : Bool) (formula : String) (ds : List Diagnostic) : List String :=
  ds.flatMap (showDiagnostic colours formula)

/-! ## One formula -/

/-- The failure that a lowering is. -/
def failureOf? (l : Lowering) : Option Failure :=
  match l.result with
  | .ok _ => none
  | .error ds => some (.faulty ds)

/-- The layout of JSON that is pretty or not. -/
def layout (pretty : Bool) : Json.Layout := if pretty then Json.pretty else Json.compact

/-- Prints the tree of a formula. -/
def runLower (p : Presentation) (pretty : Bool) (formula : String) : Report :=
  let l := Lowering.ofText formula
  let lines :=
    match p.format, l.result with
    | .json, _ => [l.toJson.textIn (layout pretty)]
    | .text, .ok t => [t.textIn (layout pretty)]
    | .text, .error ds => showDiagnostics p.colours formula ds
  ⟨lines, failureOf? l⟩

/-- Prints the formula of a stored tree. -/
def runRender (p : Presentation) (equals : Bool) (stored : String) : Report :=
  match Tree.ofText stored with
  | .error cause => .failed (.stored cause)
  | .ok t =>
    let formula := t.formula equals
    match p.format with
    | .text => ⟨[formula], none⟩
    | .json => ⟨[(Json.object [("formula", .text formula)]).textIn Json.compact], none⟩

/-- Writes the tree of a formula as a formula again, and compares the trees. -/
def runRoundTrip (p : Presentation) (formula : String) : Report :=
  let first := Lowering.ofText formula
  match first.result with
  | .error ds =>
    let lines :=
      match p.format with
      | .text => showDiagnostics p.colours formula ds
      | .json => [first.toJson.textIn Json.pretty]
    ⟨lines, some (.faulty ds)⟩
  | .ok t =>
    let rendered := t.formula false
    let stable := (Lowering.ofText rendered).agrees t
    let verdict :=
      if stable then Style.paint p.colours (.coloured .green) "✅ Round-trip stable"
      else Style.paint p.colours (.boldColoured .red) "❌ Round-trip changed the tree"
    let report := Json.object
      [("formula", .text formula), ("rendered", .text rendered), ("stable", .boolean stable)]
    let lines :=
      match p.format with
      | .text => [rendered, verdict]
      | .json => [report.textIn Json.pretty]
    ⟨lines, if stable then none
      else some (.invalid ("round-trip of '" ++ formula ++ "' produced a different tree"))⟩

/-! ## Many formulas -/

/-- A formula that was checked. -/
structure Checked where
  source : String
  formula : String
  lowering : Lowering

namespace Checked

/-- Checks a text. -/
def ofText (source text : String) : Checked :=
  let formula := formulaOf text
  ⟨source, formula, .ofText formula⟩

/-- The JSON value of a checked formula. -/
def toJson (c : Checked) : Json :=
  .object [("source", .text c.source), ("formula", .text c.formula),
    ("ok", .boolean c.lowering.isOk),
    ("diagnostics", .array (c.lowering.diagnostics.map Diagnostic.toJson))]

/-- The lines that show a checked formula. -/
def shown (colours : Bool) (c : Checked) : List String :=
  let name := Style.paint colours .bold c.source
  if c.lowering.isOk then [Style.paint colours (.coloured .green) "✅" ++ " " ++ name]
  else (Style.paint colours (.coloured .red) "❌" ++ " " ++ name) ::
    showDiagnostics colours c.formula c.lowering.diagnostics

end Checked

/-- How many of the formulas that were checked are faulty, in words. -/
def verdict (failed total : Nat) : String := s!"{failed} of {total} formula(s) failed"

/-- Says which of some named texts are faulty formulas. -/
def runCheck (p : Presentation) (texts : List (String × String)) : Report :=
  let checked := texts.map fun t => Checked.ofText t.1 t.2
  let failed := checked.countP fun c => !c.lowering.isOk
  let total := checked.length
  let conclusion :=
    if failed = 0 then
      Style.paint p.colours (.boldColoured .green) s!"✅ All {total} formula(s) are valid!"
    else Style.paint p.colours (.boldColoured .red) ("❌ " ++ verdict failed total)
  let lines :=
    match p.format with
    | .text =>
      Style.paint p.colours (.boldColoured .green) "🔍 Checking formulas" :: "" ::
        (checked.flatMap (Checked.shown p.colours) ++ ["", conclusion])
    | .json => [(Json.array (checked.map Checked.toJson)).textIn Json.pretty]
  ⟨lines, if failed = 0 then none else some (.invalid (verdict failed total))⟩

/-! ## All commands -/

/-- Reads a source and goes on with its text. -/
def withText (access : Access) (source : Source) (go : String → Report) : Report :=
  match source.read access with
  | .error failure => .failed (.input failure)
  | .ok text => go text

/-- Executes a command. -/
def run (access : Access) (p : Presentation) : Command → Report
  | .lower source pretty => withText access source fun text => runLower p pretty (formulaOf text)
  | .render source equals => withText access source (runRender p equals)
  | .roundTrip source => withText access source fun text => runRoundTrip p (formulaOf text)
  | .check formulas paths =>
    match readAll access (checkSources formulas paths) with
    | .error failure => .failed (.input failure)
    | .ok texts => runCheck p texts

end Command

end FormulaTree
