import FormulaTree.Command

/-!
# The command line

The arguments of the program are options, then the name of a command, then the options and the
words of that command.  Some options may stand on either side of the name; given on both sides, the
inner one counts.  On one side an option may be given once only, except that a check may read many
files.

## Options

A long option is written `--name`, and one that takes a value `--name=value` or `--name value`.  A
short option is written `-n`, and `-nvalue`, `-n=value` or `-n value` with a value; short options
can be written together, as in `-pf path`.  A value in an argument of its own must not look like
an option.  After `--` all arguments are words.

Arguments are taken from left to right, and the first that is wrong decides; but if the version is
asked for before that, the rest is not looked at.

## Defaults

The environment may give the format and the choice of colours.  It stands in for the option on each
side of the name where the option is not given, and must then hold one of its values, even if the
option on the other side overrides it.  Only an option given on both sides leaves it unread.
-/

namespace FormulaTree

/-- When to use colours. -/
inductive ColourChoice where
  /-- If the output goes to a terminal. -/
  | auto
  | always
  | never
deriving DecidableEq

namespace ColourChoice

/-- The choice that a word stands for. -/
def ofWord? : String → Option ColourChoice
  | "auto" => some .auto
  | "always" => some .always
  | "never" => some .never
  | _ => none

/-- Whether there are colours on an output that is, or is not, a terminal. -/
def colours (c : ColourChoice) (terminal : Bool) : Bool :=
  match c with
  | .auto => terminal
  | .always => true
  | .never => false

end ColourChoice

/-- The format that a word stands for. -/
def Format.ofWord? : String → Option Format
  | "text" => some .text
  | "json" => some .json
  | _ => none

namespace CommandLine

/-- The commands by name. -/
inductive Verb where
  | lower
  | render
  | check
  | roundTrip
deriving DecidableEq

/-- The command with a given name. -/
def Verb.ofWord? : String → Option Verb
  | "translate" => some .lower
  | "render" => some .render
  | "check" => some .check
  | "roundtrip" => some .roundTrip
  | _ => none

/-- The options. -/
inductive Flag where
  | format
  | colour
  | verbose
  | version
  | file
  | pretty
  | equals
deriving DecidableEq

namespace Flag

/-- Whether an option has a value. -/
def takesValue (f : Flag) : Bool := f matches .format | .colour | .file

/-- The option with a given long name. -/
def ofLong? : String → Option Flag
  | "format" => some .format
  | "color" => some .colour
  | "verbose" => some .verbose
  | "version" => some .version
  | "file" => some .file
  | "pretty" => some .pretty
  | "equals" => some .equals
  | _ => none

/-- The option with a given short name. -/
def ofShort? : Char → Option Flag
  | 'v' => some .verbose
  | 'V' => some .version
  | 'f' => some .file
  | 'p' => some .pretty
  | 'e' => some .equals
  | _ => none

/-- Whether an option may be given before the name of a command, if there is no verb, or after
it. -/
def isKnown (verb? : Option Verb) : Flag → Bool
  | .format | .colour | .verbose => true
  | .version => verb?.isNone
  | .file => verb?.isSome
  | .pretty => verb? = some .lower
  | .equals => verb? = some .render

end Flag

/-- Why the arguments are wrong. -/
inductive UsageError where
  | unknownOption
  | unknownCommand
  | noCommand
  /-- A value for an option that has none. -/
  | unwantedValue
  | missingValue
  | invalidValue
  | repeated
  /-- A word too many. -/
  | unexpectedWord
  /-- A word and a file, where only one of them can be given. -/
  | conflict
  /-- An environment variable with a value that is not one of its values. -/
  | invalidEnvironment
deriving DecidableEq

/-- The reason in words. -/
def UsageError.message : UsageError → String
  | .unknownOption => "unknown option"
  | .unknownCommand => "unknown command"
  | .noCommand => "a command is required"
  | .unwantedValue => "an option without value was given one"
  | .missingValue => "a value is required for an option"
  | .invalidValue => "invalid value for an option"
  | .repeated => "an option was given more than once"
  | .unexpectedWord => "unexpected argument"
  | .conflict => "an argument cannot be used with --file"
  | .invalidEnvironment => "invalid value in the environment"

/-! ## What is given on one side of the name -/

/-- What the arguments on one side of a command's name give. -/
structure Given where
  format? : Option Format := none
  colour? : Option ColourChoice := none
  verbose : Bool := false
  pretty : Bool := false
  equals : Bool := false
  files : List String := []
  words : List String := []

namespace Given

/-- Adds an option without value. -/
def mark (g : Given) : Flag → Except UsageError Given
  | .verbose => if g.verbose then .error .repeated else .ok { g with verbose := true }
  | .pretty => if g.pretty then .error .repeated else .ok { g with pretty := true }
  | .equals => if g.equals then .error .repeated else .ok { g with equals := true }
  | _ => .error .missingValue

/-- Adds an option with its value. -/
def set (verb? : Option Verb) (g : Given) (f : Flag) (value : String) : Except UsageError Given :=
  match f with
  | .format =>
    match Format.ofWord? value with
    | none => .error .invalidValue
    | some format =>
      if g.format?.isSome then .error .repeated else .ok { g with format? := some format }
  | .colour =>
    match ColourChoice.ofWord? value with
    | none => .error .invalidValue
    | some colour =>
      if g.colour?.isSome then .error .repeated else .ok { g with colour? := some colour }
  | .file =>
    if value.isEmpty then .error .invalidValue
    else if !g.files.isEmpty && verb? ≠ some .check then .error .repeated
    else .ok { g with files := g.files ++ [value] }
  | _ => .error .unwantedValue

/-- Adds a word. -/
def addWord (verb : Verb) (g : Given) (word : String) : Except UsageError Given :=
  if !g.words.isEmpty && verb ≠ .check then .error .unexpectedWord
  else .ok { g with words := g.words ++ [word] }

/-- Adds words. -/
def addWords (verb : Verb) (g : Given) : List String → Except UsageError Given
  | [] => .ok g
  | word :: words =>
    match g.addWord verb word with
    | .error e => .error e
    | .ok g => g.addWords verb words

end Given

/-! ## One argument -/

/-- What an argument that is an option leads to. -/
inductive Step where
  /-- More is given, and perhaps an option still lacks its value. -/
  | given (g : Given) (awaiting? : Option Flag)
  /-- The version is asked for. -/
  | version

/-- Takes short options that are written together. -/
def readShort (verb? : Option Verb) (g : Given) : List Char → Except UsageError Step
  | [] => .ok (.given g none)
  | c :: cs =>
    match (Flag.ofShort? c).filter (Flag.isKnown verb?) with
    | none => .error .unknownOption
    | some .version => .ok .version
    | some f =>
      if f.takesValue then
        match cs with
        | [] => .ok (.given g (some f))
        | '=' :: value => (g.set verb? f (String.ofList value)).map (.given · none)
        | value => (g.set verb? f (String.ofList value)).map (.given · none)
      else
        match g.mark f with
        | .error e => .error e
        | .ok g => readShort verb? g cs

/-- Takes a long option. -/
def readLong (verb? : Option Verb) (g : Given) (cs : List Char) : Except UsageError Step :=
  let name := String.ofList (cs.takeWhile (· != '='))
  match (Flag.ofLong? name).filter (Flag.isKnown verb?), cs.dropWhile (· != '=') with
  | none, _ => .error .unknownOption
  | some .version, [] => .ok .version
  | some f, [] =>
    if f.takesValue then .ok (.given g (some f)) else (g.mark f).map (.given · none)
  | some f, _ :: value =>
    if f.takesValue then (g.set verb? f (String.ofList value)).map (.given · none)
    else .error .unwantedValue

/-- The kinds of arguments. -/
inductive Argument where
  | long (cs : List Char)
  | short (cs : List Char)
  /-- The argument after which there are only words. -/
  | divider
  | word
deriving DecidableEq

/-- The kind of an argument.  A single minus sign is a word. -/
def Argument.of (argument : String) : Argument :=
  match argument.toList with
  | ['-', '-'] => .divider
  | '-' :: '-' :: cs => .long cs
  | ['-'] => .word
  | '-' :: cs => .short cs
  | _ => .word

/-! ## All arguments -/

/-- Takes the arguments after a command's name.  An option may still lack its value. -/
def readInner (verb : Verb) (g : Given) (awaiting? : Option Flag) :
    List String → Except UsageError Given
  | [] => if awaiting?.isSome then .error .missingValue else .ok g
  | argument :: rest =>
    match awaiting?, Argument.of argument with
    | some f, .word =>
      match g.set (some verb) f argument with
      | .error e => .error e
      | .ok g => readInner verb g none rest
    | some _, _ => .error .missingValue
    | none, .word =>
      match g.addWord verb argument with
      | .error e => .error e
      | .ok g => readInner verb g none rest
    | none, .divider => g.addWords verb rest
    | none, .long cs =>
      match readLong (some verb) g cs with
      | .error e => .error e
      | .ok .version => .error .unknownOption
      | .ok (.given g awaiting?) => readInner verb g awaiting? rest
    | none, .short cs =>
      match readShort (some verb) g cs with
      | .error e => .error e
      | .ok .version => .error .unknownOption
      | .ok (.given g awaiting?) => readInner verb g awaiting? rest

/-- What the program is asked for, with the environment left out of account. -/
inductive Demand where
  | version
  /-- A command, with what is given before its name and after it. -/
  | command (verb : Verb) (outer inner : Given)

/-- Takes the arguments from the first on. -/
def readOuter (g : Given) (awaiting? : Option Flag) : List String → Except UsageError Demand
  | [] => .error (if awaiting?.isSome then .missingValue else .noCommand)
  | argument :: rest =>
    match awaiting?, Argument.of argument with
    | some f, .word =>
      match g.set none f argument with
      | .error e => .error e
      | .ok g => readOuter g none rest
    | some _, _ => .error .missingValue
    | none, .word =>
      match Verb.ofWord? argument with
      | none => .error .unknownCommand
      | some verb => (readInner verb {} none rest).map (.command verb g)
    | none, .divider => .error .unexpectedWord
    | none, .long cs =>
      match readLong none g cs with
      | .error e => .error e
      | .ok .version => .ok .version
      | .ok (.given g awaiting?) => readOuter g awaiting? rest
    | none, .short cs =>
      match readShort none g cs with
      | .error e => .error e
      | .ok .version => .ok .version
      | .ok (.given g awaiting?) => readOuter g awaiting? rest

/-! ## Requests -/

/-- The values of the environment variables, where they are set. -/
structure Environment where
  format? : Option String
  colour? : Option String

/-- What the program is asked for. -/
inductive Request where
  | version
  | run (command : Command) (format : Format) (colour : ColourChoice)

/-- A value from the environment, which must be one if it is set. -/
def fromEnvironment {α : Type} (read : String → Option α) :
    Option String → Except UsageError (Option α)
  | none => .ok none
  | some word =>
    match read word with
    | none => .error .invalidEnvironment
    | some value => .ok (some value)

/-- The value of an option that may be given on either side of a command's name, or by the
environment. -/
def settingOf {α : Type} (read : String → Option α) (word? : Option String) :
    (outer? inner? : Option α) → Except UsageError (Option α)
  | some _, some inner => .ok (some inner)
  | outer?, inner? => (fromEnvironment read word?).map fun value? => inner? <|> outer? <|> value?

/-- The command that a name with its options and words asks for. -/
def commandOf (verb : Verb) (g : Given) : Except UsageError Command :=
  if verb ≠ .check ∧ g.words ≠ [] ∧ g.files ≠ [] then .error .conflict
  else
    let source := Source.of g.words.head? g.files.head?
    match verb with
    | .lower => .ok (.lower source g.pretty)
    | .render => .ok (.render source g.equals)
    | .check => .ok (.check g.words g.files)
    | .roundTrip => .ok (.roundTrip source)

/-- What the program is asked for by its arguments and its environment. -/
def read (environment : Environment) (arguments : List String) : Except UsageError Request := do
  match ← readOuter {} none arguments with
  | .version => return .version
  | .command verb outer inner =>
    let command ← commandOf verb inner
    let format? ← settingOf Format.ofWord? environment.format? outer.format? inner.format?
    let colour? ← settingOf ColourChoice.ofWord? environment.colour? outer.colour? inner.colour?
    return .run command (format?.getD .text) (colour?.getD .auto)

/-! ## The end of the program -/

/-- How the program ends. -/
structure Exit where
  code : Nat
  /-- What is printed on the standard output. -/
  printed : String
  /-- What is printed on the standard error. -/
  complaint? : Option String

/-- The end of a run of a command. -/
def Exit.ofReport (r : Report) : Exit :=
  match r.failure? with
  | none => ⟨0, r.printed, none⟩
  | some f => ⟨1, r.printed, some f.report⟩

/-- The end of the program if its arguments are wrong. -/
def Exit.ofUsage (e : UsageError) : Exit := ⟨2, "", some ("error: " ++ e.message)⟩

/-- The text that tells the version. -/
def versionText : String := "fscript 1.0.0\n"

/-- Does what is asked for. -/
def Request.execute (access : Access) (terminal : Bool) : Request → Exit
  | .version => ⟨0, versionText, none⟩
  | .run command format colour =>
    .ofReport (command.run access ⟨format, colour.colours terminal⟩)

end CommandLine

end FormulaTree
