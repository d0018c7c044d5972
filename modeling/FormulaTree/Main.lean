import FormulaTree.CommandLine

/-!
# The program

Reads the arguments, the environment and the sources that the command needs, and prints what comes
of it.
-/

namespace FormulaTree.Program

/-- Why reading failed. -/
def inputFailure : IO.Error → InputFailure
  | .noFileOrDirectory .. => .missing
  | .inappropriateType .. => .directory
  | e => .other (toString e)

/-- The text of bytes. -/
def decode (bytes : ByteArray) : Except InputFailure String :=
  match String.fromUTF8? bytes with
  | some text => .ok text
  | none => .error .notText

/-- Reads all there is on a stream. -/
partial def readRest (stream : IO.FS.Stream) (bytes : ByteArray) : IO ByteArray := do
  let more ← stream.read 65536
  if more.isEmpty then return bytes else readRest stream (bytes ++ more)

/-- Does some reading. -/
def attempt (action : IO ByteArray) : IO (Except InputFailure String) := do
  try
    return decode (← action)
  catch e =>
    return .error (inputFailure e)

/-- Reads a source. -/
def readSource : Source → IO (Except InputFailure String)
  | .given text => return .ok text
  | .file path => attempt (IO.FS.readBinFile path)
  | .input => do
    let stream ← IO.getStdin
    attempt (readRest stream .empty)

/-- Reads sources, and gives access to what was read. -/
def accessTo (sources : List Source) : IO Access := do
  let texts ← sources.mapM fun source => return (source, ← readSource source)
  let find (source : Source) :=
    ((texts.find? fun t => t.1 = source).map (·.2)).getD (.error .missing)
  return ⟨fun path => find (.file path), find .input⟩

end FormulaTree.Program

open FormulaTree FormulaTree.CommandLine in
/-- Runs the program. -/
def main (arguments : List String) : IO UInt32 := do
  let environment : Environment :=
    ⟨← IO.getEnv "FSCRIPT_FORMAT", ← IO.getEnv "FSCRIPT_COLOR"⟩
  let output ← IO.getStdout
  let exit ← match CommandLine.read environment arguments with
    | .error e => pure (Exit.ofUsage e)
    | .ok request =>
      let sources := match request with
        | .version => []
        | .run command _ _ => command.sources
      pure (request.execute (← Program.accessTo sources) (← output.isTty))
  output.putStr exit.printed
  output.flush
  if let some complaint := exit.complaint? then IO.eprintln complaint
  return exit.code.toUInt32
