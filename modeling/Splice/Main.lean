import Splice.Console.Execution

/-!
# The command line

The outer layer: it reads the command line, the file and standard input, shows what
the rounds of a run or of a traced run leave behind, and exits.
-/

namespace Splice.Console

/-- Writes a display to its stream. -/
def Display.write (colored : Bool) (display : Display) : IO Unit := do
  let stream ← match display.stream with
    | .output => IO.getStdout
    | .diagnostics => IO.getStderr
  stream.putStr (String.ofList (display.render colored))
  stream.flush

/-- Reads bytes from a stream up to and with the next line break, and puts them in
front of those read so far. -/
partial def readBytes (stream : IO.FS.Stream) (read : List UInt8) : IO (List UInt8) := do
  match (← stream.read 1).toList with
  | [] => return read
  | byte :: _ =>
      if byte = Text.lineBreak then return byte :: read
      else readBytes stream (byte :: read)

/-- Reads a line from standard input. -/
def readLine : IO Reading := do
  match ← readBytes (← IO.getStdin) [] with
  | [] => return .closed
  | bytes => return .ofBytes bytes.reverse

/-- Runs a session to its end. -/
partial def runLoop (colored : Bool) (session : Session) : IO (Except Error RunStatus) := do
  let (round, session) := session.round
  for emission in session.outlet.emissions do
    (Display.ofEmission emission).write colored
  let session := session.drained
  match round with
  | .running => runLoop colored session
  | .halted .awaiting =>
      match session.accept (← readLine) with
      | .ok session => runLoop colored session
      | .error error => return .error error
  | .halted status => return .ok status
  | .failed error => return .error error

/-- Runs a traced session to its end. -/
partial def traceLoop (colored : Bool) (tracing : Tracing) : IO (Except Error RunStatus) := do
  let (round, tracing) := tracing.round
  for display in tracing.displays.reverse do
    display.write colored
  let tracing := { tracing with displays := [] }
  match round with
  | .running => traceLoop colored tracing
  | .halted .awaiting =>
      match tracing.accept (← readLine) with
      | .ok tracing => traceLoop colored tracing
      | .error error => return .error error
  | .halted status => return .ok status
  | .failed error => return .error error

/-- Reads the file of a request. -/
def readSource (request : Request) : IO (Except Error Text) := do
  let unreadable (fault : FileFault) : Except Error Text :=
    .error (.host (.unreadable request.file fault))
  try
    let bytes ← IO.FS.readBinFile (String.ofList request.file)
    match Text.ofUtf8? bytes.toList with
    | some source => return .ok source
    | none => return unreadable .notText
  catch
    | .noFileOrDirectory .. => return unreadable .missing
    | .inappropriateType _ code _ => return unreadable (if code = 21 then .isFolder else .notFolder)
    | failure => return .error (.host (.device (toString failure).toList))

/-- Carries out a request on the text of its file. -/
def carryOut (colored : Bool) (request : Request) (source : Text) :
    IO (Except Error RunStatus) := do
  match request, Sequence.parse request.file source with
  | .run _ settings, .ok program => runLoop colored (.new program settings .buffer)
  | .trace _ settings, .ok program => traceLoop colored (.start (.new program settings .buffer))
  | _, _ =>
      let host : Host := ⟨⟨[]⟩, .ofReadings [] .closed, false⟩
      match request.perform 0 host source with
      | some ending =>
          for display in ending.displays do
            display.write colored
          return ending.result
      | none => return .ok .converged

/-- Whether the terminal shows colours. -/
def isColored : IO Bool := do
  return (← IO.getEnv "NO_COLOR").isNone &&
    ((← IO.getEnv "TERM").map (· != "dumb")).getD false

/-- Shows an error. -/
def showError (error : Error) : IO Unit := do
  IO.eprintln (String.ofList error.code)
  IO.eprintln (String.ofList error.message)
  if let some help := error.help? then
    IO.eprintln (String.ofList ("help: ".toList ++ help))

/-- How to use the program. -/
def usageText : String :=
  "usage: run | trace | ast | tokens | format FILE [options]"

end Splice.Console

open Splice Splice.Console in
/-- The entry point. -/
def main (words : List String) : IO UInt32 := do
  match readRequest (words.map String.toList) with
  | .error usage =>
      if usage = .help ∨ usage = .version then
        IO.println usageText
        return 0
      else
        IO.eprintln usageText
        return 2
  | .ok request =>
      let result ← match ← readSource request with
        | .ok source =>
            try carryOut (← isColored) request source
            catch failure => pure (.error (.host (.device (toString failure).toList)))
        | .error error => pure (.error error)
      if let .error error := result then
        showError error
      return (Ending.mk [] result).exitCode.toUInt32
