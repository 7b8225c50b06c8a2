import Splice.Console.Request
import Splice.Console.Tracing
import Splice.Host.Folder
import Splice.Term.Json
import Splice.Term.Outline

/-!
# Execution of requests

A request is carried out against a folder, a supply of lines and a screen that may
have no room left. The result is what was shown and how it ended.
-/

namespace Splice

namespace Reading

/-- What a line of bytes gives. A line that is no text is a failure. -/
def ofBytes (line : List UInt8) : Reading :=
  match Text.ofUtf8? line with
  | some text => .line text.trimmedLine
  | none => .failed (.device FileFault.notText.reason)

end Reading

namespace Console

/-- What a request is carried out against. -/
structure Host where
  folder : Folder
  lines : LineSource
  /-- Whether the screen has no room for output. -/
  full : Bool

/-- What was shown, in order, and how a request ended. -/
structure Ending where
  displays : List Display
  result : Except Error RunStatus

/-- What a device without room answers. -/
def noRoom : HostFault :=
  .device "No space left on device (os error 28)".toList

namespace Ending

/-- The text shown on a stream. -/
def shown (ending : Ending) (stream : Stream) (colored : Bool) : Text :=
  (ending.displays.filter (·.stream = stream)).flatMap (Display.render colored)

/-- The exit code: two when the step limit stopped a run, one after an error. -/
def exitCode (ending : Ending) : Nat :=
  match ending.result with
  | .ok .stepLimit => 2
  | .ok _ => 0
  | .error _ => 1

/-- The ending of a request that shows lines and is done. -/
def ofLines (lines : List Text) : Ending :=
  ⟨[.ofLines lines], .ok .converged⟩

/-- The ending of a request that fails before it shows anything. -/
def ofError (error : Error) : Ending :=
  ⟨[], .error error⟩

end Ending

/-- Runs a program. -/
def runProgram (fuel : Nat) (host : Host) (settings : Settings) (program : List Term) :
    Option Ending :=
  let sink := if host.full then Sink.full noRoom else Sink.buffer
  ((Session.new program settings sink).runWith host.lines fuel 0).map fun (result, _, session) =>
    ⟨session.outlet.emissions.map .ofEmission, result.map RunSummary.status⟩

/-- Runs a program and shows every step. The first display always needs room. -/
def traceProgram (fuel : Nat) (host : Host) (settings : Settings) (program : List Term) :
    Option Ending :=
  if host.full then some (.ofError (.host noRoom))
  else
    let tracing := Tracing.start (Session.new program settings .buffer)
    (tracing.runWith host.lines fuel 0).map fun (result, _, tracing) =>
      ⟨tracing.displays.reverse, result⟩

/-- The ending of a request that shows lines, which need room. -/
def showLines (host : Host) (lines : List Text) : Ending :=
  if host.full && !lines.isEmpty then .ofError (.host noRoom) else .ofLines lines

/-- Carries out a request on the text of its file. -/
def Request.perform (fuel : Nat) (host : Host) (source : Text) (request : Request) :
    Option Ending :=
  match Sequence.parse request.file source, request with
  | _, .tokens _ => some (showLines host (Lexeme.escapedWords source))
  | .error error, _ => some (.ofError error)
  | .ok program, .run _ settings => runProgram fuel host settings program
  | .ok program, .trace _ settings => traceProgram fuel host settings program
  | .ok program, .ast _ true => some (showLines host (Sequence.toJson program).lines)
  | .ok program, .ast _ false => some (showLines host (Sequence.overview program))
  | .ok program, .format _ => some (showLines host [Sequence.format program])

/-- Carries out a request. -/
def Request.execute (fuel : Nat) (host : Host) (request : Request) : Option Ending :=
  match host.folder.fetch request.file with
  | .ok source => request.perform fuel host source
  | .error error => some (.ofError error)

end Console

end Splice
