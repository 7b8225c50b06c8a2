import Splice.Console.Markup
import Splice.Session.Action

/-!
# Traced runs

A traced run is a run that shows the program before its first step and the
difference that every step makes. Its rounds follow the rounds of a plain run; only
the notice about a reached limit goes to the console instead of the log.
-/

namespace Splice.Console

/-- A session that is being traced. -/
structure Tracing where
  session : Session
  /-- The program as it was shown last. -/
  shown : Text
  /-- What the console shows, the last first. -/
  displays : List Display

namespace Tracing

/-- Starts to trace a session. -/
def start (session : Session) : Tracing :=
  let program := Sequence.trace session.program
  ⟨session, program, [.start program]⟩

/-- Shows something. -/
def showing (tracing : Tracing) (display : Display) : Tracing :=
  { tracing with displays := display :: tracing.displays }

/-- Takes up a session after a step, and shows what came out of it. -/
def absorb (tracing : Tracing) (session : Session) : Tracing :=
  { tracing with
    session := session.drained
    displays := session.outlet.journal.map .ofEmission ++ tracing.displays }

/-- Shows the difference to the program that was shown last. -/
def showStep (tracing : Tracing) : Tracing :=
  let program := Sequence.trace tracing.session.program
  { tracing with
    shown := program
    displays := .step tracing.session.steps tracing.shown program :: tracing.displays }

/-- One round of a traced run. -/
def round (tracing : Tracing) : Round × Tracing :=
  match tracing.session.reachedLimit? with
  | some limit => (.halted .stepLimit, tracing.showing (.warning (Session.limitNotice limit)))
  | none =>
      let (result, session) := tracing.session.step
      let tracing := tracing.absorb session
      match result with
      | .ok .changed => (.running, tracing.showStep)
      | .ok .converged => (.halted .converged, tracing)
      | .ok .awaiting => (.halted .awaiting, tracing)
      | .error error => (.failed error, tracing)

/-- Hands over what a supply of lines gave. -/
def accept (tracing : Tracing) (reading : Reading) : Except Error Tracing :=
  (tracing.session.accept reading).map fun session => { tracing with session := session }

/-- A traced run on lines from a supply, `used` of which have been used already. -/
def runWith (source : LineSource) :
    Nat → Nat → Tracing → Option (Except Error RunStatus × Nat × Tracing)
  | 0, _, _ => none
  | fuel + 1, used, tracing =>
      match tracing.round with
      | (.running, tracing) => runWith source fuel used tracing
      | (.halted .awaiting, tracing) =>
          match tracing.accept (source used) with
          | .ok tracing => runWith source fuel (used + 1) tracing
          | .error error => some (.error error, used, tracing)
      | (.halted status, tracing) => some (.ok status, used, tracing)
      | (.failed error, tracing) => some (.error error, used, tracing)

end Tracing

end Splice.Console
