import Splice.Outlet
import Splice.Reduction
import Splice.Text.Quoted

/-!
# Sessions

A session is a program under reduction with its macros, its settings, its outlet
and its dealings with the host about lines of input. One step contracts at most
one redex. When the redex needs a line, the session waits for the host, and the
step after the line has been provided uses it at the same place.

A step that fails leaves program, macros and step count as they were.
-/

namespace Splice

/-- A program under reduction. -/
structure Session where
  program : List Term
  macros : MacroTable := .empty
  settings : Settings
  /-- The line provided by the host and not used yet. -/
  pending : Option Text := none
  /-- Whether the session waits for a line. -/
  awaiting : Bool := false
  /-- The number of redexes contracted so far. -/
  steps : Nat := 0
  outlet : Outlet

/-- What one step does. -/
inductive StepResult where
  /-- A redex was contracted. -/
  | changed
  /-- There is no redex. -/
  | converged
  /-- A line is needed. -/
  | awaiting
  deriving DecidableEq

namespace Event

/-- The log line for an event. -/
def describe (hollow : Hollow) : Event → Text
  | defined name _ => "define macro ".toList ++ name
  | expanded name => "expand macro ".toList ++ name
  | expandedUnder param =>
      "expand macro in body of ".toList ++
        Text.backquoted (Keyword.opening.spelling ++ [' '] ++ param)
  | substituted param args =>
      "beta-reduce ".toList ++ param ++ " := ".toList ++ Sequence.trace args
  | printed args => "print ".toList ++ Text.quoted (Sequence.output hollow args)
  | received line => "input ".toList ++ Text.quoted line

end Event

namespace Session

/-- A session at its start. -/
def new (program : List Term) (settings : Settings) (sink : Sink) : Session where
  program := program
  settings := settings
  outlet := { sink := sink }

/-- What the reductions of a session may look at. -/
def scope (session : Session) : Scope :=
  ⟨session.settings.strategy, session.macros, session.pending⟩

/-- Leaves a line in the log. -/
def log (session : Session) (line : Text) : Session :=
  { session with outlet := session.outlet.log line }

/-- Hands over a line that the session waits for. -/
def provide (session : Session) (line : Text) : Except Error Session :=
  if session.awaiting then .ok { session with awaiting := false, pending := some line }
  else .error .inputRejected

/-- Logs the program that the next step starts from, if that is wanted. -/
def announce (session : Session) : Session :=
  if session.settings.trace then
    session.log ("[step ".toList ++ Text.ofNat (session.steps + 1) ++ "] ".toList ++
      Sequence.trace session.program)
  else session

/-- Logs an event, if that is wanted. -/
def report (session : Session) (event : Event) : Session :=
  if session.settings.debug then session.log (event.describe session.settings.hollow) else session

/-- Lets an event happen to everything but the program. The sink may refuse what is
printed. -/
def perform (session : Session) (event : Event) : Option Error × Session :=
  let session := session.report event
  match event with
  | .defined name body => (none, { session with macros := session.macros.insert name body })
  | .received _ => (none, { session with pending := none })
  | .printed args =>
      let (fault, outlet) := session.outlet.offer (Sequence.output session.settings.hollow args)
      (fault.map .host, { session with outlet := outlet })
  | .expanded _ | .expandedUnder _ | .substituted _ _ => (none, session)

/-- Contracts at most one redex. -/
def step (session : Session) : Except Error StepResult × Session :=
  if session.awaiting then (.ok .awaiting, session)
  else
    let session := session.announce
    match Sequence.reduce session.scope session.program with
    | .stuck => (.ok .converged, session)
    | .awaiting => (.ok .awaiting, { session with awaiting := true })
    | .changed event next =>
        match session.perform event with
        | (none, session) =>
            (.ok .changed, { session with program := next, steps := session.steps + 1 })
        | (some refusal, session) => (.error refusal, session)
    | .failed none error => (.error error, session)
    | .failed (some event) error =>
        match session.perform event with
        | (none, session) => (.error error, session)
        | (some refusal, session) => (.error refusal, session)

end Session

end Splice
