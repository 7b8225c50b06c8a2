import Splice.Session.Run

/-!
# Actions of a host

A host deals with a session by actions: a single step, a run, a line, or a run on
a supply of lines. Every action has a result, and the session goes on after it,
also when the result is an error.
-/

namespace Splice

/-- What a host does. -/
inductive Action where
  /-- Take one step. -/
  | step
  /-- Run. -/
  | run
  /-- Hand over a line. -/
  | provide (line : Text)
  /-- Run on a supply of lines. -/
  | runWith (source : LineSource)

/-- What an action that does not fail results in. -/
inductive Report where
  /-- What a step did. -/
  | stepped (result : StepResult)
  /-- How a run stopped. -/
  | ran (summary : RunSummary)
  /-- A line was taken. -/
  | provided
  deriving DecidableEq

namespace Session

/-- Performs an action, with the given fuel for a run. -/
def act (fuel : Nat) (session : Session) : Action → Option (Except Error Report × Session)
  | .step =>
      let (result, session) := session.step
      some (result.map .stepped, session)
  | .run =>
      (session.run fuel).map fun (result, session) => (result.map .ran, session)
  | .provide line =>
      match session.provide line with
      | .ok session => some (.ok .provided, session)
      | .error error => some (.error error, session)
  | .runWith source =>
      (session.runWith source fuel 0).map fun (result, _, session) => (result.map .ran, session)

/-- The session after the host has taken away what came out of it. -/
def drained (session : Session) : Session :=
  { session with outlet := session.outlet.drained }

/-- Reads and runs a program on a supply of lines. -/
def execute (fuel : Nat) (sourceName source : Text) (settings : Settings) (sink : Sink)
    (lines : LineSource) : Option (Except Error RunSummary × Outlet) :=
  match Sequence.parse sourceName source with
  | .error error => some (.error error, { sink := sink })
  | .ok program =>
      ((new program settings sink).runWith lines fuel 0).map fun (result, _, session) =>
        (result, session.outlet)

end Session

end Splice
