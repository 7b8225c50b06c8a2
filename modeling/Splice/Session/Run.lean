import Splice.Session.Basic

/-!
# Runs

A run takes steps until there is no redex, the limit is reached, a line is needed
or a step fails. Runs may go on for ever, so they are given an amount of fuel, and
have no result when it is used up; more fuel never changes a result. A run with a
supply of lines goes on after a line is needed.
-/

namespace Splice

/-- Why a run stops without an error. -/
inductive RunStatus where
  /-- There is no redex. -/
  | converged
  /-- As many steps have been taken as the settings allow. -/
  | stepLimit
  /-- A line is needed. -/
  | awaiting
  deriving DecidableEq

/-- How a run stopped and how many steps its session has taken. -/
structure RunSummary where
  status : RunStatus
  steps : Nat
  deriving DecidableEq

/-- What one round of a run does. -/
inductive Round where
  /-- A redex was contracted and the run goes on. -/
  | running
  /-- The run stops. -/
  | halted (status : RunStatus)
  /-- The run fails. -/
  | failed (error : Error)
  deriving DecidableEq

/-- What a supply of lines gives when it is asked for one. -/
inductive Reading where
  /-- The next line. -/
  | line (text : Text)
  /-- There are no more lines. -/
  | closed
  /-- The supply fails. -/
  | failed (fault : HostFault)
  deriving DecidableEq

/-- A supply of lines: what it gives when it is asked for the first time, the
second time, and so on. -/
abbrev LineSource := Nat → Reading

namespace LineSource

/-- The supply that gives `readings` one after the other and then `last` for ever. -/
def ofReadings (readings : List Reading) (last : Reading) : LineSource :=
  fun index => readings.getD index last

/-- The supply of the given lines, which ends with `last`. -/
def ofList (lines : List Text) (last : Reading) : LineSource :=
  ofReadings (lines.map Reading.line) last

end LineSource

namespace Session

/-- The limit that a session has reached, if it has. -/
def reachedLimit? (session : Session) : Option Nat :=
  session.settings.maxSteps.filter (· ≤ session.steps)

/-- What is said about a limit that has been reached. -/
def limitNotice (limit : Nat) : Text :=
  "step limit of ".toList ++ Text.ofNat limit ++ " reached before normal form".toList

/-- One round of a run: a step, unless the limit is reached. -/
def round (session : Session) : Round × Session :=
  match session.reachedLimit? with
  | some limit => (.halted .stepLimit, session.log ("warning: ".toList ++ limitNotice limit))
  | none =>
      match session.step with
      | (.ok .changed, session) => (.running, session)
      | (.ok .converged, session) => (.halted .converged, session)
      | (.ok .awaiting, session) => (.halted .awaiting, session)
      | (.error error, session) => (.failed error, session)

/-- Runs until the run stops or fails. -/
def run : Nat → Session → Option (Except Error RunSummary × Session)
  | 0, _ => none
  | fuel + 1, session =>
      match session.round with
      | (.running, session) => run fuel session
      | (.halted status, session) => some (.ok ⟨status, session.steps⟩, session)
      | (.failed error, session) => some (.error error, session)

/-- What a session does with what a supply gave it. -/
def accept (session : Session) : Reading → Except Error Session
  | .line text => session.provide text
  | .closed => .error (.host .inputClosed)
  | .failed fault => .error (.host fault)

/-- Runs on lines from a supply, `used` of which have been used already, until the
run stops for another reason than a missing line, or fails. The result tells how
many lines have been used. -/
def runWith (source : LineSource) :
    Nat → Nat → Session → Option (Except Error RunSummary × Nat × Session)
  | 0, _, _ => none
  | fuel + 1, used, session =>
      match session.round with
      | (.running, session) => runWith source fuel used session
      | (.halted .awaiting, session) =>
          match session.accept (source used) with
          | .ok session => runWith source fuel (used + 1) session
          | .error error => some (.error error, used, session)
      | (.halted status, session) => some (.ok ⟨status, session.steps⟩, used, session)
      | (.failed error, session) => some (.error error, used, session)

end Session

end Splice
