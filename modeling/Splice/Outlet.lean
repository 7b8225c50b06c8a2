import Splice.Error

/-!
# Outlets

An outlet is where a session leaves what it prints and logs. The host's sink
judges every printed text, on the strength of the texts it has been offered so
far, and may refuse it; log lines are never refused, but a sink may not keep them.
-/

namespace Splice

/-- Something that came out of a session. -/
inductive Emission where
  /-- A printed text that the sink took. -/
  | print (text : Text)
  /-- A line of the log. -/
  | log (line : Text)
  deriving DecidableEq

namespace Emission

/-- The printed text of an emission. -/
def print? : Emission → Option Text
  | print text => some text
  | log _ => none

/-- The log line of an emission. -/
def log? : Emission → Option Text
  | print _ => none
  | log line => some line

end Emission

/-- The host's side of an outlet. -/
structure Sink where
  /-- Why a text is refused, if it is, after the texts offered before it, the last
  one first. -/
  verdict : List Text → Text → Option HostFault
  /-- Whether log lines are kept. -/
  keepsLog : Bool

namespace Sink

/-- The sink that takes and keeps everything. -/
def buffer : Sink :=
  ⟨fun _ _ => none, true⟩

/-- The sink that takes `count` texts, refuses all others for the same reason, and
keeps no log. -/
def closingAfter (count : Nat) (fault : HostFault) : Sink :=
  ⟨fun earlier _ => if earlier.length < count then none else some fault, false⟩

/-- The sink that has no room for any text except the empty one. -/
def full (fault : HostFault) : Sink :=
  ⟨fun _ text => if text.isEmpty then none else some fault, true⟩

end Sink

/-- A sink with what it has been offered and what came out so far. -/
structure Outlet where
  sink : Sink
  /-- The texts offered to the sink, the last one first. -/
  offered : List Text := []
  /-- What came out, the last one first. -/
  journal : List Emission := []

namespace Outlet

/-- Leaves a line in the log. -/
def log (outlet : Outlet) (line : Text) : Outlet :=
  if outlet.sink.keepsLog then { outlet with journal := .log line :: outlet.journal } else outlet

/-- Offers a text to the sink. The sink remembers the offer either way. -/
def offer (outlet : Outlet) (text : Text) : Option HostFault × Outlet :=
  let next := { outlet with offered := text :: outlet.offered }
  match outlet.sink.verdict outlet.offered text with
  | some fault => (some fault, next)
  | none => (none, { next with journal := .print text :: next.journal })

/-- What came out, in order. -/
def emissions (outlet : Outlet) : List Emission :=
  outlet.journal.reverse

/-- The printed texts, in order. -/
def prints (outlet : Outlet) : List Text :=
  outlet.emissions.filterMap Emission.print?

/-- The lines of the log, in order. -/
def logLines (outlet : Outlet) : List Text :=
  outlet.emissions.filterMap Emission.log?

/-- The outlet after the host has taken away what came out. -/
def drained (outlet : Outlet) : Outlet :=
  { outlet with journal := [] }

end Outlet

end Splice
