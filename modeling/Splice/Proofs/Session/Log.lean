import Splice.Proofs.Reduction.Leftmost

/-!
# The log

Lines in the log are all that announcing a step and reporting an event leave behind. They change
neither what has been printed nor what has been offered to the sink, and no reduction looks at
them.
-/

namespace Splice

/-- One outlet is another one later, with nothing but lines added to the log. -/
structure Outlet.Silent (earlier later : Outlet) : Prop where
  sink : later.sink = earlier.sink
  offered : later.offered = earlier.offered
  prints : later.prints = earlier.prints

namespace Outlet.Silent

theorem refl (outlet : Outlet) : outlet.Silent outlet :=
  ⟨rfl, rfl, rfl⟩

theorem trans {first second third : Outlet} (before : first.Silent second)
    (after : second.Silent third) : first.Silent third where
  sink := after.sink.trans before.sink
  offered := after.offered.trans before.offered
  prints := after.prints.trans before.prints

theorem log (outlet : Outlet) (line : Text) : outlet.Silent (outlet.log line) := by
  unfold Outlet.log
  split
  · refine ⟨rfl, rfl, ?_⟩
    simp [Outlet.prints, emissions, Emission.print?]
  · exact .refl outlet

end Outlet.Silent

namespace Session

/-- One session is another one later, with nothing but lines added to the log. -/
def Silent (earlier later : Session) : Prop :=
  ∃ outlet, later = { earlier with outlet := outlet } ∧ earlier.outlet.Silent outlet

namespace Silent

theorem refl (session : Session) : session.Silent session :=
  ⟨session.outlet, rfl, .refl session.outlet⟩

theorem trans {first second third : Session} (before : first.Silent second)
    (after : second.Silent third) : first.Silent third := by
  obtain ⟨middle, rfl, quiet⟩ := before
  obtain ⟨outlet, rfl, later⟩ := after
  exact ⟨outlet, rfl, quiet.trans later⟩

theorem log (session : Session) (line : Text) : session.Silent (session.log line) :=
  ⟨session.outlet.log line, rfl, .log session.outlet line⟩

theorem announce (session : Session) : session.Silent session.announce := by
  unfold Session.announce
  split
  · exact .log session _
  · exact .refl session

theorem report (session : Session) (event : Event) : session.Silent (session.report event) := by
  unfold Session.report
  split
  · exact .log session _
  · exact .refl session

end Silent

theorem reduce_announce (session : Session) :
    session.announce.reduce session.announce.program =
      session.announce.conclude (Sequence.reduce session.scope session.program) := by
  obtain ⟨outlet, same, -⟩ := Silent.announce session
  rw [same]
  rfl

end Session

end Splice
