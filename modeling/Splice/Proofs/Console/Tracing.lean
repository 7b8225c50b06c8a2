import Splice.Console.Execution
import Splice.Proofs.Session.Driver
import Splice.Proofs.Session.Log

/-!
# Traced runs and plain runs

A traced run and a plain run of one program on one supply of lines go through the same rounds.
A traced session is the plain one without what came out of it, which the console shows instead:
the same printed texts in the same order, with the steps of the program between them.
-/

namespace Splice

/-! ## What came out earlier -/

namespace Outlet

/-- The outlet when something had come out of it before. -/
def above (outlet : Outlet) (earlier : List Emission) : Outlet :=
  { outlet with journal := outlet.journal ++ earlier }

theorem log_above (outlet : Outlet) (earlier : List Emission) (line : Text) :
    (outlet.above earlier).log line = (outlet.log line).above earlier := by
  unfold log
  dsimp only [above]
  split <;> simp [*]

theorem offer_above (outlet : Outlet) (earlier : List Emission) (text : Text) :
    (outlet.above earlier).offer text =
      ((outlet.offer text).1, (outlet.offer text).2.above earlier) := by
  unfold offer
  dsimp only [above]
  cases outlet.sink.verdict outlet.offered text <;> rfl

end Outlet

namespace Session

/-- The session when something had come out of it before. -/
def above (session : Session) (earlier : List Emission) : Session :=
  { session with outlet := session.outlet.above earlier }

theorem above_drained (session : Session) :
    session.drained.above session.outlet.journal = session :=
  rfl

theorem log_above (session : Session) (earlier : List Emission) (line : Text) :
    (session.above earlier).log line = (session.log line).above earlier := by
  simp only [log, above, Outlet.log_above]

theorem drained_log (session : Session) (line : Text) :
    (session.log line).drained = session.drained := by
  unfold log Outlet.log
  split <;> rfl

theorem announce_above (session : Session) (earlier : List Emission) :
    (session.above earlier).announce = session.announce.above earlier := by
  unfold announce
  rw [log_above]
  exact (apply_ite (Session.above · earlier) _ _ _).symm

theorem report_above (session : Session) (earlier : List Emission) (event : Event) :
    (session.above earlier).report event = (session.report event).above earlier := by
  unfold report
  rw [log_above]
  exact (apply_ite (Session.above · earlier) _ _ _).symm

theorem perform_above (session : Session) (earlier : List Emission) (event : Event) :
    (session.above earlier).perform event =
      ((session.perform event).1, (session.perform event).2.above earlier) := by
  unfold perform
  rw [report_above]
  cases event with
  | printed args => simp only [above, Outlet.offer_above]
  | _ => rfl

/-- A step does not look at what came out of the session. -/
theorem step_above (session : Session) (earlier : List Emission) :
    (session.above earlier).step = (session.step.1, session.step.2.above earlier) := by
  have reduces : Sequence.reduce (session.announce.above earlier).scope
      (session.announce.above earlier).program =
      Sequence.reduce session.announce.scope session.announce.program := rfl
  unfold step
  rw [announce_above]
  by_cases waits : session.awaiting
  · rw [if_pos (show (session.above earlier).awaiting = true from waits), if_pos waits]
  · rw [if_neg (show ¬ (session.above earlier).awaiting = true from waits), if_neg waits]
    dsimp only
    rw [reduces]
    cases Sequence.reduce session.announce.scope session.announce.program with
    | stuck => rfl
    | awaiting => rfl
    | changed event next =>
        dsimp only
        rw [perform_above]
        rcases session.announce.perform event with ⟨_ | refusal, later⟩ <;> rfl
    | failed event error =>
        cases event with
        | none => rfl
        | some event =>
            dsimp only
            rw [perform_above]
            rcases session.announce.perform event with ⟨_ | refusal, later⟩ <;> rfl

end Session

namespace Console

/-! ## Printed texts on the console -/

namespace Display

/-- The text that a display shows as it was printed. -/
def print? : Display → Option Text
  | ⟨.output, [.text content]⟩ => some content
  | _ => none

theorem print?_ofEmission (emission : Emission) :
    (ofEmission emission).print? = emission.print? := by
  cases emission <;> rfl

theorem filterMap_print?_ofEmission (emissions : List Emission) :
    (emissions.map ofEmission).filterMap print? = emissions.filterMap Emission.print? := by
  rw [List.filterMap_map]
  exact congrArg (List.filterMap · emissions) (funext print?_ofEmission)

theorem print?_warning (message : Text) : (warning message).print? = none :=
  rfl

@[simp] theorem print?_step (number : Nat) (earlier later : Text) :
    (step number earlier later).print? = none :=
  rfl

end Display

/-- The printed texts among what a request shows. -/
def Ending.prints (ending : Ending) : List Text :=
  ending.displays.filterMap Display.print?

/-! ## Traced rounds -/

/-- What there is to be seen of a run. -/
structure View where
  program : List Term
  macros : MacroTable
  steps : Nat
  awaiting : Bool
  pending : Option Text
  /-- The texts that were to be printed, the last one first. -/
  offered : List Text
  /-- The texts that were printed. -/
  prints : List Text

end Console

/-- What there is to be seen of a session. -/
def Session.view (session : Session) : Console.View :=
  ⟨session.program, session.macros, session.steps, session.awaiting, session.pending,
    session.outlet.offered, session.outlet.prints⟩

namespace Console.Tracing

/-- The printed texts that the console shows. -/
def prints (tracing : Tracing) : List Text :=
  tracing.displays.reverse.filterMap Display.print?

/-- What there is to be seen of a traced session, with what the console shows. -/
def view (tracing : Tracing) : View :=
  { tracing.session.view with prints := tracing.prints }

/-- Traced sessions go through rounds. -/
def driver : Driver Tracing :=
  ⟨round, accept⟩

/-- A traced run on a supply is a loop over a traced session. -/
theorem runWith_eq_after (source : LineSource) (fuel used : Nat) (tracing : Tracing) :
    tracing.runWith source fuel used = (driver.after source fuel used tracing).result? := by
  induction fuel generalizing used tracing with
  | zero => rfl
  | succ fuel ih =>
      rw [Driver.after, Driver.turn, runWith]
      dsimp only [driver]
      rcases tracing.round with ⟨_ | (_ | _ | _) | error, later⟩
      · exact ih used later
      · rfl
      · rfl
      · dsimp only
        cases later.accept (source used) with
        | ok provided => exact ih (used + 1) provided
        | error error => rfl
      · rfl

/-- A traced session follows a plain one: it is the same but for what came out of it, and of that
the console shows what was printed. -/
structure Follows (tracing : Tracing) (plain : Session) : Prop where
  session : tracing.session = plain.drained
  prints : tracing.prints = plain.outlet.prints

namespace Follows

variable {tracing : Tracing} {session : Session}

theorem new (program : List Term) (settings : Settings) (sink : Sink) :
    (Tracing.start (.new program settings sink)).Follows (.new program settings sink) :=
  ⟨rfl, rfl⟩

theorem above (follows : tracing.Follows session) :
    tracing.session.above session.outlet.journal = session := by
  rw [follows.session]
  exact session.above_drained

theorem showing (follows : tracing.Follows session) {display : Display}
    (plain : display.print? = none) : (tracing.showing display).Follows session where
  session := follows.session
  prints := by
    rw [← follows.prints]
    simp [Tracing.prints, Tracing.showing, plain]

theorem log (follows : tracing.Follows session) (line : Text) :
    tracing.Follows (session.log line) where
  session := follows.session.trans (session.drained_log line).symm
  prints := follows.prints.trans (Outlet.Silent.log session.outlet line).prints.symm

theorem absorb (follows : tracing.Follows session) (later : Session) :
    (tracing.absorb later).Follows (later.above session.outlet.journal) where
  session := rfl
  prints := by
    have shown := follows.prints
    simp only [Tracing.prints, Outlet.prints, Outlet.emissions] at shown
    simp only [Tracing.prints, Tracing.absorb, Outlet.prints, Outlet.emissions, Session.above,
      Outlet.above, List.reverse_append, List.filterMap_append, ← List.map_reverse,
      Display.filterMap_print?_ofEmission, shown]

theorem showStep (follows : tracing.Follows session) : tracing.showStep.Follows session where
  session := follows.session
  prints := by
    rw [← follows.prints]
    simp [Tracing.prints, Tracing.showStep]

/-- A round of a traced session follows a round of the plain one. -/
theorem round (follows : tracing.Follows session) :
    tracing.round.1 = session.round.1 ∧ tracing.round.2.Follows session.round.2 := by
  have limit : tracing.session.reachedLimit? = session.reachedLimit? := by
    rw [follows.session]
    rfl
  have stepped := tracing.session.step_above session.outlet.journal
  rw [follows.above] at stepped
  have absorbed := follows.absorb tracing.session.step.2
  unfold Tracing.round Session.round
  rw [limit]
  cases session.reachedLimit? with
  -- The notice goes to the log on one side and to the console on the other. It is no printed text.
  | some limit => exact ⟨rfl, (follows.log _).showing (Display.print?_warning _)⟩
  | none =>
      dsimp only
      rw [stepped]
      generalize tracing.session.step = taken at absorbed
      rcases taken with ⟨error | _ | _ | _, later⟩
      · exact ⟨rfl, absorbed⟩
      · exact ⟨rfl, absorbed.showStep⟩
      · exact ⟨rfl, absorbed⟩
      · exact ⟨rfl, absorbed⟩

theorem accept (follows : tracing.Follows session) (reading : Reading) :
    (∃ error, tracing.accept reading = .error error ∧ session.accept reading = .error error) ∨
    ∃ tracing' session', tracing.accept reading = .ok tracing' ∧
      session.accept reading = .ok session' ∧ tracing'.Follows session' := by
  unfold Tracing.accept
  rw [follows.session]
  cases reading with
  | closed => exact .inl ⟨_, rfl, rfl⟩
  | failed fault => exact .inl ⟨_, rfl, rfl⟩
  | line text =>
      dsimp only [Session.accept, Session.provide, Session.drained]
      by_cases waits : session.awaiting
      · rw [if_pos waits, if_pos waits]
        exact .inr ⟨_, _, rfl, rfl, rfl, follows.prints⟩
      · rw [if_neg waits, if_neg waits]
        exact .inl ⟨_, rfl, rfl⟩

theorem view (follows : tracing.Follows session) : tracing.view = session.view := by
  rw [Tracing.view, follows.session, follows.prints]
  rfl

end Follows

/-- Traced and plain rounds and lines lead to the same results. -/
theorem simulates : Driver.Simulates Follows driver Session.driver :=
  ⟨Follows.round, Follows.accept⟩

/-! ## Traced runs -/

/-- A traced run comes to what the plain run comes to. -/
theorem runWith_view {tracing : Tracing} {session : Session} (follows : tracing.Follows session)
    (source : LineSource) (fuel used : Nat) :
    ((tracing.runWith source fuel used).map fun (result, count, later) =>
        (result.map (RunSummary.mk · later.session.steps), count, later.view)) =
      (session.runWith source fuel used).map fun (result, count, later) =>
        (result, count, later.view) := by
  rw [runWith_eq_after, Session.runWith_eq_after, Option.map_map]
  refine (simulates.after follows source fuel used).map_result?_eq ?_
  intro result used tracing session here
  have steps : tracing.session.steps = session.steps := by
    rw [here.session]
    rfl
  simp only [Function.comp, here.view, steps]

end Console.Tracing

namespace Console

theorem Ending.prints_of_emissions (outlet : Outlet) (result : Except Error RunStatus) :
    (Ending.mk (outlet.emissions.map .ofEmission) result).prints = outlet.prints :=
  Display.filterMap_print?_ofEmission outlet.emissions

/-- What a request printed and how it ended. -/
def Ending.outcome (ending : Ending) : List Text × Except Error RunStatus × Nat :=
  (ending.prints, ending.result, ending.exitCode)

/-- On a screen with room, a program is traced as it is run. -/
theorem outcome_traceProgram (fuel : Nat) (folder : Folder) (source : LineSource)
    (settings : Settings) (program : List Term) :
    (traceProgram fuel ⟨folder, source, false⟩ settings program).map Ending.outcome =
      (runProgram fuel ⟨folder, source, false⟩ settings program).map Ending.outcome := by
  have together := Tracing.simulates.after (.new program settings .buffer) source fuel 0
  simp only [traceProgram, runProgram, Bool.false_eq_true, if_false, Tracing.runWith_eq_after,
    Session.runWith_eq_after, Option.map_map]
  refine together.map_result?_eq ?_
  intro result used tracing session here
  have shown : (Ending.mk tracing.displays.reverse result).prints = session.outlet.prints :=
    here.prints
  have status : (result.map (RunSummary.mk · session.steps)).map RunSummary.status = result := by
    cases result <;> rfl
  simp only [Function.comp, Ending.outcome, Ending.exitCode, shown, status,
    Ending.prints_of_emissions]

/-- A traced run and a plain run of a program are the same run. The two loops are at the same place
after every turn, so they come to the same result after the same number of lines, with the same
program, macros, steps and printed texts, or both go on for ever. The plain loop is at the same
time what becomes of runs that stop at every request. On a screen with room, requests to trace and
to run a file print the same texts and end in the same way, also when the file is no program. -/
theorem trace_agrees_with_run (settings : Settings) (source : LineSource) (fuel : Nat) :
    (∀ program sink,
      let session := Session.new program settings sink
      let tracing := Tracing.start session
      (∀ turns, (Tracing.driver.after source turns 0 tracing).map Tracing.view =
        (Session.driver.after source turns 0 session).map Session.view) ∧
      ((tracing.runWith source fuel 0).map fun (result, used, later) =>
          (result.map (RunSummary.mk · later.session.steps), used, later.view)) =
        ((session.runWith source fuel 0).map fun (result, used, later) =>
          (result, used, later.view)) ∧
      ∀ result used later,
        (∃ fuel, session.runWith source fuel 0 = some (result, used, later)) ↔
          Session.RunsOn source 0 session result used later) ∧
    ∀ folder file text,
      ((Request.trace file settings).perform fuel ⟨folder, source, false⟩ text).map
          Ending.outcome =
        ((Request.run file settings).perform fuel ⟨folder, source, false⟩ text).map
          Ending.outcome := by
  refine ⟨fun program sink => ⟨fun turns => ?_, ?_, fun result used later => ?_⟩,
    fun folder file text => ?_⟩
  · have together := Tracing.simulates.after (.new program settings sink) source turns 0
    exact together.map_eq fun _ _ => Tracing.Follows.view
  · exact Tracing.runWith_view (.new program settings sink) source fuel 0
  · exact Session.exists_runWith_iff_runsOn
  · unfold Request.perform
    dsimp only [Request.file]
    cases Sequence.parse file text with
    | error error => rfl
    | ok program => exact outcome_traceProgram fuel folder source settings program

end Console

end Splice
