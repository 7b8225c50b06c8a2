import Splice.Proofs.Reduction.Event

/-!
# Steps

A step that finds its session waiting does nothing. Any other step announces itself, and what it
does then is told by the outcome of the reduction and by what the sink says to the event in it.
`Stepped` lists the ways in which a step ends, each with the reduction that leads to it.
-/

namespace Splice

namespace Session

/-- One session is another one later, with nothing changed but for its macros, a line that may
have been used and what came out of it. -/
structure Alongside (earlier later : Session) : Prop where
  program : later.program = earlier.program
  settings : later.settings = earlier.settings
  steps : later.steps = earlier.steps
  awaiting : later.awaiting = earlier.awaiting
  sink : later.outlet.sink = earlier.outlet.sink

theorem Alongside.trans {first second third : Session} (before : first.Alongside second)
    (after : second.Alongside third) : first.Alongside third where
  program := after.program.trans before.program
  settings := after.settings.trans before.settings
  steps := after.steps.trans before.steps
  awaiting := after.awaiting.trans before.awaiting
  sink := after.sink.trans before.sink

theorem Silent.alongside {earlier later : Session} (silent : earlier.Silent later) :
    earlier.Alongside later := by
  obtain ⟨outlet, rfl, same⟩ := silent
  exact ⟨rfl, rfl, rfl, rfl, same.sink⟩

/-- Whatever happens in a step, the program and the count are left to the end of the step. -/
theorem alongside_of_perform {session after : Session} {event : Event} {answer : Option Error}
    (performs : session.announce.perform event = (answer, after)) : session.Alongside after := by
  have performed : session.Alongside (session.announce.perform event).2 := by
    apply (Silent.announce session).alongside.trans
    apply (Silent.report session.announce event).alongside.trans
    cases event with
    | printed args => exact ⟨rfl, rfl, rfl, rfl, Outlet.sink_offer _ _⟩
    | defined name body => exact ⟨rfl, rfl, rfl, rfl, rfl⟩
    | received line => exact ⟨rfl, rfl, rfl, rfl, rfl⟩
    | expanded name => exact ⟨rfl, rfl, rfl, rfl, rfl⟩
    | expandedUnder param => exact ⟨rfl, rfl, rfl, rfl, rfl⟩
    | substituted param args => exact ⟨rfl, rfl, rfl, rfl, rfl⟩
  rwa [performs] at performed

/-- A change to a session that makes no difference to what happens makes none to the reply. -/
theorem conclude_of_perform {session : Session} (change : Session → Session) {outcome : Outcome}
    (performs : ∀ event, outcome.event? = some event → (change session).perform event =
      ((session.perform event).1, change (session.perform event).2)) :
    (change session).conclude outcome =
      ((session.conclude outcome).1, change (session.conclude outcome).2) := by
  have settled : ∀ event reply, outcome.event? = some event →
      (change session).settle event reply =
        ((session.settle event reply).1, change (session.settle event reply).2) := by
    intro event reply happens
    rw [settle, performs event happens, settle]
    rcases session.perform event with ⟨_ | refusal, after⟩ <;> rfl
  cases outcome with
  | stuck => rfl
  | awaiting => rfl
  | changed event next => exact settled event _ rfl
  | failed earlier error =>
      cases earlier with
      | none => rfl
      | some event => exact settled event _ rfl

/-- How a step of a session ends, and what becomes of the session. -/
inductive Stepped (session : Session) : Except Error StepResult → Session → Prop where
  | waiting (waits : session.awaiting = true) : Stepped session (.ok .awaiting) session
  | converged (ready : session.awaiting = false)
      (outcome : Sequence.reduce session.scope session.program = .stuck) :
      Stepped session (.ok .converged) session.announce
  | asking (ready : session.awaiting = false)
      (outcome : Sequence.reduce session.scope session.program = .awaiting) :
      Stepped session (.ok .awaiting) { session.announce with awaiting := true }
  | changed {event : Event} {next : List Term} {after : Session}
      (ready : session.awaiting = false)
      (outcome : Sequence.reduce session.scope session.program = .changed event next)
      (performs : session.announce.perform event = (none, after)) :
      Stepped session (.ok .changed) { after with program := next, steps := after.steps + 1 }
  | failed {error : Error} (ready : session.awaiting = false)
      (outcome : Sequence.reduce session.scope session.program = .failed none error) :
      Stepped session (.error error) session.announce
  | failedAfter {event : Event} {error : Error} {after : Session}
      (ready : session.awaiting = false)
      (outcome : Sequence.reduce session.scope session.program = .failed (some event) error)
      (performs : session.announce.perform event = (none, after)) :
      Stepped session (.error error) after
  | refused {event : Event} {refusal : Error} {after : Session}
      (ready : session.awaiting = false)
      (outcome : (Sequence.reduce session.scope session.program).event? = some event)
      (performs : session.announce.perform event = (some refusal, after)) :
      Stepped session (.error refusal) after

/-- Every step ends in one of these ways. -/
theorem step_stepped (session : Session) : session.Stepped session.step.1 session.step.2 := by
  cases ready : session.awaiting with
  | true =>
      rw [step, if_pos ready]
      exact .waiting ready
  | false =>
      rw [step_eq_reduce session ready, reduce_announce]
      cases outcome : Sequence.reduce session.scope session.program with
      | stuck => exact .converged ready outcome
      | awaiting => exact .asking ready outcome
      | changed event next =>
          simp only [conclude, settle]
          cases performs : session.announce.perform event with
          | mk answer after =>
              cases answer with
              | none => exact .changed ready outcome performs
              | some refusal =>
                  exact .refused ready (Outcome.event?_of_changed outcome) performs
      | failed earlier error =>
          cases earlier with
          | none => exact .failed ready outcome
          | some event =>
              simp only [conclude, settle]
              cases performs : session.announce.perform event with
              | mk answer after =>
                  cases answer with
                  | none => exact .failedAfter ready outcome performs
                  | some refusal =>
                      exact .refused ready (Outcome.event?_of_failed outcome) performs

theorem reduce_of_changed {session : Session} (changes : session.step.1 = .ok .changed) :
    ∃ event, Sequence.reduce session.scope session.program =
      .changed event session.step.2.program := by
  have stepped := session.step_stepped
  rw [changes] at stepped
  generalize session.step.2 = later at stepped ⊢
  cases stepped with
  | @changed event next after ready outcome performs => exact ⟨event, outcome⟩

end Session

end Splice
