import Splice.Proofs.Reduction.OneRedex
import Splice.Proofs.Session.Log

/-!
# Failures

A reduction fails in four ways, and `Failure` lists them with what has happened before. A callee
that is not one term any more has been contracted itself: a redex inside of it is contracted in
place. A definition is no callee that is contracted, so nothing is defined by a reduction that
fails, and a step that fails leaves a session as it was, but for a line that has been used and
for what came out.
-/

namespace Splice

/-- Why a reduction fails, with what has happened before it does. -/
inductive Failure (scope : Scope) : Option Event → Error → Prop where
  | redefined {name : Text} (known : scope.macros.contains name = true) :
      Failure scope none (.redefinition name)
  | definedCallee (name : Text) (body : List Term) :
      Failure scope none (.calleeNotSingle (Term.define name body).source 0)
  | unreadable {line : Text} {error : Error} (pending : scope.pending = some line)
      (refused : Sequence.parse Scope.lineName line = .error error) :
      Failure scope (some (.received line)) error
  | severalTerms {callee : Term} {event : Event} {terms : List Term}
      (undefining : ∀ name body, callee ≠ .define name body)
      (contracts : Contraction scope event none callee terms) (count : terms.length ≠ 1) :
      Failure scope (some event) (.calleeNotSingle callee.source terms.length)

theorem Failure.not_defined {scope : Scope} {event : Event} {error : Error}
    (failure : Failure scope (some event) error) (name : Text) (body : List Term) :
    event ≠ .defined name body := by
  rintro rfl
  cases failure with
  | severalTerms undefining contracts count =>
      cases contracts with
      | definition fresh => exact undefining name body rfl

namespace Outcome

theorem within_eq_failed {rebuild : List Term → List Term} {outcome : Outcome}
    {earlier : Option Event} {error : Error}
    (fails : outcome.within rebuild = .failed earlier error) :
    outcome = .failed earlier error := by
  cases outcome with
  | stuck => cases fails
  | awaiting => cases fails
  | changed event next => cases fails
  | failed before' other => exact fails

theorem ofCallee_eq_failed {callee : Term} {args : List Term} {outcome : Outcome}
    {earlier : Option Event} {error : Error}
    (fails : outcome.ofCallee callee args = .failed earlier error) :
    outcome = .failed earlier error ∨
      ∃ event terms, outcome = .changed event terms ∧ terms.length ≠ 1 ∧
        earlier = some event ∧ error = .calleeNotSingle callee.source terms.length := by
  unfold ofCallee at fails
  split at fails
  · cases fails
  · rename_i event terms several
    cases fails
    refine .inr ⟨event, terms, rfl, ?_, rfl, rfl⟩
    intro single
    obtain ⟨term, rfl⟩ := List.length_eq_one_iff.mp single
    exact several term rfl
  · exact .inl fails

theorem beside_eq_failed {front back : List Term} {ofFront ofBack : Outcome}
    {earlier : Option Event} {error : Error}
    (fails : beside front back ofFront ofBack = .failed earlier error) :
    ofFront = .failed earlier error ∨ ofBack = .failed earlier error := by
  cases ofFront with
  | stuck => exact .inr (within_eq_failed fails)
  | awaiting => cases fails
  | changed event next => cases fails
  | failed before' other => exact .inl fails

end Outcome

section Reduction

variable {scope : Scope}

/-- A term that does not become one term is a redex itself. -/
theorem Term.contraction_of_reduce {term : Term} {event : Event} {next : List Term}
    (reduces : Term.reduce scope term = .changed event next) (count : next.length ≠ 1) :
    Contraction scope event none term next := by
  rcases reduce_eq_changed reduces with contracts | ⟨_, _, _, _, _, _, rfl⟩ |
    ⟨_, _, _, _, _, rfl⟩ | ⟨_, _, _, _, _, rfl⟩
  · exact contracts
  · exact absurd rfl count
  · exact absurd rfl count
  · exact absurd rfl count

theorem Term.failure_of_reduce_app {callee : Term} {args : List Term} {earlier : Option Event}
    {error : Error} (fails : Term.reduce scope (.app callee args) = .failed earlier error)
    (ofCallee : Term.reduce scope callee = .failed earlier error → Failure scope earlier error)
    (ofArgs : Sequence.reduce scope args = .failed earlier error → Failure scope earlier error) :
    Failure scope earlier error := by
  rcases callee.define_or_other with ⟨name, body, rfl⟩ | undefining
  · cases fails
    exact .definedCallee name body
  · rw [reduce_app scope args undefining] at fails
    split at fails
    · rcases Outcome.ofStuckCallee_cases scope callee args (Sequence.reduce scope args) with
        ⟨param, body, rfl, -, takes⟩ | ⟨rfl, printable, prints⟩ | ⟨-, -, leaves⟩
      · rw [takes] at fails
        cases fails
      · rw [prints] at fails
        cases fails
      · rw [leaves] at fails
        exact ofArgs (Outcome.within_eq_failed fails)
    · rcases Outcome.ofCallee_eq_failed fails with inCallee |
        ⟨event, terms, changes, count, rfl, rfl⟩
      · exact ofCallee inCallee
      · exact .severalTerms undefining (contraction_of_reduce changes count) count

/-- A reduction that fails does so in one of the four ways. -/
theorem Sequence.failure_of_reduce {terms : List Term} {earlier : Option Event} {error : Error}
    (fails : Sequence.reduce scope terms = .failed earlier error) :
    Failure scope earlier error := by
  induction terms using Sequence.induction with
  | nil => cases fails
  | name text tail ih =>
      rw [reduce_cons] at fails
      rcases Outcome.beside_eq_failed fails with inHead | inTail
      · unfold Term.reduce at inHead
        split at inHead
        · unfold Scope.receive at inHead
          split at inHead
          · cases inHead
          · rename_i line pending
            split at inHead
            · cases inHead
            · rename_i refusal refused
              cases inHead
              exact .unreadable pending refused
        · split at inHead
          · cases inHead
          · cases inHead
      · exact ih inTail
  | literal raw tail ih =>
      rw [reduce_cons] at fails
      rcases Outcome.beside_eq_failed fails with inHead | inTail
      · cases inHead
      · exact ih inTail
  | lam param body tail ofBody ih =>
      rw [reduce_cons] at fails
      rcases Outcome.beside_eq_failed fails with inHead | inTail
      · unfold Term.reduce at inHead
        split at inHead
        · cases inHead
        · cases inHead
      · exact ih inTail
  | define name body tail ofBody ih =>
      rw [reduce_cons] at fails
      rcases Outcome.beside_eq_failed fails with inHead | inTail
      · unfold Term.reduce at inHead
        split at inHead
        · rename_i known
          cases inHead
          exact .redefined known
        · cases inHead
      · exact ih inTail
  | app callee args tail ofCallee ofArgs ih =>
      rw [reduce_cons] at fails
      rcases Outcome.beside_eq_failed fails with inHead | inTail
      · rw [reduce_singleton] at ofCallee
        exact Term.failure_of_reduce_app inHead ofCallee ofArgs
      · exact ih inTail

end Reduction

/-! ## Steps that fail -/

namespace Outlet

theorem sink_offer (outlet : Outlet) (text : Text) : (outlet.offer text).2.sink = outlet.sink := by
  unfold offer
  dsimp only
  split <;> rfl

end Outlet

namespace Session

/-- One session is another one later, with nothing changed but for a line that may have been used
and for what came out of it. -/
structure Intact (earlier later : Session) : Prop where
  program : later.program = earlier.program
  macros : later.macros = earlier.macros
  settings : later.settings = earlier.settings
  steps : later.steps = earlier.steps
  awaiting : later.awaiting = earlier.awaiting
  sink : later.outlet.sink = earlier.outlet.sink
  pending : later.pending = earlier.pending ∨ later.pending = none

theorem Intact.refl (session : Session) : session.Intact session :=
  ⟨rfl, rfl, rfl, rfl, rfl, rfl, .inl rfl⟩

theorem Intact.trans {first second third : Session} (before : first.Intact second)
    (after : second.Intact third) : first.Intact third where
  program := after.program.trans before.program
  macros := after.macros.trans before.macros
  settings := after.settings.trans before.settings
  steps := after.steps.trans before.steps
  awaiting := after.awaiting.trans before.awaiting
  sink := after.sink.trans before.sink
  pending := by
    rcases after.pending with same | used
    · rw [same]
      exact before.pending
    · exact .inr used

theorem Silent.intact {earlier later : Session} (silent : earlier.Silent later) :
    earlier.Intact later := by
  obtain ⟨outlet, rfl, same⟩ := silent
  exact ⟨rfl, rfl, rfl, rfl, rfl, same.sink, .inl rfl⟩

theorem intact_perform (session : Session) {event : Event}
    (undefining : ∀ name body, event ≠ .defined name body) :
    session.Intact (session.perform event).2 := by
  apply (Silent.report session event).intact.trans
  cases event with
  | defined name body => exact absurd rfl (undefining name body)
  | received line => exact ⟨rfl, rfl, rfl, rfl, rfl, rfl, .inr rfl⟩
  | printed args => exact ⟨rfl, rfl, rfl, rfl, rfl, Outlet.sink_offer _ _, .inl rfl⟩
  | expanded name => exact .refl _
  | expandedUnder param => exact .refl _
  | substituted param args => exact .refl _

/-- Only what is printed is refused. -/
theorem exists_printed_of_refusal {session after : Session} {event : Event} {refusal : Error}
    (refuses : session.perform event = (some refusal, after)) : ∃ args, event = .printed args := by
  cases event with
  | printed args => exact ⟨args, rfl⟩
  | defined name body => cases refuses
  | received line => cases refuses
  | expanded name => cases refuses
  | expandedUnder param => cases refuses
  | substituted param args => cases refuses

theorem intact_of_settle {session after : Session} {event : Event} {reply : Reply} {error : Error}
    (undefining : reply = .failed error → ∀ name body, event ≠ .defined name body)
    (answer : session.settle event reply = (.failed error, after)) : session.Intact after := by
  unfold settle at answer
  split at answer
  · rename_i same performed
    obtain ⟨fails, rfl⟩ := Prod.mk.inj answer
    have intact := session.intact_perform (undefining fails)
    rwa [performed] at intact
  · rename_i refusal same performed
    obtain ⟨-, rfl⟩ := Prod.mk.inj answer
    obtain ⟨args, rfl⟩ := exists_printed_of_refusal performed
    have others : ∀ name body, Event.printed args ≠ .defined name body := nofun
    have intact := session.intact_perform others
    rwa [performed] at intact

/-- A reduction that fails defines no macro, whether it fails by itself or by a refusal. -/
theorem intact_of_reduce {session after : Session} {terms : List Term} {error : Error}
    (answer : session.reduce terms = (.failed error, after)) : session.Intact after := by
  rw [reduce] at answer
  cases found : Sequence.reduce session.scope terms with
  | stuck =>
      rw [found] at answer
      cases answer
  | awaiting =>
      rw [found] at answer
      cases answer
  | changed event next =>
      rw [found, conclude] at answer
      refine intact_of_settle ?_ answer
      intro impossible
      cases impossible
  | failed earlier reason =>
      rw [found] at answer
      cases earlier with
      | none =>
          cases answer
          exact .refl session
      | some event =>
          have failure := Sequence.failure_of_reduce found
          rw [conclude] at answer
          exact intact_of_settle (fun _ => failure.not_defined) answer

/-- A step that fails leaves the program, the macros, the settings, the number of steps, the
demand for a line and the sink as they were, and a pending line as it was or used up. -/
theorem intact_of_failed_step {session after : Session} {error : Error}
    (fails : session.step = (.error error, after)) : session.Intact after := by
  cases ready : session.awaiting with
  | true =>
      rw [step, ready] at fails
      cases fails
  | false =>
      rw [step_eq_reduce session ready] at fails
      split at fails
      · cases fails
      · cases fails
      · cases fails
      · rename_i reason reduced answer
        cases fails
        exact (Silent.announce session).intact.trans (intact_of_reduce answer)

/-- A callee that becomes two terms, after the line that it is read from has been used. -/
theorem intact_of_failed_callee :
    let session : Session :=
      { program := [.define "A".toList [], .app (.name Word.input) []], settings := {},
        pending := some "a b".toList, outlet := { sink := .buffer } }
    let session := session.step.2
    session.step = (.error (.calleeNotSingle Word.input 2), { session with pending := none }) ∧
      session.Intact { session with pending := none } := by
  intro start session
  have fails : session.step =
      (.error (.calleeNotSingle Word.input 2), { session with pending := none }) := by
    rfl
  exact ⟨fails, intact_of_failed_step fails⟩

end Session

end Splice
