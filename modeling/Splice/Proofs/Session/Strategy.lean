import Splice.Proofs.Reduction.Focus
import Splice.Proofs.Reduction.NormalForm
import Splice.Proofs.Session.Limit

/-!
# Two strategies

A program has the same normal forms under both strategies, and both strategies come to the same
redex in it, with one exception: where the lazy strategy substitutes arguments in the body of a
function that does not print, the other one may find something to reduce in the arguments.
-/

namespace Splice

/-- The same scope under another strategy. -/
def Scope.under (scope : Scope) (strategy : Strategy) : Scope :=
  { scope with strategy := strategy }

/-- The application of a function to arguments at which the strategies part: the body of the
function is ready and does not print, and there is something to reduce in the arguments. -/
structure Scope.PartsAt (scope : Scope) (body args : List Term) : Prop where
  settled : Sequence.expand? scope.macros body = none
  silent : Sequence.mentionsPrint body = false
  moves : Sequence.reduce (scope.under .legacy) args ≠ .stuck

/-! ## Reductions -/

section Reduction

variable {scope : Scope}

theorem Context.Leads.legacy {part whole : List Term} {context : Context}
    (leads : context.Leads (scope.under .lazy) part whole) :
    context.Leads (scope.under .legacy) part whole := by
  induction leads with
  | here => exact .here
  | beside quiet leads back ih =>
      refine .beside ?_ ih back
      exact Sequence.reduce_eq_stuck_of_macros quiet rfl
  | inCallee undefining leads args ih => exact .inCallee undefining ih args
  | inArgs settled defers leads ih =>
      refine .inArgs ?_ ?_ ih
      · exact Term.reduce_eq_stuck_of_macros settled rfl
      · -- Under the lazy strategy a function leaves nothing to its arguments.
        intro param body same
        exact absurd rfl (defers param body same).1

/-- A context that takes one term in its hole takes any other. -/
theorem Context.exists_fill {context : Context} {term : Term} {terms : List Term}
    (filled : context.fill? [term] = some terms) (other : Term) :
    ∃ next, context.fill? [other] = some next ∧ next.length = terms.length := by
  induction context generalizing terms with
  | hole =>
      cases filled
      exact ⟨[other], rfl, rfl⟩
  | beside front inner back ih =>
      obtain ⟨middle, inside, rfl⟩ := Option.map_eq_some_iff.mp filled
      obtain ⟨next, fills, length⟩ := ih inside
      exact ⟨front ++ next ++ back, by rw [fill?, fills, Option.map_some], by simp [length]⟩
  | inBody param inner ih =>
      obtain ⟨body, inside, rfl⟩ := Option.map_eq_some_iff.mp filled
      obtain ⟨next, fills, -⟩ := ih inside
      exact ⟨[.lam param next], by rw [fill?, fills, Option.map_some], rfl⟩
  | inCallee inner args ih =>
      unfold fill? at filled
      split at filled
      · rename_i callee inside
        cases filled
        obtain ⟨next, fills, length⟩ := ih inside
        obtain ⟨single, rfl⟩ := List.length_eq_one_iff.mp length
        exact ⟨[.app single args], by rw [fill?, fills], rfl⟩
      · cases filled
  | inArgs callee inner ih =>
      obtain ⟨args, inside, rfl⟩ := Option.map_eq_some_iff.mp filled
      obtain ⟨next, fills, -⟩ := ih inside
      exact ⟨[.app callee next], by rw [fill?, fills, Option.map_some], rfl⟩

/-- A redex of the lazy strategy is one of the other strategy, unless it is an application at
which they part. -/
theorem Term.Fires.legacy {redex : Term} {outcome : Outcome}
    (fires : redex.Fires (scope.under .lazy) outcome) :
    redex.Fires (scope.under .legacy) outcome ∨
      ∃ param body args, redex = .app (.lam param body) args ∧ scope.PartsAt body args := by
  cases fires with
  | request => exact .inl .request
  | expansion other known => exact .inl (.expansion other known)
  | expansionUnder expands => exact .inl (.expansionUnder expands)
  | definition body fresh => exact .inl (.definition body fresh)
  | redefinition body known => exact .inl (.redefinition body known)
  | definedCallee name body args => exact .inl (.definedCallee name body args)
  | @substitution param body args settled ready =>
      by_cases quiet : Sequence.reduce (scope.under .legacy) args = .stuck
      · exact .inl (.substitution settled (.inr (.inr quiet)))
      · cases prints : Sequence.mentionsPrint body with
        | true => exact .inl (.substitution settled (.inr (.inl prints)))
        | false => exact .inr ⟨param, body, args, rfl, settled, prints, quiet⟩
  | printing settled printable =>
      refine .inl (.printing ?_ printable)
      exact Term.reduce_eq_stuck_of_macros settled rfl

/-- A sequence is reduced in the same way under both strategies, unless the lazy one comes to an
application at which they part. -/
theorem Sequence.reduce_legacy_cases (scope : Scope) (terms : List Term) :
    Sequence.reduce (scope.under .legacy) terms = Sequence.reduce (scope.under .lazy) terms ∨
      ∃ (context : Context) (param : Text) (body args : List Term),
        context.Leads (scope.under .lazy) [.app (.lam param body) args] terms ∧
          scope.PartsAt body args := by
  by_cases quiet : Sequence.reduce (scope.under .lazy) terms = .stuck
  · left
    rw [quiet]
    exact reduce_eq_stuck_of_macros quiet rfl
  · obtain ⟨context, redex, outcome, leads, fires⟩ := hasFocus_of_reduce quiet
    rcases fires.legacy with both | ⟨param, body, args, rfl, parts⟩
    · left
      rw [leads.reduce_of_fires fires, leads.legacy.reduce_of_fires both]
    · exact .inr ⟨context, param, body, args, leads, parts⟩

end Reduction

/-! ## Steps -/

/-- An event that touches nothing but the program. -/
def Event.Internal : Event → Prop
  | .expanded _ | .expandedUnder _ | .substituted _ _ => True
  | .defined _ _ | .received _ | .printed _ => False

namespace Session

section Internal

variable {session : Session} {event : Event}

theorem perform_of_internal (session : Session) (internal : event.Internal) :
    ∃ after, session.announce.perform event = (none, after) ∧ session.Silent after := by
  have silent := (Silent.announce session).trans (.report session.announce event)
  cases event with
  | expanded name => exact ⟨_, rfl, silent⟩
  | expandedUnder param => exact ⟨_, rfl, silent⟩
  | substituted param args => exact ⟨_, rfl, silent⟩
  | defined name body => exact internal.elim
  | received line => exact internal.elim
  | printed args => exact internal.elim

/-- A step in which nothing but the program is touched. -/
theorem step_of_internal {next : List Term} (ready : session.awaiting = false)
    (outcome : Sequence.reduce session.scope session.program = .changed event next)
    (internal : event.Internal) :
    session.step.1 = .ok .changed ∧
      Silent { session with program := next, steps := session.steps + 1 } session.step.2 := by
  obtain ⟨after, performs, outlet, rfl, silent⟩ := session.perform_of_internal internal
  rw [step_eq_reduce session ready, reduce_announce, outcome]
  rw [conclude, settle, performs]
  exact ⟨rfl, outlet, rfl, silent⟩

theorem step_of_internal_failure {error : Error} (ready : session.awaiting = false)
    (outcome : Sequence.reduce session.scope session.program = .failed (some event) error)
    (internal : event.Internal) :
    session.step.1 = .error error ∧ session.Silent session.step.2 := by
  obtain ⟨after, performs, silent⟩ := session.perform_of_internal internal
  rw [step_eq_reduce session ready, reduce_announce, outcome]
  rw [conclude, settle, performs]
  exact ⟨rfl, silent⟩

end Internal

/-- The same session under another strategy. -/
def under (session : Session) (strategy : Strategy) : Session :=
  { session with settings := { session.settings with strategy := strategy } }

section Under

variable (session : Session) (strategy : Strategy)

theorem announce_under : (session.under strategy).announce = session.announce.under strategy := by
  have same : (session.under strategy).settings.trace = session.settings.trace := rfl
  unfold announce
  rw [same]
  split
  · rfl
  · rfl

theorem perform_under (event : Event) :
    (session.under strategy).perform event =
      ((session.perform event).1, (session.perform event).2.under strategy) := by
  have reported : (session.under strategy).report event =
      (session.report event).under strategy := by
    have same : (session.under strategy).settings.debug = session.settings.debug := rfl
    unfold report
    rw [same]
    split
    · rfl
    · rfl
  unfold perform
  rw [reported]
  cases event <;> rfl

theorem conclude_under (outcome : Outcome) :
    (session.under strategy).conclude outcome =
      ((session.conclude outcome).1, (session.conclude outcome).2.under strategy) :=
  conclude_of_perform (·.under strategy) fun event _ => session.perform_under strategy event

/-- Where a program is reduced in the same way under another strategy, the step is the same. -/
theorem step_under
    (same : Sequence.reduce (session.scope.under strategy) session.program =
      Sequence.reduce session.scope session.program) :
    (session.under strategy).step = (session.step.1, session.step.2.under strategy) := by
  cases ready : session.awaiting with
  | true =>
      have waits : (session.under strategy).awaiting = true := ready
      rw [step, if_pos waits, step, if_pos ready]
  | false =>
      rw [step_eq_reduce session ready, step_eq_reduce (session.under strategy) ready,
        reduce_announce, reduce_announce, announce_under, conclude_under]
      have scopes : (session.under strategy).scope = session.scope.under strategy := rfl
      have programs : (session.under strategy).program = session.program := rfl
      rw [scopes, programs, same]
      rcases session.announce.conclude _ with ⟨_ | _ | next | error, after⟩ <;> rfl

end Under

/-! ## Steps in a part of the program -/

/-- The same session with another program. -/
def running (session : Session) (program : List Term) : Session :=
  { session with program := program }

theorem conclude_running (session : Session) (program : List Term) (outcome : Outcome) :
    (session.running program).conclude outcome =
      ((session.conclude outcome).1, (session.conclude outcome).2.running program) := by
  have performed : ∀ event, (session.running program).perform event =
      ((session.perform event).1, (session.perform event).2.running program) := by
    intro event
    have reported : (session.running program).report event =
        (session.report event).running program := by
      have same : (session.running program).settings = session.settings := rfl
      unfold report
      rw [same]
      split
      · rfl
      · rfl
    unfold perform
    rw [reported]
    cases event <;> rfl
  exact conclude_of_perform (·.running program) fun event _ => performed event

theorem program_conclude (session : Session) (outcome : Outcome) :
    (session.conclude outcome).2.program = session.program :=
  congrArg (·.2.program) (session.conclude_running session.program outcome)

/-- Where a program is reduced as a part of it is, a step is a step of the part by itself. -/
theorem step_of_part {session : Session} {part : List Term} {rebuild : List Term → List Term}
    (ready : session.awaiting = false)
    (outcome : Sequence.reduce session.scope session.program =
      (Sequence.reduce session.scope part).within rebuild)
    (whole : rebuild part = session.program) :
    session.step.1 = (session.running part).step.1 ∧
      Alike id ((session.running part).step.2.running
        (rebuild (session.running part).step.2.program)) session.step.2 := by
  have announced : Alike id ((session.running part).announce.running session.program)
      session.announce := by
    refine (Alike.refl session).silent ?_ (.announce session)
    obtain ⟨outlet, same, silent⟩ := Silent.announce (session.running part)
    rw [same]
    exact ⟨outlet, rfl, silent⟩
  obtain ⟨reply, later⟩ := announced.conclude (Sequence.reduce session.scope part)
  rw [conclude_running] at reply later
  rw [step_eq_reduce session ready, step_eq_reduce (session.running part) ready, reduce_announce,
    reduce_announce, outcome, conclude_within]
  have scopes : (session.running part).scope = session.scope := rfl
  have programs : (session.running part).program = part := rfl
  rw [scopes, programs]
  have kept := (session.running part).announce.program_conclude (Sequence.reduce session.scope part)
  rw [(Silent.announce (session.running part)).alongside.program, programs] at kept
  generalize session.announce.conclude _ = concluded at reply later ⊢
  generalize (session.running part).announce.conclude _ = alone at reply later kept ⊢
  obtain ⟨answer, after⟩ := concluded
  obtain ⟨answer', after'⟩ := alone
  cases reply
  dsimp only at kept later
  cases answer with
  | changed next =>
      exact ⟨rfl, { later with program := rfl, steps := congrArg (· + 1) later.steps }⟩
  | unchanged =>
      refine ⟨rfl, ?_⟩
      rw [kept, whole]
      exact later
  | awaiting =>
      refine ⟨rfl, ?_⟩
      rw [kept, whole]
      exact { later with awaiting := rfl }
  | failed error =>
      refine ⟨rfl, ?_⟩
      rw [kept, whole]
      exact later

/-! ## Where the strategies part -/

/-- How a step ends that substitutes arguments as they are in the body of a function, in the hole
of a context. If the application is a callee, it has to become one term. -/
inductive Applies (session : Session) (context : Context) (param : Text) (body args : List Term) :
    Except Error StepResult → Session → Prop where
  | substituted {next : List Term} {after : Session}
      (filled : context.fill? (Sequence.substitute param args body) = some next)
      (silent : Silent { session with program := next, steps := session.steps + 1 } after) :
      Applies session context param body args (.ok .changed) after
  | refused {after : Session}
      (unfilled : context.fill? (Sequence.substitute param args body) = none)
      (count : (Sequence.substitute param args body).length ≠ 1) (silent : session.Silent after) :
      Applies session context param body args
        (.error (.calleeNotSingle (Term.app (.lam param body) args).source
          (Sequence.substitute param args body).length)) after

/-- A step is a step of the arguments by themselves, in an application in the hole of a
context. -/
structure StepsWithin (session : Session) (context : Context) (callee : Term) (args : List Term) :
    Prop where
  result : session.step.1 = (session.running args).step.1
  program : context.fill? [.app callee (session.running args).step.2.program] =
    some session.step.2.program
  macros : session.step.2.macros = (session.running args).step.2.macros
  prints : session.step.2.outlet.prints = (session.running args).step.2.outlet.prints
  pending : session.step.2.pending = (session.running args).step.2.pending
  awaiting : session.step.2.awaiting = (session.running args).step.2.awaiting
  steps : session.step.2.steps = (session.running args).step.2.steps

section Parting

variable {session : Session} {context : Context} {param : Text} {body args : List Term}

theorem applies_of_leads (ready : session.awaiting = false)
    (leads : context.Leads session.scope [.app (.lam param body) args] session.program)
    (fires : (Term.app (.lam param body) args).Fires session.scope
      (.substitution param body args)) :
    session.Applies context param body args session.step.1 session.step.2 := by
  have outcome := leads.reduce_of_fires fires
  rw [Outcome.substitution, Outcome.inside] at outcome
  cases filled : context.fill? (Sequence.substitute param args body) with
  | some next =>
      rw [filled] at outcome
      obtain ⟨changes, silent⟩ := step_of_internal ready outcome True.intro
      rw [changes]
      exact .substituted filled silent
  | none =>
      rw [filled] at outcome
      obtain ⟨fails, silent⟩ := step_of_internal_failure ready outcome True.intro
      rw [fails]
      refine .refused filled ?_ silent
      intro single
      obtain ⟨term, same⟩ := List.length_eq_one_iff.mp single
      obtain ⟨next, fills, -⟩ := Context.exists_fill leads.fill term
      rw [same, fills] at filled
      cases filled

theorem stepsWithin_of_leads (ready : session.awaiting = false)
    (leads : context.Leads session.scope [.app (.lam param body) args] session.program)
    (inArgs : Context.Leads session.scope args (.inArgs (.lam param body) .hole)
      [.app (.lam param body) args])
    (moves : Sequence.reduce session.scope args ≠ .stuck) :
    session.StepsWithin context (.lam param body) args := by
  -- The application stays one term, so it can be put back wherever it stands.
  let rebuild (next : List Term) : List Term :=
    (context.fill? [.app (.lam param body) next]).getD []
  have fills : ∀ next, context.fill? [.app (.lam param body) next] = some (rebuild next) := by
    intro next
    obtain ⟨whole, filled, -⟩ := Context.exists_fill leads.fill (.app (.lam param body) next)
    simp [rebuild, filled]
  have application := inArgs.reduce_eq moves
  have inside : Sequence.reduce session.scope session.program =
      (Sequence.reduce session.scope args).within rebuild := by
    have moving : Sequence.reduce session.scope [.app (.lam param body) args] ≠ .stuck := by
      rw [application]
      exact Outcome.inside_ne_stuck moves
    rw [leads.reduce_eq moving, application]
    cases Sequence.reduce session.scope args with
    | stuck => rfl
    | awaiting => rfl
    | failed earlier error => rfl
    | changed event next =>
        have filled := fills next
        simp [Outcome.inside, Context.fill?, filled]
  have whole : rebuild args = session.program := by
    have filled := fills args
    rw [leads.fill] at filled
    exact (Option.some.inj filled).symm
  obtain ⟨result, alike⟩ := step_of_part ready inside whole
  exact
    { result := result
      program := by
        rw [alike.program]
        exact fills _
      macros := alike.macros
      prints := alike.abreast.prints
      pending := alike.pending
      awaiting := alike.awaiting
      steps := alike.steps }

/-- A step converges under one strategy exactly when it does under the other. If the two steps
differ in anything, then the lazy one is the application of a function, whose body does not print,
to arguments that the other strategy can reduce, and the other step is a step of these arguments
in their place. -/
theorem strategies_part_at_arguments (session : Session) :
    ((session.under .lazy).step.1 = .ok .converged ↔
      (session.under .legacy).step.1 = .ok .converged) ∧
    ((session.under .legacy).step ≠
        ((session.under .lazy).step.1, (session.under .lazy).step.2.under .legacy) →
      ∃ (context : Context) (param : Text) (body args : List Term),
        context.fill? [.app (.lam param body) args] = some session.program ∧
        Sequence.mentionsPrint body = false ∧
        Sequence.reduce (session.under .legacy).scope args ≠ .stuck ∧
        (session.under .lazy).Applies context param body args (session.under .lazy).step.1
          (session.under .lazy).step.2 ∧
        (session.under .legacy).StepsWithin context (.lam param body) args) := by
  cases ready : session.awaiting with
  | true =>
      have waits : ∀ strategy, (session.under strategy).step =
          (.ok .awaiting, session.under strategy) := by
        intro strategy
        have awaits : (session.under strategy).awaiting = true := ready
        rw [step, if_pos awaits]
      rw [waits .lazy, waits .legacy]
      exact ⟨Iff.rfl, fun differ => absurd rfl differ⟩
  | false =>
      have converges : ∀ strategy, (session.under strategy).step.1 = .ok .converged ↔
          ∀ term ∈ session.program, term.Normal session.macros := by
        intro strategy
        have idle : (session.under strategy).awaiting = false := ready
        rw [step_eq_converged_iff idle]
        exact Sequence.reduce_eq_stuck_iff _ session.program
      refine ⟨(converges .lazy).trans (converges .legacy).symm, ?_⟩
      intro differ
      rcases Sequence.reduce_legacy_cases session.scope session.program with
        same | ⟨context, param, body, args, leads, settled, silent, moves⟩
      · exact absurd ((session.under .lazy).step_under .legacy same) differ
      · have fires : (Term.app (.lam param body) args).Fires (session.under .lazy).scope
            (.substitution param body args) := .substitution settled (.inl rfl)
        have inArgs : Context.Leads (session.under .legacy).scope args
            (.inArgs (.lam param body) .hole) [.app (.lam param body) args] := by
          refine .inArgs ((Term.reduce_lam_eq_stuck_iff param body).mpr settled) ?_ .here
          rintro _ _ ⟨⟩
          exact ⟨by simp [scope, under], silent⟩
        exact ⟨context, param, body, args, leads.fill, silent, moves,
          applies_of_leads ready leads fires, stepsWithin_of_leads ready leads.legacy inArgs moves⟩

end Parting

/-- An argument that prints is copied under the lazy strategy, and printed before that under the
other one. -/
theorem strategies_part_at_printing_argument :
    let print : Term := .app (.name Word.print) [.literal "PoAop".toList]
    let session := new [.app (.lam "x".toList [.name "x".toList, .name "x".toList]) [print]] {}
      .buffer
    (session.under .lazy).step.2.program = [print, print] ∧
      (session.under .legacy).step.2.outlet.prints = ["A".toList] ∧
      ∃ (context : Context) (param : Text) (body args : List Term),
        context.fill? [.app (.lam param body) args] = some session.program ∧
        Sequence.mentionsPrint body = false ∧
        Sequence.reduce (session.under .legacy).scope args ≠ .stuck ∧
        (session.under .lazy).Applies context param body args (session.under .lazy).step.1
          (session.under .lazy).step.2 ∧
        (session.under .legacy).StepsWithin context (.lam param body) args := by
  intro print session
  have copied : (session.under .lazy).step.2.program = [print, print] := by rfl
  have differ : (session.under .legacy).step ≠
      ((session.under .lazy).step.1, (session.under .lazy).step.2.under .legacy) := by
    intro same
    have programs := congrArg (·.2.program.length) same
    revert programs
    decide +kernel
  exact ⟨copied, by decide +kernel, session.strategies_part_at_arguments.2 differ⟩

/-- The lazy strategy may also fail where the other one goes on: two terms come of an application
that is a callee, and the lazy step contracts nothing. -/
theorem lazy_step_refused_at_callee :
    let print : Term := .app (.name Word.print) [.literal "PoAop".toList]
    let callee : Term := .app (.lam "x".toList [.name "x".toList, .name "x".toList]) [print]
    let session := new [.app callee []] {} .buffer
    (session.under .legacy).step ≠
        ((session.under .lazy).step.1, (session.under .lazy).step.2.under .legacy) ∧
      (session.under .legacy).step.1 = .ok .changed ∧
      (session.under .lazy).step = (.error (.calleeNotSingle callee.source 2), session) ∧
      ¬ ∃ (context : Context) (param : Text) (body args next : List Term),
        context.fill? [.app (.lam param body) args] = some session.program ∧
        context.fill? (Sequence.substitute param args body) = some next ∧
        (session.under .lazy).step.1 = .ok .changed ∧
        (session.under .lazy).step.2.program = next := by
  intro print callee session
  have refused : (session.under .lazy).step =
      (.error (.calleeNotSingle callee.source 2), session) := by
    rfl
  have changes : (session.under .legacy).step.1 = .ok .changed := by
    rfl
  refine ⟨?_, changes, refused, ?_⟩
  · intro same
    rw [same, refused] at changes
    cases changes
  · rintro ⟨_, _, _, _, _, -, -, contracts, -⟩
    rw [refused] at contracts
    cases contracts

end Session

end Splice
