import Splice.Proofs.Reduction.Request
import Splice.Proofs.Session.Log
import Splice.Proofs.Session.Reachable

/-!
# Suspension

A session that waits for a line, or has been given one, stands in front of one request in its
program. Steps, lines and the log keep it so. The step after the line comes to the same request
again, since neither the strategy nor the macros have changed, and reads the line into its place.
-/

namespace Splice

namespace Session

/-! ## Steps -/

/-- Between two sessions no demand for a line is made or met, and no line turns up. -/
structure Steady (earlier later : Session) : Prop where
  awaiting : later.awaiting = earlier.awaiting
  pending : earlier.pending = none → later.pending = none

theorem Silent.steady {earlier later : Session} (silent : earlier.Silent later) :
    earlier.Steady later := by
  obtain ⟨outlet, rfl, -⟩ := silent
  exact ⟨rfl, id⟩

theorem Steady.trans {first second third : Session} (before : first.Steady second)
    (after : second.Steady third) : first.Steady third where
  awaiting := after.awaiting.trans before.awaiting
  pending nothing := after.pending (before.pending nothing)

theorem steady_perform (session : Session) (event : Event) :
    session.Steady (session.perform event).2 := by
  apply (Silent.report session event).steady.trans
  cases event with
  | received line => exact ⟨rfl, fun _ => rfl⟩
  | defined name body => exact ⟨rfl, id⟩
  | printed args => exact ⟨rfl, id⟩
  | expanded name => exact ⟨rfl, id⟩
  | expandedUnder param => exact ⟨rfl, id⟩
  | substituted param args => exact ⟨rfl, id⟩

theorem steady_settle (session : Session) (event : Event) {reply : Reply}
    (answers : reply ≠ .awaiting) :
    (session.settle event reply).1 ≠ .awaiting ∧
      session.Steady (session.settle event reply).2 := by
  have steady := session.steady_perform event
  unfold settle
  generalize session.perform event = performed at steady ⊢
  rcases performed with ⟨_ | refusal, after⟩
  · exact ⟨answers, steady⟩
  · exact ⟨nofun, steady⟩

theorem steady_conclude (session : Session) {outcome : Outcome} (answers : outcome ≠ .awaiting) :
    (session.conclude outcome).1 ≠ .awaiting ∧
      session.Steady (session.conclude outcome).2 := by
  cases outcome with
  | stuck => exact ⟨nofun, (Silent.refl session).steady⟩
  | awaiting => exact absurd rfl answers
  | changed event next => exact session.steady_settle event nofun
  | failed earlier error =>
      cases earlier with
      | none => exact ⟨nofun, (Silent.refl session).steady⟩
      | some event => exact session.steady_settle event nofun

/-- A step finds a session waiting, comes to a request and turns the demand for a line on, or
has nothing to do with demands. -/
theorem step_cases (session : Session) :
    (session.awaiting = true ∧ session.step = (.ok .awaiting, session)) ∨
    (session.awaiting = false ∧
      Sequence.reduce session.scope session.program = .awaiting ∧
      session.step = (.ok .awaiting, { session.announce with awaiting := true })) ∨
    (session.awaiting = false ∧ session.step.1 ≠ .ok .awaiting ∧
      session.Steady session.step.2) := by
  cases ready : session.awaiting with
  | true => exact .inl ⟨rfl, by rw [step, if_pos ready]⟩
  | false =>
      refine .inr ?_
      rw [step_eq_reduce session ready, reduce_announce]
      by_cases awaits : Sequence.reduce session.scope session.program = .awaiting
      · rw [awaits]
        exact .inl ⟨rfl, rfl, rfl⟩
      · obtain ⟨answers, steady⟩ := session.announce.steady_conclude awaits
        have whole := (Silent.announce session).steady.trans steady
        refine .inr ⟨rfl, ?_⟩
        generalize session.announce.conclude _ = concluded at answers whole ⊢
        rcases concluded with ⟨_ | _ | next | error, after⟩
        · exact ⟨by simp, whole⟩
        · exact absurd rfl answers
        · exact ⟨by simp, whole.awaiting, whole.pending⟩
        · exact ⟨by simp, whole⟩

/-- A step that reports a demand for a line does nothing else than to make it. -/
theorem silent_of_step_awaiting {session : Session} (awaits : session.step.1 = .ok .awaiting) :
    Silent { session with awaiting := true } session.step.2 := by
  rcases session.step_cases with ⟨waits, same⟩ | ⟨ready, asks, same⟩ | ⟨ready, answers, -⟩
  · rw [same, ← waits]
    exact .refl session
  · obtain ⟨outlet, announced, silent⟩ := Silent.announce session
    rw [same, announced]
    exact ⟨outlet, rfl, silent⟩
  · exact absurd awaits answers

/-! ## Reading a line -/

/-- What becomes of a session whose line is read into the hole of a context. -/
inductive Reads (session : Session) (context : Context) (line : Text) :
    Except Error StepResult → Session → Prop where
  | spliced {terms next : List Term} {after : Session}
      (read : Sequence.parse Scope.lineName line = .ok terms)
      (filled : context.fill? terms = some next)
      (silent : Silent { session with
        pending := none, program := next, steps := session.steps + 1 } after) :
      Reads session context line (.ok .changed) after
  | unreadable {error : Error} {after : Session}
      (refused : Sequence.parse Scope.lineName line = .error error)
      (silent : Silent { session with pending := none } after) :
      Reads session context line (.error error) after
  | severalTerms {terms : List Term} {after : Session}
      (read : Sequence.parse Scope.lineName line = .ok terms)
      (callee : context.holdsCallee = true) (count : terms.length ≠ 1)
      (silent : Silent { session with pending := none } after) :
      Reads session context line (.error (.calleeNotSingle Word.input terms.length)) after

namespace Reads

variable {session after : Session} {context : Context} {line : Text}
  {result : Except Error StepResult}

theorem pending (reads : session.Reads context line result after) : after.pending = none := by
  cases reads with
  | spliced read filled silent => exact silent.steady.pending rfl
  | unreadable refused silent => exact silent.steady.pending rfl
  | severalTerms read callee count silent => exact silent.steady.pending rfl

/-- The line is gone after it is read, so it may be left out before. -/
theorem without_pending {given : Option Text}
    (reads : Reads { session with pending := given } context line result after) :
    session.Reads context line result after := by
  cases reads with
  | spliced read filled silent => exact .spliced read filled silent
  | unreadable refused silent => exact .unreadable refused silent
  | severalTerms read callee count silent => exact .severalTerms read callee count silent

theorem of_silent {later : Session} (quiet : session.Silent later)
    (reads : later.Reads context line result after) : session.Reads context line result after := by
  obtain ⟨outlet, rfl, same⟩ := quiet
  cases reads with
  | spliced read filled silent => exact .spliced read filled (.trans ⟨outlet, rfl, same⟩ silent)
  | unreadable refused silent => exact .unreadable refused (.trans ⟨outlet, rfl, same⟩ silent)
  | severalTerms read callee count silent =>
      exact .severalTerms read callee count (.trans ⟨outlet, rfl, same⟩ silent)

end Reads

/-- The step of a session with a line reads it into the place of the request that its program
comes to. -/
theorem step_reads {session : Session} {line : Text} {context : Context}
    (ready : session.awaiting = false) (pending : session.pending = some line)
    (asks : Sequence.Asks session.scope session.program context) :
    session.Reads context line session.step.1 session.step.2 := by
  have received : session.scope.pending = some line := pending
  obtain ⟨outlet, reported, silent⟩ :=
    (Silent.announce session).trans (.report session.announce (.received line))
  rw [step_eq_reduce session ready, reduce_announce, asks.reduce_eq, Context.receive, received]
  dsimp only
  cases read : Sequence.parse Scope.lineName line with
  | error error =>
      simp only [conclude, settle, perform, reported]
      exact .unreadable read ⟨outlet, rfl, silent⟩
  | ok terms =>
      dsimp only
      cases filled : context.fill? terms with
      | some next =>
          simp only [conclude, settle, perform, reported]
          exact .spliced read filled ⟨outlet, rfl, silent⟩
      | none =>
          obtain ⟨callee, count⟩ := (asks.fill_eq_none_iff terms).mp filled
          simp only [conclude, settle, perform, reported]
          exact .severalTerms read callee count ⟨outlet, rfl, silent⟩

/-! ## Demands for a line -/

theorem provide_eq_ok_iff {session provided : Session} {line : Text} :
    session.provide line = .ok provided ↔
      session.awaiting = true ∧
        provided = { session with awaiting := false, pending := some line } := by
  unfold provide
  cases waits : session.awaiting with
  | true => simp [eq_comm]
  | false => simp

/-- A session that waits for a line or has one stands in front of a request, and never does
both. -/
structure Coherent (session : Session) : Prop where
  pending : session.awaiting = true → session.pending = none
  asks : session.awaiting = true ∨ session.pending ≠ none →
    ∃ context, Sequence.Asks session.scope session.program context

namespace Coherent

variable {session : Session}

theorem of_idle (ready : session.awaiting = false) (nothing : session.pending = none) :
    session.Coherent where
  pending _ := nothing
  asks demands := by simp [ready, nothing] at demands

theorem silent {later : Session} (coherent : session.Coherent) (silent : session.Silent later) :
    later.Coherent := by
  obtain ⟨outlet, rfl, -⟩ := silent
  exact ⟨coherent.pending, coherent.asks⟩

/-- A line that is pending is read in the next step. -/
theorem reads {line : Text} (coherent : session.Coherent)
    (pending : session.pending = some line) :
    ∃ context, session.Reads context line session.step.1 session.step.2 := by
  have present : session.pending ≠ none := by simp [pending]
  have ready : session.awaiting = false := by
    rw [← Bool.not_eq_true]
    exact fun waits => present (coherent.pending waits)
  obtain ⟨context, asks⟩ := coherent.asks (.inr present)
  exact ⟨context, step_reads ready pending asks⟩

/-- A line is gone after one step. -/
theorem step_pending (coherent : session.Coherent) : session.step.2.pending = none := by
  cases held : session.pending with
  | none =>
      rcases session.step_cases with ⟨-, same⟩ | ⟨-, -, same⟩ | ⟨-, -, steady⟩
      · rw [same]
        exact held
      · rw [same]
        exact (Silent.announce session).steady.pending held
      · exact steady.pending held
  | some line =>
      obtain ⟨context, reads⟩ := coherent.reads held
      exact reads.pending

theorem step (coherent : session.Coherent) : session.step.2.Coherent := by
  have gone := coherent.step_pending
  rcases session.step_cases with ⟨-, same⟩ | ⟨ready, awaits, same⟩ | ⟨ready, -, steady⟩
  · rw [same]
    exact coherent
  · -- The demand is new, and the request is the one that the reduction came to.
    obtain ⟨context, asks⟩ := Sequence.asks_of_reduce awaits
    obtain ⟨outlet, announced, -⟩ := Silent.announce session
    rw [same, announced] at gone ⊢
    exact ⟨fun _ => gone, fun _ => ⟨context, asks⟩⟩
  · exact .of_idle (steady.awaiting.trans ready) gone

theorem provide {provided : Session} {line : Text}
    (provides : session.provide line = .ok provided) (coherent : session.Coherent) :
    provided.Coherent := by
  obtain ⟨waits, rfl⟩ := provide_eq_ok_iff.mp provides
  obtain ⟨context, asks⟩ := coherent.asks (.inl waits)
  exact ⟨nofun, fun _ => ⟨context, asks.with_pending (some line)⟩⟩

theorem preserved : Preserved Coherent where
  step := step
  provide := provide
  log line coherent := coherent.silent (.log _ line)

theorem of_reachable {program : List Term} {settings : Settings} {sink : Sink}
    (reachable : (new program settings sink).Reachable session) : session.Coherent :=
  preserved.of_reachable reachable (of_idle rfl rfl)

/-- A run that takes a step leaves no line. -/
theorem carries : Carries
    (fun session => session.Coherent ∧ (session.pending = none ∨ session.reachedLimit? = none))
    (fun session => session.pending = none) where
  running := by
    rintro session later turn ⟨coherent, -⟩
    rcases round_cases turn with ⟨limit, -, halts, -⟩ | ⟨-, -, rfl⟩
    · cases halts
    · exact ⟨coherent.step, .inl coherent.step_pending⟩
  stopping := by
    rintro session later round turn - ⟨coherent, free⟩
    rcases round_cases turn with ⟨limit, reached, -, rfl⟩ | ⟨-, -, rfl⟩
    · have nothing : session.pending = none := by simpa [reached] using free
      exact nothing
    · exact coherent.step_pending
  resuming := by
    rintro session later provided line turn provides ⟨coherent, -⟩
    rcases round_cases turn with ⟨limit, -, halts, -⟩ | ⟨unlimited, awaits, rfl⟩
    · cases halts
    · -- A step that only makes a demand does not come closer to the limit.
      obtain ⟨outlet, same, -⟩ := silent_of_step_awaiting (Round.ofStep_eq_awaiting awaits.symm)
      refine ⟨coherent.step.provide provides, .inr ?_⟩
      obtain ⟨-, rfl⟩ := provide_eq_ok_iff.mp provides
      rw [same]
      exact unlimited

end Coherent

/-! ## Actions without a step -/

/-- A run at the limit leaves nothing but a notice. -/
theorem carries_notice {session : Session} {limit : Nat}
    (reached : session.reachedLimit? = some limit) :
    Carries (fun other => other = session) session.Silent where
  running := by
    rintro other later turn rfl
    rcases round_cases turn with ⟨_, -, halts, -⟩ | ⟨unlimited, -, -⟩
    · cases halts
    · simp [reached] at unlimited
  stopping := by
    rintro other later round turn - rfl
    rcases round_cases turn with ⟨_, -, -, rfl⟩ | ⟨unlimited, -, -⟩
    · exact .log other _
    · simp [reached] at unlimited
  resuming := by
    rintro other later provided line turn - rfl
    rcases round_cases turn with ⟨_, -, halts, -⟩ | ⟨unlimited, -, -⟩
    · cases halts
    · simp [reached] at unlimited

theorem silent_of_runsTo {session next : Session}
    (reached : session.reachedLimit?.isNone = false) (runs : session.RunsTo next) :
    session.Silent next := by
  obtain ⟨limit, found⟩ := Option.isSome_iff_exists.mp (Option.isNone_eq_false_iff.mp reached)
  exact runs (carries_notice found) rfl

/-- A session that does not wait for a line goes unchanged through actions without a step. -/
theorem Idles.silent {session later : Session} (idles : session.Idles later)
    (ready : session.awaiting = false) : session.Silent later := by
  induction idles with
  | start => exact .refl session
  | @act middle next fuel action result earlier idle acts ih =>
      -- Nothing is demanded on the way, so lines are refused and runs stand at the limit.
      apply ih.trans
      rcases act_cases acts with ⟨rfl, -⟩ | ⟨line, -, provides | rfl⟩ | ⟨starts, runs⟩
      · cases idle
      · obtain ⟨waits, -⟩ := provide_eq_ok_iff.mp provides
        rw [ih.steady.awaiting, ready] at waits
        cases waits
      · exact .refl next
      · rw [idle] at starts
        exact silent_of_runsTo starts.symm runs

/-- A line that is pending after an action without a step was pending before or has been handed
over, and after an action with a step no line is pending. -/
theorem Coherent.pending_of_act {session next : Session} {fuel : Nat} {action : Action}
    {result : Except Error Report} {line : Text} (coherent : session.Coherent)
    (acts : session.act fuel action = some (result, next)) (pending : next.pending = some line) :
    session.takesStep action = false ∧
      (session.pending = some line ∨ session.awaiting = true ∧ action = .provide line) := by
  rcases act_cases acts with ⟨rfl, rfl⟩ | ⟨other, rfl, provides | rfl⟩ | ⟨starts, runs⟩
  · rw [coherent.step_pending] at pending
    cases pending
  · obtain ⟨waits, rfl⟩ := provide_eq_ok_iff.mp provides
    cases pending
    exact ⟨rfl, .inr ⟨waits, rfl⟩⟩
  · exact ⟨rfl, .inl pending⟩
  · cases reached : session.reachedLimit? with
    | none =>
        have gone := runs Coherent.carries ⟨coherent, .inr reached⟩
        rw [gone] at pending
        cases pending
    | some limit =>
        obtain ⟨outlet, rfl, -⟩ := runs (carries_notice reached) rfl
        rw [reached] at starts
        exact ⟨starts, .inl pending⟩

/-! ## Reachable sessions -/

/-- In every session within reach: a step that reports a demand for a line makes it and does
nothing else; a demand and a line exclude each other, a line is refused unless there is a demand,
and a line is pending only from when it is handed over to the next step; and the program of a
session that waits comes to one request, into whose place that step reads the line. -/
theorem suspension_of_reachable {program : List Term} {settings : Settings} {sink : Sink}
    {session : Session} (reachable : (new program settings sink).Reachable session) :
    (session.step.1 = .ok .awaiting → Silent { session with awaiting := true } session.step.2) ∧
    (session.awaiting = true → session.pending = none) ∧
    (∀ fuel line, session.awaiting = false →
      session.act fuel (.provide line) = some (.error .inputRejected, session)) ∧
    session.step.2.pending = none ∧
    (∀ fuel action result next line, session.act fuel action = some (result, next) →
      next.pending = some line →
        session.takesStep action = false ∧
          (session.pending = some line ∨ session.awaiting = true ∧ action = .provide line)) ∧
    (session.awaiting = true →
      ∃ context, (∀ other, Sequence.Asks session.scope session.program other ↔ other = context) ∧
        context.fill? [.name Word.input] = some session.program ∧
        ∀ line provided later, session.provide line = .ok provided → provided.Idles later →
          Reads { session with awaiting := false } context line later.step.1 later.step.2) := by
  have coherent := Coherent.of_reachable reachable
  refine ⟨silent_of_step_awaiting, coherent.pending, ?_, coherent.step_pending, ?_, ?_⟩
  · intro fuel line ready
    rw [act, provide, ready]
    rfl
  · intro fuel action result next line acts pending
    exact coherent.pending_of_act acts pending
  · intro waits
    obtain ⟨context, asks⟩ := coherent.asks (.inl waits)
    refine ⟨context, ?_, asks.fill_input, ?_⟩
    · intro other
      constructor
      · exact asks.unique
      · rintro rfl
        exact asks
    · intro line provided later provides idles
      obtain ⟨-, rfl⟩ := provide_eq_ok_iff.mp provides
      have silent := idles.silent rfl
      have reads : later.Reads context line later.step.1 later.step.2 := by
        obtain ⟨outlet, rfl, -⟩ := silent
        exact step_reads rfl rfl (asks.with_pending (some line))
      exact (reads.of_silent silent).without_pending

/-- A callee asks for a line inside of arguments, and a second line is refused before the first
one is read. -/
theorem suspension_of_asking_callee :
    let start := new [.name "F".toList, .app (.name "G".toList) [.literal "PoXop".toList,
      .app (.name Word.input) [.name Word.input]]] {} .buffer
    let waiting := start.step.2
    let provided : Session := { waiting with awaiting := false, pending := some "A".toList }
    start.Reachable waiting ∧ start.step.1 = .ok .awaiting ∧ waiting.awaiting = true ∧
      waiting.provide "A".toList = .ok provided ∧ provided.Idles provided ∧
      provided.step.2.program = [.name "F".toList, .app (.name "G".toList)
        [.literal "PoXop".toList, .app (.name "A".toList) [.name Word.input]]] ∧
      Silent { start with awaiting := true } waiting ∧
      ∃ context, (∀ other, Sequence.Asks waiting.scope waiting.program other ↔
          other = context) ∧
        context.fill? [.name Word.input] = some waiting.program ∧
        Reads { waiting with awaiting := false } context "A".toList provided.step.1
          provided.step.2 := by
  intro start waiting provided
  have stepped : start.act 0 .step = some (.ok (.stepped .awaiting), waiting) := rfl
  have reached : start.Reachable waiting := .act .start trivial stepped
  have refused : provided.act 0 (.provide "B".toList) =
      some (.error .inputRejected, provided) := rfl
  have idles : provided.Idles provided := .act .start rfl refused
  have provides : waiting.provide "A".toList = .ok provided := rfl
  refine ⟨reached, rfl, rfl, provides, idles, rfl, (suspension_of_reachable .start).1 rfl, ?_⟩
  obtain ⟨context, unique, filled, reads⟩ :=
    (suspension_of_reachable reached).2.2.2.2.2 rfl
  exact ⟨context, unique, filled, reads _ provided provided provides idles⟩

end Session

end Splice
