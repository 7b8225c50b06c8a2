import Splice.Proofs.Session.Course
import Splice.Proofs.Session.Step
import Splice.Proofs.Session.Suspension

/-!
# Stages

Apart from its dealings with the host, a session goes through stages: programs with their macros,
with what has been printed and with the lines that are left. Each stage comes from the one before
by one contraction, and nothing else than the program at the start and the supply of lines tells
which stages these are. Waiting for a line, refusing one and writing a log are not seen in them.
-/

namespace Splice

/-- A sink that takes every text. -/
def Sink.Accepts (sink : Sink) : Prop :=
  ∀ earlier text, sink.verdict earlier text = none

theorem Outlet.prints_offer {outlet : Outlet} (accepts : outlet.sink.Accepts) (text : Text) :
    (outlet.offer text).2.prints = outlet.prints ++ [text] := by
  simp [Outlet.offer, accepts _ text, Outlet.prints, Outlet.emissions, Emission.print?]

namespace Event

/-- The macros after an event. -/
def extend (macros : MacroTable) : Event → MacroTable
  | defined name body => macros.insert name body
  | _ => macros

/-- The texts that an event prints. -/
def texts (hollow : Hollow) : Event → List Text
  | printed args => [Sequence.output hollow args]
  | _ => []

/-- The lines that an event leaves. -/
def leave (lines : List Text) : Event → List Text
  | received _ => lines.tail
  | _ => lines

end Event

/-- What a run has come to, apart from the dealings with the host. -/
structure Stage where
  program : List Term
  macros : MacroTable
  /-- What has been printed. -/
  prints : List Text
  /-- The lines that have not been used. -/
  lines : List Text

namespace Stage

/-- The stage after one contraction, if there is a redex and it can be contracted. -/
def next? (settings : Settings) (stage : Stage) : Option Stage :=
  match Sequence.reduce ⟨settings.strategy, stage.macros, stage.lines.head?⟩ stage.program with
  | .changed event next => some
      { program := next
        macros := event.extend stage.macros
        prints := stage.prints ++ event.texts settings.hollow
        lines := event.leave stage.lines }
  | _ => none

/-- The stage after so many contractions. -/
def after? (settings : Settings) (stage : Stage) : Nat → Option Stage
  | 0 => some stage
  | count + 1 => (stage.after? settings count).bind (next? settings)

/-- The first stage of a program. -/
def start (program : List Term) (lines : List Text) : Stage :=
  ⟨program, .empty, [], lines⟩

end Stage

namespace Session

/-- The stage that a session is at, with the lines that it has not taken. -/
def stage (session : Session) (rest : List Text) : Stage :=
  ⟨session.program, session.macros, session.outlet.prints, session.pending.toList ++ rest⟩

theorem Silent.stage {earlier later : Session} (silent : earlier.Silent later)
    (rest : List Text) : later.stage rest = earlier.stage rest := by
  obtain ⟨outlet, rfl, same⟩ := silent
  simp only [Session.stage, same.prints]

/-! ## Steps -/

theorem stage_perform {session : Session} {event : Event}
    (accepts : session.outlet.sink.Accepts) (allowed : event.Allowed session.scope)
    (rest : List Text) :
    (session.announce.perform event).2.stage rest =
      { program := session.program
        macros := event.extend session.macros
        prints := session.outlet.prints ++ event.texts session.settings.hollow
        lines := event.leave (session.pending.toList ++ rest) } := by
  obtain ⟨outlet, reported, silent⟩ :=
    (Silent.announce session).trans (.report session.announce event)
  have taking : outlet.sink.Accepts := by
    rw [silent.sink]
    exact accepts
  cases event with
  | printed args =>
      simp [perform, reported, stage, Outlet.prints_offer taking, silent.prints, Event.extend,
        Event.texts, Event.leave]
  | received line =>
      have pending : session.pending = some line := allowed
      simp [perform, reported, stage, silent.prints, Event.extend, Event.texts, Event.leave,
        pending]
  | defined name body =>
      simp [perform, reported, stage, silent.prints, Event.extend, Event.texts, Event.leave]
  | expanded name =>
      simp [perform, reported, stage, silent.prints, Event.extend, Event.texts, Event.leave]
  | expandedUnder param =>
      simp [perform, reported, stage, silent.prints, Event.extend, Event.texts, Event.leave]
  | substituted param args =>
      simp [perform, reported, stage, silent.prints, Event.extend, Event.texts, Event.leave]

/-- The next line of the supply may as well be pending. -/
theorem next?_stage {session : Session} {event : Event} {next : List Term}
    (outcome : Sequence.reduce session.scope session.program = .changed event next)
    (rest : List Text) :
    (session.stage rest).next? session.settings = some
      { program := next
        macros := event.extend session.macros
        prints := session.outlet.prints ++ event.texts session.settings.hollow
        lines := event.leave (session.pending.toList ++ rest) } := by
  have reduces : Sequence.reduce
      ⟨session.settings.strategy, session.macros, (session.pending.toList ++ rest).head?⟩
      session.program = .changed event next := by
    cases pending : session.pending with
    | some line =>
        rw [← outcome, scope, pending]
        rfl
    | none =>
        have unasked : Sequence.reduce session.scope session.program ≠ .awaiting := by
          simp [outcome]
        rw [← outcome]
        exact Sequence.reduce_with_pending pending unasked rest.head?
  simp only [Stage.next?, stage, reduces]

/-- A step that works leads to the next stage, and is counted, or leaves the stage as it is. -/
theorem stage_step {session : Session} {result : StepResult}
    (accepts : session.outlet.sink.Accepts) (works : session.step.1 = .ok result)
    (rest : List Text) :
    (session.step.2.steps = session.steps + 1 ∧
      (session.stage rest).next? session.settings = some (session.step.2.stage rest)) ∨
    (session.step.2.steps = session.steps ∧ session.step.2.stage rest = session.stage rest) := by
  have announced := Silent.announce session
  have stepped := session.step_stepped
  rw [works] at stepped
  generalize session.step.2 = later at stepped ⊢
  cases stepped with
  | waiting waits => exact .inr ⟨rfl, rfl⟩
  | converged ready outcome => exact .inr ⟨announced.alongside.steps, announced.stage rest⟩
  | asking ready outcome => exact .inr ⟨announced.alongside.steps, announced.stage rest⟩
  | @changed event next after ready outcome performs =>
      have allowed := Sequence.allowed_of_event (Outcome.event?_of_changed outcome)
      have counted := (alongside_of_perform performs).steps
      have performed : (session.announce.perform event).2 = after := by rw [performs]
      have staged := stage_perform accepts allowed rest
      rw [performed] at staged
      refine .inl ⟨congrArg (· + 1) counted, ?_⟩
      rw [next?_stage outcome rest]
      injection staged with _ macros prints lines
      simp only [stage, macros, prints, lines]

/-- A sink that takes every text refuses nothing. -/
theorem perform_of_accepts {session : Session} (accepts : session.outlet.sink.Accepts)
    (event : Event) : (session.announce.perform event).1 = none := by
  cases answer : (session.announce.perform event).1 with
  | none => rfl
  | some refusal =>
      have performs : session.announce.perform event =
          (some refusal, (session.announce.perform event).2) := Prod.ext answer rfl
      obtain ⟨args, rfl⟩ := exists_printed_of_refusal performs
      obtain ⟨outlet, reported, silent⟩ :=
        (Silent.announce session).trans (.report session.announce (.printed args))
      simp [perform, reported, Outlet.offer, silent.sink, accepts _ _] at answer

/-- A step fails for a reason of the host only if the sink refuses. -/
theorem category_of_step {session : Session} {error : Error}
    (accepts : session.outlet.sink.Accepts) (fails : session.step.1 = .error error) :
    error.category ≠ .host := by
  have stepped := session.step_stepped
  rw [fails] at stepped
  generalize session.step.2 = later at stepped
  cases stepped with
  | failed ready outcome =>
      cases Sequence.failure_of_reduce outcome with
      | redefined known => nofun
      | definedCallee name body => nofun
  | failedAfter ready outcome performs =>
      cases Sequence.failure_of_reduce outcome with
      | unreadable pending refused =>
          unfold Sequence.parse at refused
          split at refused
          · cases refused
          · cases refused
            nofun
      | severalTerms undefining contracts count => nofun
  | @refused event refusal after ready outcome performs =>
      have answer := perform_of_accepts accepts event
      rw [performs] at answer
      cases answer

/-! ## Moves -/

theorem step_settings_sink (session : Session) :
    session.step.2.settings = session.settings ∧
      session.step.2.outlet.sink = session.outlet.sink := by
  have announced := (Silent.announce session).alongside
  have stepped := session.step_stepped
  generalize session.step.1 = result at stepped
  generalize session.step.2 = later at stepped ⊢
  cases stepped with
  | waiting waits => exact ⟨rfl, rfl⟩
  | converged ready outcome => exact ⟨announced.settings, announced.sink⟩
  | asking ready outcome => exact ⟨announced.settings, announced.sink⟩
  | failed ready outcome => exact ⟨announced.settings, announced.sink⟩
  | changed ready outcome performs =>
      have performed := alongside_of_perform performs
      exact ⟨performed.settings, performed.sink⟩
  | failedAfter ready outcome performs =>
      have performed := alongside_of_perform performs
      exact ⟨performed.settings, performed.sink⟩
  | refused ready outcome performs =>
      have performed := alongside_of_perform performs
      exact ⟨performed.settings, performed.sink⟩

theorem preserved_settings_sink (settings : Settings) (sink : Sink) :
    Preserved fun session => session.settings = settings ∧ session.outlet.sink = sink where
  step := by
    intro session same
    obtain ⟨chosen, given⟩ := session.step_settings_sink
    exact ⟨chosen.trans same.1, given.trans same.2⟩
  provide := by
    intro session provided line provides same
    obtain ⟨-, rfl⟩ := provide_eq_ok_iff.mp provides
    exact same
  log := by
    intro session line same
    have logged := (Silent.log session line).alongside
    exact ⟨logged.settings.trans same.1, logged.sink.trans same.2⟩

section Passes

variable {program : List Term} {settings : Settings} {sink : Sink} {moves : List Move}
  {session : Session}

theorem Passes.settings_eq (passes : (new program settings sink).Passes moves session) :
    session.settings = settings :=
  ((preserved_settings_sink settings sink).of_passes passes ⟨rfl, rfl⟩).1

theorem Passes.accepts (passes : (new program settings sink).Passes moves session)
    (accepts : sink.Accepts) : session.outlet.sink.Accepts := by
  rw [((preserved_settings_sink settings sink).of_passes passes ⟨rfl, rfl⟩).2]
  exact accepts

/-- No step of a session with a sink that takes everything fails for a reason of the host. -/
theorem Passes.category (passes : (new program settings sink).Passes moves session)
    (accepts : sink.Accepts) {error : Error} (member : .stepped (.error error) ∈ moves) :
    error.category ≠ .host := by
  induction passes with
  | start => cases member
  | @next moves move middle later earlier last ih =>
      rcases List.mem_append.mp member with before | now
      · exact ih before
      · have shown := (List.mem_singleton.mp now).symm
        cases last with
        | step =>
            injection shown with fails
            exact category_of_step (earlier.accepts accepts) fails
        | log line => cases shown
        | provide provides => cases shown

/-- A session whose steps work is at the stage that its count of steps says, on any supply that
begins with the lines that it has taken. -/
theorem Passes.stage (passes : (new program settings sink).Passes moves session)
    (accepts : sink.Accepts) (works : ∀ error, .stepped (.error error) ∉ moves)
    (rest : List Text) :
    (Stage.start program (moves.filterMap Move.line? ++ rest)).after? settings session.steps =
      some (session.stage rest) := by
  induction passes generalizing rest with
  | start => rfl
  | @next moves move middle later earlier last ih =>
      have before : ∀ error, .stepped (.error error) ∉ moves :=
        fun error member => works error (List.mem_append_left _ member)
      cases last with
      | step =>
          have taking := earlier.accepts accepts
          have earlierStage := ih before rest
          cases result : middle.step.1 with
          | error error =>
              rw [result] at works
              exact absurd (List.mem_append_right _ List.mem_cons_self) (works error)
          | ok outcome =>
              simp only [List.filterMap_append, List.filterMap_cons, Move.line?,
                List.filterMap_nil, List.append_nil]
              rcases stage_step taking result rest with ⟨counted, further⟩ | ⟨counted, stays⟩
              · rw [counted, Stage.after?, earlierStage, ← earlier.settings_eq]
                exact further
              · rw [counted, earlierStage, stays]
      | log line =>
          simp only [List.filterMap_append, List.filterMap_cons, Move.line?,
            List.filterMap_nil, List.append_nil]
          rw [(Silent.log middle line).stage rest]
          exact ih before rest
      | @provide _ line provides =>
          have coherent := Coherent.preserved.of_passes earlier (.of_idle rfl rfl)
          obtain ⟨waits, rfl⟩ := provide_eq_ok_iff.mp provides
          -- The line was the next one of the supply and is the pending one now; a stage tells
          -- no difference.
          have earlierStage := ih before (line :: rest)
          simp only [Session.stage, coherent.pending waits] at earlierStage
          simpa [Session.stage, Move.line?] using earlierStage

end Passes

end Session

end Splice
