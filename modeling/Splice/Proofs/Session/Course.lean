import Splice.Proofs.Session.Reachable

/-!
# Courses

Every action of a host comes down to moves: steps, notices that the limit is reached, and lines
that the session takes. The course of an action is the list of its moves. It tells which lines
the action has handed over, and a step that fails in it is what the action results in.
-/

namespace Splice

/-- What an action is made of. -/
inductive Move where
  /-- A step with its result. -/
  | stepped (result : Except Error StepResult)
  /-- A notice in the log. -/
  | noted
  /-- A line that the session takes. -/
  | took (line : Text)

/-- The line of a move. -/
def Move.line? : Move → Option Text
  | stepped _ => none
  | noted => none
  | took line => some line

/-- The line of a reading. -/
def Reading.line? : Reading → Option Text
  | line text => some text
  | closed => none
  | failed _ => none

/-- The lines among the first readings of a supply. -/
def LineSource.lines (source : LineSource) (count : Nat) : List Text :=
  (List.range count).filterMap fun index => (source index).line?

namespace LineSource

@[simp]
theorem lines_zero (source : LineSource) : source.lines 0 = [] := rfl

theorem lines_succ (source : LineSource) (count : Nat) :
    source.lines (count + 1) = source.lines count ++ (source count).line?.toList := by
  rw [lines, List.range_succ, List.filterMap_append, ← lines]
  cases last : (source count).line? <;> simp [last]

end LineSource

namespace Session

/-- One move leads from one session to another. -/
inductive Moves : Session → Move → Session → Prop where
  | step (session : Session) : Moves session (.stepped session.step.1) session.step.2
  | log (session : Session) (line : Text) : Moves session .noted (session.log line)
  | provide {session provided : Session} {line : Text}
      (provides : session.provide line = .ok provided) : Moves session (.took line) provided

/-- A list of moves leads from one session to another. -/
inductive Passes (origin : Session) : List Move → Session → Prop where
  | start : Passes origin [] origin
  | next {moves : List Move} {move : Move} {middle later : Session}
      (earlier : Passes origin moves middle) (last : middle.Moves move later) :
      Passes origin (moves ++ [move]) later

namespace Passes

variable {first second third : Session} {before after : List Move}

theorem single {move : Move} (moves : first.Moves move second) : first.Passes [move] second :=
  .next .start moves

theorem trans (front : first.Passes before second) (back : second.Passes after third) :
    first.Passes (before ++ after) third := by
  induction back with
  | start =>
      rw [List.append_nil]
      exact front
  | next earlier last ih =>
      rw [← List.append_assoc]
      exact .next ih last

end Passes

/-- What steps, lines and the log preserve is preserved by every list of moves. -/
theorem Preserved.of_passes {holds : Session → Prop} (preserved : Preserved holds)
    {origin session : Session} {moves : List Move} (passes : origin.Passes moves session)
    (atStart : holds origin) : holds session := by
  induction passes with
  | start => exact atStart
  | next earlier last ih =>
      cases last with
      | step => exact preserved.step ih
      | log line => exact preserved.log _ ih
      | provide provides => exact preserved.provide provides ih

/-! ## Rounds and runs -/

/-- Moves that lead from one session to another, with what they result in: if a step among them
fails, then so does the whole. -/
structure Course {Answer : Type} (session : Session) (moves : List Move)
    (result : Except Error Answer) (next : Session) : Prop where
  passes : session.Passes moves next
  fails : ∀ error, .stepped (.error error) ∈ moves → result = .error error

section Course

variable {Answer : Type} {result : Except Error Answer} {session later next : Session}

theorem Course.cons {move : Move} {moves : List Move} (first : session.Moves move later)
    (works : ∀ error, move ≠ .stepped (.error error)) (rest : later.Course moves result next) :
    session.Course (move :: moves) result next where
  passes := (Passes.single first).trans rest.passes
  fails error member := by
    rcases List.mem_cons.mp member with same | inRest
    · exact absurd same.symm (works error)
    · exact rest.fails error inRest

theorem Course.single {move : Move} (only : session.Moves move next)
    (fails : ∀ error, move = .stepped (.error error) → result = .error error) :
    session.Course [move] result next :=
  ⟨.single only, fun error member => fails error (List.mem_singleton.mp member).symm⟩

theorem Course.map {Other : Type} {moves : List Move} (course : session.Course moves result next)
    (change : Answer → Other) : session.Course moves (result.map change) next where
  passes := course.passes
  fails error member := by
    rw [course.fails error member]
    rfl

/-- A round is one move, which takes no line. -/
theorem exists_move_of_round {round : Round} (turn : session.round = (round, later)) :
    ∃ move : Move, session.Moves move later ∧ move.line? = none ∧
      ∀ error, move = .stepped (.error error) → round = .failed error := by
  rcases round_cases turn with ⟨limit, -, -, rfl⟩ | ⟨-, rfl, rfl⟩
  · exact ⟨.noted, .log session _, rfl, by simp⟩
  · refine ⟨.stepped session.step.1, .step session, rfl, ?_⟩
    intro error same
    injection same with failed
    rw [failed]
    rfl

/-- The course of a run that stops with this round. -/
theorem exists_course_of_last {round : Round} (turn : session.round = (round, next))
    (fails : ∀ error, round = .failed error → result = .error error) :
    ∃ moves, session.Course moves result next ∧ moves.filterMap Move.line? = [] := by
  obtain ⟨move, only, silent, works⟩ := exists_move_of_round turn
  exact ⟨[move], .single only fun error same => fails error (works error same), by simp [silent]⟩

/-- The course of a run that goes on after this round. -/
theorem exists_course_of_first {round : Round} {moves : List Move}
    (turn : session.round = (round, later)) (works : ∀ error, round ≠ .failed error)
    (rest : later.Course moves result next) :
    ∃ longer, session.Course longer result next ∧
      longer.filterMap Move.line? = moves.filterMap Move.line? := by
  obtain ⟨move, first, silent, failing⟩ := exists_move_of_round turn
  exact ⟨move :: moves, .cons first (fun error same => works error (failing error same)) rest,
    by simp [silent]⟩

end Course

theorem exists_course_of_run {fuel : Nat} {session next : Session}
    {result : Except Error RunSummary} (runs : session.run fuel = some (result, next)) :
    ∃ moves, session.Course moves result next ∧ moves.filterMap Move.line? = [] := by
  induction fuel generalizing session with
  | zero => cases runs
  | succ fuel ih =>
      rw [run] at runs
      split at runs
      · rename_i later turn
        obtain ⟨moves, course, nothing⟩ := ih runs
        rw [← nothing]
        exact exists_course_of_first turn (by simp) course
      · rename_i status later turn
        cases runs
        exact exists_course_of_last turn (by simp)
      · rename_i failure later turn
        cases runs
        refine exists_course_of_last turn ?_
        rintro error ⟨⟩
        rfl

/-- The course of a run on a supply takes the lines that the run counts. -/
theorem exists_course_of_runWith {source : LineSource} {fuel used count : Nat}
    {session next : Session} {result : Except Error RunSummary}
    (runs : session.runWith source fuel used = some (result, count, next)) :
    ∃ moves, session.Course moves result next ∧
      source.lines count = source.lines used ++ moves.filterMap Move.line? := by
  induction fuel generalizing session used with
  | zero => cases runs
  | succ fuel ih =>
      rw [runWith] at runs
      split at runs
      · rename_i later turn
        obtain ⟨moves, course, lines⟩ := ih runs
        rw [lines]
        obtain ⟨longer, whole, same⟩ := exists_course_of_first turn (by simp) course
        exact ⟨longer, whole, by rw [same]⟩
      · rename_i later turn
        split at runs
        · rename_i provided accepts
          obtain ⟨line, reads, provides⟩ := exists_line_of_accept accepts
          obtain ⟨moves, course, lines⟩ := ih runs
          have resumed : later.Course (.took line :: moves) result next :=
            .cons (.provide provides) (by simp) course
          obtain ⟨longer, whole, same⟩ := exists_course_of_first turn (by simp) resumed
          refine ⟨longer, whole, ?_⟩
          rw [same, lines, source.lines_succ, reads]
          simp [Move.line?, Reading.line?]
        · cases runs
          obtain ⟨moves, course, nothing⟩ := exists_course_of_last turn (by simp)
          exact ⟨moves, course, by rw [nothing, List.append_nil]⟩
      · rename_i status later other turn
        cases runs
        obtain ⟨moves, course, nothing⟩ := exists_course_of_last turn (by simp)
        exact ⟨moves, course, by rw [nothing, List.append_nil]⟩
      · rename_i failure later turn
        cases runs
        have fails : ∀ error, Round.failed failure = .failed error →
            (.error failure : Except Error RunSummary) = .error error := by
          rintro error ⟨⟩
          rfl
        obtain ⟨moves, course, nothing⟩ := exists_course_of_last turn fails
        exact ⟨moves, course, by rw [nothing, List.append_nil]⟩

/-! ## Actions -/

/-- The lines that an action hands over. -/
def taken (fuel : Nat) (session : Session) : Action → List Text
  | .step => []
  | .run => []
  | .provide line => if session.awaiting then [line] else []
  | .runWith source =>
      match session.runWith source fuel 0 with
      | some (_, count, _) => source.lines count
      | none => []

/-- Every action has a course. -/
theorem exists_course_of_act {fuel : Nat} {session next : Session} {action : Action}
    {result : Except Error Report} (acts : session.act fuel action = some (result, next)) :
    ∃ moves, session.Course moves result next ∧
      moves.filterMap Move.line? = session.taken fuel action := by
  cases action with
  | step =>
      obtain ⟨rfl, rfl⟩ := Prod.mk.inj (Option.some.inj acts)
      have course : session.Course [.stepped session.step.1] session.step.1 session.step.2 := by
        refine .single (.step session) ?_
        intro error same
        injection same
      exact ⟨_, course.map Report.stepped, rfl⟩
  | run =>
      obtain ⟨⟨outcome, after⟩, runs, same⟩ := Option.map_eq_some_iff.mp acts
      cases same
      obtain ⟨moves, course, nothing⟩ := exists_course_of_run runs
      exact ⟨moves, course.map Report.ran, nothing⟩
  | provide line =>
      cases waits : session.awaiting with
      | true =>
          have provides : session.provide line =
              .ok { session with awaiting := false, pending := some line } := by
            rw [provide, if_pos waits]
          rw [act, provides] at acts
          cases acts
          refine ⟨[.took line], .single (.provide provides) (by simp), ?_⟩
          simp [taken, waits, Move.line?]
      | false =>
          rw [act, provide, waits] at acts
          cases acts
          exact ⟨[], ⟨.start, by simp⟩, by simp [taken, waits]⟩
  | runWith source =>
      obtain ⟨⟨outcome, count, after⟩, runs, same⟩ := Option.map_eq_some_iff.mp acts
      cases same
      obtain ⟨moves, course, lines⟩ := exists_course_of_runWith runs
      refine ⟨moves, course.map Report.ran, ?_⟩
      simpa [taken, runs] using lines.symm

/-! ## Hosts -/

/-- A host has brought a session from `origin` to where it is by actions, and the session has
taken these lines. Which actions the host performs may depend on the lines taken before, and on
what the action results in. -/
inductive Served (serves : List Text → Action → Except Error Report → Prop) (origin : Session) :
    List Text → Session → Prop where
  | start : Served serves origin [] origin
  | act {lines : List Text} {session next : Session} {fuel : Nat} {action : Action}
      {result : Except Error Report} (earlier : Served serves origin lines session)
      (acts : session.act fuel action = some (result, next))
      (allowed : serves lines action result) :
      Served serves origin (lines ++ session.taken fuel action) next

section Served

variable {serves : List Text → Action → Except Error Report → Prop} {origin session : Session}
  {lines : List Text}

theorem Served.step (served : Served serves origin lines session)
    (allowed : serves lines .step (session.step.1.map .stepped)) :
    Served serves origin lines session.step.2 := by
  have acts : session.act 0 .step = some (session.step.1.map .stepped, session.step.2) := rfl
  have more := Served.act served acts allowed
  rwa [taken, List.append_nil] at more

theorem Served.provide {line : Text} (served : Served serves origin lines session)
    (waits : session.awaiting = true) (allowed : serves lines (.provide line) (.ok .provided)) :
    Served serves origin (lines ++ [line])
      { session with awaiting := false, pending := some line } := by
  have acts : session.act 0 (.provide line) =
      some (.ok .provided, { session with awaiting := false, pending := some line }) := by
    rw [Session.act, Session.provide, if_pos waits]
  have more := Served.act served acts allowed
  rwa [taken, if_pos waits] at more

/-- What a host does is one list of moves, and a step that fails in it is what one of the host's
actions resulted in. -/
theorem Served.exists_passes (served : Served serves origin lines session) :
    ∃ moves, origin.Passes moves session ∧ moves.filterMap Move.line? = lines ∧
      ∀ error, .stepped (.error error) ∈ moves →
        ∃ earlier action, serves earlier action (.error error) := by
  induction served with
  | start => exact ⟨[], .start, rfl, by simp⟩
  | @act lines session next fuel action result earlier acts allowed ih =>
      obtain ⟨before, passes, taken, blamed⟩ := ih
      obtain ⟨after, course, more⟩ := exists_course_of_act acts
      refine ⟨before ++ after, passes.trans course.passes, by simp [taken, more], ?_⟩
      intro error member
      rcases List.mem_append.mp member with inBefore | inAfter
      · exact blamed error inBefore
      · rw [course.fails error inAfter] at allowed
        exact ⟨lines, action, allowed⟩

end Served

end Session

end Splice
