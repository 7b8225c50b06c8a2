import Splice.Proofs.Session.Stage

/-!
# Schedules

A host that has lines in some order may hand them over one by one or let runs read them, may take
single steps, may offer a line too early and may let a run come to the end of the lines that it
was given. How it does so leaves no trace: the number of contractions alone tells where the
session is.
-/

namespace Splice

/-- Results can be compared. -/
instance decidableEqResult {Failure Answer : Type} [DecidableEq Failure] [DecidableEq Answer] :
    DecidableEq (Except Failure Answer)
  | .error first, .error second => decidable_of_iff (first = second) (by simp)
  | .ok first, .ok second => decidable_of_iff (first = second) (by simp)
  | .error _, .ok _ => isFalse (by simp)
  | .ok _, .error _ => isFalse (by simp)

namespace LineSource

theorem lines_ofList (given : List Text) (count : Nat) :
    (ofList given .closed).lines count = given.take count := by
  induction count with
  | zero => rfl
  | succ count ih =>
      have last : ((ofList given .closed) count).line? = given[count]? := by
        cases found : given[count]? with
        | none => simp [ofList, ofReadings, found, Reading.line?]
        | some line => simp [ofList, ofReadings, found, Reading.line?]
      rw [lines_succ, ih, last, List.take_add_one]

end LineSource

namespace Session

/-- What a host does that works through a supply of lines in their order, when the session has
taken some of them. Steps and runs do not fail. A line that is taken is the next one; a line that
is refused stays where it is. A run on a supply gets some of the next lines and may use them up. -/
def Orderly (supply lines : List Text) : Action → Except Error Report → Prop
  | .step, result => ∃ report, result = .ok report
  | .run, result => ∃ report, result = .ok report
  | .provide line, result =>
      result = .error .inputRejected ∨ result = .ok .provided ∧ lines ++ [line] <+: supply
  | .runWith source, result =>
      (∃ given, source = .ofList given .closed ∧ lines ++ given <+: supply) ∧
        ((∃ report, result = .ok report) ∨ result = .error (.host .inputClosed))

theorem Orderly.category {supply lines : List Text} {action : Action} {error : Error}
    (orderly : Orderly supply lines action (.error error)) : error.category = .host := by
  cases action with
  | step =>
      obtain ⟨report, same⟩ := orderly
      cases same
  | run =>
      obtain ⟨report, same⟩ := orderly
      cases same
  | provide line =>
      rcases orderly with refused | ⟨same, -⟩
      · cases refused
        rfl
      · cases same
  | runWith source =>
      obtain ⟨-, ⟨report, same⟩ | exhausted⟩ := orderly
      · cases same
      · cases exhausted
        rfl

/-- The lines that a session takes from an orderly host are the first ones of the supply. -/
theorem Orderly.isPrefix {supply lines : List Text} {fuel : Nat} {session next : Session}
    {action : Action} {result : Except Error Report}
    (orderly : Orderly supply lines action result)
    (acts : session.act fuel action = some (result, next)) (earlier : lines <+: supply) :
    lines ++ session.taken fuel action <+: supply := by
  cases action with
  | step => simpa [taken] using earlier
  | run => simpa [taken] using earlier
  | provide line =>
      rcases orderly with refused | ⟨-, nextLine⟩
      · cases waits : session.awaiting with
        | false => simpa [taken, waits] using earlier
        | true =>
            rw [act, provide, if_pos waits, refused] at acts
            cases acts
      · rw [taken]
        split
        · exact nextLine
        · simpa using earlier
  | runWith source =>
      obtain ⟨⟨given, rfl, nextLines⟩, -⟩ := orderly
      rw [taken]
      split
      · rename_i result count after runs
        have shorter : lines ++ given.take count <+: lines ++ given :=
          (List.prefix_append_right_inj lines).mpr (given.take_prefix count)
        rw [LineSource.lines_ofList]
        exact shorter.trans nextLines
      · simpa using earlier

variable {program : List Term} {settings : Settings} {sink : Sink} {supply lines : List Text}
  {session : Session}

theorem Served.isPrefix
    (served : Served (Orderly supply) (new program settings sink) lines session) :
    lines <+: supply := by
  induction served with
  | start => exact supply.nil_prefix
  | act earlier acts orderly ih => exact orderly.isPrefix acts ih

/-- Under an orderly host, a session is at the stage that its count of steps says. -/
theorem Served.stage (accepts : sink.Accepts)
    (served : Served (Orderly supply) (new program settings sink) lines session) :
    ∃ rest, (Stage.start program supply).after? settings session.steps =
      some (session.stage rest) := by
  obtain ⟨rest, split⟩ := served.isPrefix
  obtain ⟨moves, passes, taken, blamed⟩ := served.exists_passes
  have works : ∀ error, .stepped (.error error) ∉ moves := by
    intro error member
    obtain ⟨earlier, action, orderly⟩ := blamed error member
    exact passes.category accepts member orderly.category
  have staged := passes.stage accepts works rest
  rw [taken, split] at staged
  exact ⟨rest, staged⟩

/-- Whatever two orderly hosts do with the same program and the same supply of lines, their
sessions have the same program, the same macros and the same printed texts whenever they have
contracted the same number of redexes. -/
theorem agree_of_steps_eq (accepts : sink.Accepts) {lines' : List Text} {session' : Session}
    (served : Served (Orderly supply) (new program settings sink) lines session)
    (served' : Served (Orderly supply) (new program settings sink) lines' session')
    (count : session.steps = session'.steps) :
    session.program = session'.program ∧ session.macros = session'.macros ∧
      session.outlet.prints = session'.outlet.prints := by
  obtain ⟨rest, staged⟩ := served.stage accepts
  obtain ⟨rest', staged'⟩ := served'.stage accepts
  rw [count, staged'] at staged
  injection staged with same
  injection same with programs macros prints
  exact ⟨programs.symm, macros.symm, prints.symm⟩

/-- One host lets a run come to the end of its lines. The other one offers a line too early, and
takes single steps after it has been asked. -/
theorem agree_of_exhausted_run :
    let line := "PoHiop".toList
    let supply := [line, "B".toList]
    let start := new [.app (.name Word.print) [.name Word.input], .name Word.input] {} .buffer
    let waiting := start.step.2
    let walked := { waiting with awaiting := false, pending := some line }.step.2.step.2
    Served (Orderly supply) start [line] walked ∧ walked.steps = 2 ∧ walked.awaiting = false ∧
      ∃ ran, Served (Orderly supply) start [line] ran ∧ ran.steps = 2 ∧ ran.awaiting = true ∧
        walked.program = ran.program ∧ walked.macros = ran.macros ∧
        walked.outlet.prints = ran.outlet.prints := by
  intro line supply start waiting walked
  have walks : Served (Orderly supply) start [line] walked := by
    have early : start.act 0 (.provide line) = some (.error .inputRejected, start) := rfl
    have refused : Served (Orderly supply) start [] start := .act .start early (.inl rfl)
    have asked : Served (Orderly supply) start [] waiting := refused.step ⟨_, rfl⟩
    have given : [] ++ [line] <+: supply := ⟨["B".toList], rfl⟩
    have provided := asked.provide rfl (.inr ⟨rfl, given⟩)
    exact (provided.step ⟨.stepped .changed, by decide +kernel⟩).step
      ⟨.stepped .changed, by decide +kernel⟩
  have count : walked.steps = 2 := by decide +kernel
  -- The run is given the first line alone and asks for a second one.
  have shown : ((start.act 6 (.runWith (.ofList [line] .closed))).map
      fun (result, ran) => (result, ran.steps, ran.awaiting)) =
      some (.error (.host .inputClosed), 2, true) := by
    decide +kernel
  obtain ⟨⟨result, ran⟩, runs, same⟩ := Option.map_eq_some_iff.mp shown
  obtain ⟨rfl, steps, asks⟩ : result = .error (.host .inputClosed) ∧ ran.steps = 2 ∧
      ran.awaiting = true := by simpa using same
  have serves : Served (Orderly supply) start [line] ran := by
    have taken : start.taken 6 (.runWith (.ofList [line] .closed)) = [line] := by decide +kernel
    have orderly : Orderly supply [] (.runWith (.ofList [line] .closed))
        (.error (.host .inputClosed)) := ⟨⟨[line], rfl, ⟨["B".toList], rfl⟩⟩, .inr rfl⟩
    have served := Served.act .start runs orderly
    rwa [taken] at served
  have accepts : Sink.buffer.Accepts := fun _ _ => rfl
  exact ⟨walks, count, by decide +kernel, ran, serves, steps, asks,
    agree_of_steps_eq accepts walks serves (count.trans steps.symm)⟩

end Session

end Splice
