import Splice.Session.Run

/-!
# Drivers

A run on a supply of lines is a loop: a round, and a line when the round has come to a request.
What the loop drives is left open here, so that loops over different things can be compared turn
by turn. A run of a session on a supply is such a loop, and it is also what becomes of plain runs,
one after the other, with a line from the supply between them.
-/

namespace Splice

/-- Something that goes through rounds and takes what a supply of lines gives. -/
structure Driver (State : Type) where
  round : State → Round × State
  accept : State → Reading → Except Error State

/-- Where a loop is: it goes on, or it has come to an end, with the number of lines used. -/
inductive Driven (State : Type) where
  | going (used : Nat) (state : State)
  | done (result : Except Error RunStatus) (used : Nat) (state : State)

namespace Driven

variable {State View : Type}

/-- What can be seen of where a loop is. -/
def map (view : State → View) : Driven State → Driven View
  | going used state => going used (view state)
  | done result used state => done result used (view state)

/-- What a loop has come to, when it is over. -/
def result? : Driven State → Option (Except Error RunStatus × Nat × State)
  | going _ _ => none
  | done result used state => some (result, used, state)

end Driven

namespace Driver

variable {State : Type}

/-- One turn of the loop. -/
def turn (driver : Driver State) (source : LineSource) (used : Nat) (state : State) :
    Driven State :=
  match driver.round state with
  | (.running, state) => .going used state
  | (.halted .awaiting, state) =>
      match driver.accept state (source used) with
      | .ok state => .going (used + 1) state
      | .error error => .done (.error error) used state
  | (.halted status, state) => .done (.ok status) used state
  | (.failed error, state) => .done (.error error) used state

/-- Where the loop is after so many turns. -/
def after (driver : Driver State) (source : LineSource) : Nat → Nat → State → Driven State
  | 0, used, state => .going used state
  | turns + 1, used, state =>
      match driver.turn source used state with
      | .going used state => driver.after source turns used state
      | .done result used state => .done result used state

theorem after_one (driver : Driver State) (source : LineSource) (used : Nat) (state : State) :
    driver.after source 1 used state = driver.turn source used state := by
  unfold after
  split
  · rename_i goes
    exact goes.symm
  · rename_i ends
    exact ends.symm

/-- More turns go on from where the loop is. -/
theorem after_of_going {driver : Driver State} {source : LineSource} {turns used used' : Nat}
    {state state' : State} (place : driver.after source turns used state = .going used' state')
    (more : Nat) :
    driver.after source (turns + more) used state = driver.after source more used' state' := by
  induction turns generalizing used state with
  | zero =>
      cases place
      rw [Nat.zero_add]
  | succ turns ih =>
      rw [after] at place
      rw [Nat.succ_add, after]
      split at place
      · exact ih place
      · cases place

/-- A loop that is over stays where it is. -/
theorem after_of_done {driver : Driver State} {source : LineSource} {turns used used' : Nat}
    {state state' : State} {result : Except Error RunStatus}
    (place : driver.after source turns used state = .done result used' state') (more : Nat) :
    driver.after source (turns + more) used state = .done result used' state' := by
  induction turns generalizing used state with
  | zero => cases place
  | succ turns ih =>
      rw [after] at place
      rw [Nat.succ_add, after]
      split at place
      · exact ih place
      · exact place

/-- A loop that comes to an end does so from wherever it has been. -/
theorem after_done_of_going {driver : Driver State} {source : LineSource}
    {turns whole used used' count : Nat} {state middle last : State}
    {result : Except Error RunStatus}
    (place : driver.after source turns used state = .going used' middle)
    (ends : driver.after source whole used state = .done result count last) :
    ∃ more, driver.after source more used' middle = .done result count last := by
  rcases Nat.le_total turns whole with earlier | later
  · obtain ⟨more, rfl⟩ := Nat.exists_eq_add_of_le earlier
    rw [after_of_going place] at ends
    exact ⟨more, ends⟩
  · obtain ⟨more, rfl⟩ := Nat.exists_eq_add_of_le later
    rw [after_of_done ends] at place
    cases place

/-! ## Loops in step -/

/-- What a supply gives leads from two states to related states, or is refused by both for the same
reason. -/
def TakenAlike {Other : Type} (related : State → Other → Prop) (first : Driver State)
    (second : Driver Other) (state : State) (other : Other) (reading : Reading) : Prop :=
  (∃ error, first.accept state reading = .error error ∧
    second.accept other reading = .error error) ∨
  ∃ state' other', first.accept state reading = .ok state' ∧
    second.accept other reading = .ok other' ∧ related state' other'

/-- Rounds and the lines of a supply lead from related states to related states, with the same
results. -/
structure SimulatesOn {Other : Type} (source : LineSource) (related : State → Other → Prop)
    (first : Driver State) (second : Driver Other) : Prop where
  round {state : State} {other : Other} : related state other →
    (first.round state).1 = (second.round other).1 ∧
      related (first.round state).2 (second.round other).2
  accept {state : State} {other : Other} : related state other → ∀ index,
    TakenAlike related first second state other (source index)

/-- Two loops are in step whatever lines they are given. -/
structure Simulates {Other : Type} (related : State → Other → Prop) (first : Driver State)
    (second : Driver Other) : Prop where
  round {state : State} {other : Other} : related state other →
    (first.round state).1 = (second.round other).1 ∧
      related (first.round state).2 (second.round other).2
  accept {state : State} {other : Other} : related state other → ∀ reading,
    TakenAlike related first second state other reading

section Simulates

variable {Other View : Type} {related : State → Other → Prop} {first : Driver State}
  {second : Driver Other} {state : State} {other : Other}

/-- Two loops are at related places. -/
inductive Together (related : State → Other → Prop) : Driven State → Driven Other → Prop where
  | going {state : State} {other : Other} (used : Nat) (here : related state other) :
      Together related (.going used state) (.going used other)
  | done {state : State} {other : Other} (result : Except Error RunStatus) (used : Nat)
      (here : related state other) :
      Together related (.done result used state) (.done result used other)

theorem Together.mono {weaker : State → Other → Prop} {place : Driven State}
    {place' : Driven Other} (together : Together related place place')
    (implies : ∀ {state other}, related state other → weaker state other) :
    Together weaker place place' := by
  cases together with
  | going used here => exact .going used (implies here)
  | done result used here => exact .done result used (implies here)

theorem Together.map_eq {place : Driven State} {place' : Driven Other} {view : State → View}
    {view' : Other → View} (together : Together related place place')
    (seen : ∀ state other, related state other → view state = view' other) :
    place.map view = place'.map view' := by
  cases together with
  | going used here => rw [Driven.map, Driven.map, seen _ _ here]
  | done result used here => rw [Driven.map, Driven.map, seen _ _ here]

theorem Together.map_result?_eq {place : Driven State} {place' : Driven Other}
    {view : Except Error RunStatus × Nat × State → View}
    {view' : Except Error RunStatus × Nat × Other → View}
    (together : Together related place place')
    (seen : ∀ result used state other, related state other →
      view (result, used, state) = view' (result, used, other)) :
    place.result?.map view = place'.result?.map view' := by
  cases together with
  | going used here => rfl
  | done result used here => exact congrArg some (seen result used _ _ here)

/-- A turn leads to related places when its round does. -/
theorem Together.turn
    {source : LineSource} {used : Nat}
    (accept : ∀ {state other}, related state other →
      TakenAlike related first second state other (source used))
    (same : (first.round state).1 = (second.round other).1)
    (later : related (first.round state).2 (second.round other).2) :
    Together related (first.turn source used state) (second.turn source used other) := by
  unfold Driver.turn
  generalize first.round state = turned at same later
  generalize second.round other = turned' at same later
  obtain ⟨round, state⟩ := turned
  obtain ⟨round', other⟩ := turned'
  cases same
  rcases round with _ | (_ | _ | _) | error
  · exact .going used later
  · exact .done _ used later
  · exact .done _ used later
  · dsimp only
    rcases accept later with ⟨error, refused, refused'⟩ |
      ⟨state', other', accepted, accepted', resumed⟩
    · rw [refused, refused']
      exact .done _ used later
    · rw [accepted, accepted']
      exact .going (used + 1) resumed
  · exact .done _ used later

/-- Loops over one supply that start at related places stay at related places. -/
theorem SimulatesOn.after {source : LineSource}
    (simulates : SimulatesOn source related first second) (here : related state other)
    (turns used : Nat) :
    Together related (first.after source turns used state)
      (second.after source turns used other) := by
  induction turns generalizing used state other with
  | zero => exact .going used here
  | succ turns ih =>
      obtain ⟨same, later⟩ := simulates.round here
      have turned := Together.turn (fun here => simulates.accept here used) same later
      unfold Driver.after
      generalize first.turn source used state = place at turned
      generalize second.turn source used other = place' at turned
      cases turned with
      | going used here => exact ih here used
      | done result used here => exact .done result used here

/-- Loops that start at related places stay at related places, whatever lines they are given. -/
theorem Simulates.after (simulates : Simulates related first second)
    (here : related state other) (source : LineSource) (turns used : Nat) :
    Together related (first.after source turns used state)
      (second.after source turns used other) := by
  have onSource : SimulatesOn source related first second :=
    ⟨simulates.round, fun here index => simulates.accept here (source index)⟩
  exact onSource.after here turns used

end Simulates

end Driver

/-! ## Sessions -/

namespace Session

/-- Sessions go through rounds. -/
def driver : Driver Session :=
  ⟨round, accept⟩

/-- A run on a supply is a loop over a session. Its summary counts the session's steps. -/
theorem runWith_eq_after (source : LineSource) (fuel used : Nat) (session : Session) :
    session.runWith source fuel used =
      (driver.after source fuel used session).result?.map fun (result, count, later) =>
        (result.map (⟨·, later.steps⟩), count, later) := by
  induction fuel generalizing used session with
  | zero => rfl
  | succ fuel ih =>
      rw [Driver.after, Driver.turn, runWith]
      dsimp only [driver]
      rcases session.round with ⟨_ | (_ | _ | _) | error, later⟩
      · exact ih used later
      · rfl
      · rfl
      · dsimp only
        cases later.accept (source used) with
        | ok provided => exact ih (used + 1) provided
        | error error => rfl
      · rfl

/-- Runs one after the other, with a line from a supply between them, until a run stops for
another reason than a missing line, or something fails. -/
inductive RunsOn (source : LineSource) :
    Nat → Session → Except Error RunSummary → Nat → Session → Prop where
  | stops {fuel used : Nat} {session later : Session} {summary : RunSummary}
      (runs : session.run fuel = some (.ok summary, later)) (other : summary.status ≠ .awaiting) :
      RunsOn source used session (.ok summary) used later
  | fails {fuel used : Nat} {session later : Session} {error : Error}
      (runs : session.run fuel = some (.error error, later)) :
      RunsOn source used session (.error error) used later
  | closes {fuel used : Nat} {session later : Session} {summary : RunSummary} {error : Error}
      (runs : session.run fuel = some (.ok summary, later)) (asks : summary.status = .awaiting)
      (refused : later.accept (source used) = .error error) :
      RunsOn source used session (.error error) used later
  | resumes {fuel used count : Nat} {session later provided last : Session}
      {summary : RunSummary} {result : Except Error RunSummary}
      (runs : session.run fuel = some (.ok summary, later)) (asks : summary.status = .awaiting)
      (accepted : later.accept (source used) = .ok provided)
      (rest : RunsOn source (used + 1) provided result count last) :
      RunsOn source used session result count last

section RunsOn

variable {source : LineSource} {used count : Nat} {session later last : Session}
  {result : Except Error RunSummary}

theorem run_of_running (turn : session.round = (.running, later)) (fuel : Nat) :
    session.run (fuel + 1) = later.run fuel := by
  rw [run, turn]

theorem run_of_halted {status : RunStatus} (turn : session.round = (.halted status, later)) :
    session.run 1 = some (.ok ⟨status, later.steps⟩, later) := by
  rw [run, turn]

theorem run_of_failed {error : Error} (turn : session.round = (.failed error, later)) :
    session.run 1 = some (.error error, later) := by
  rw [run, turn]

theorem runWith_of_running (turn : session.round = (.running, later)) (fuel : Nat) :
    session.runWith source (fuel + 1) used = later.runWith source fuel used := by
  rw [runWith, turn]

theorem RunsOn.of_running (turn : session.round = (.running, later))
    (rest : RunsOn source used later result count last) :
    RunsOn source used session result count last := by
  cases rest with
  | stops runs other => exact .stops ((run_of_running turn _).trans runs) other
  | fails runs => exact .fails ((run_of_running turn _).trans runs)
  | closes runs asks refused => exact .closes ((run_of_running turn _).trans runs) asks refused
  | resumes runs asks accepted rest =>
      exact .resumes ((run_of_running turn _).trans runs) asks accepted rest

theorem RunsOn.of_runWith {fuel : Nat}
    (runs : session.runWith source fuel used = some (result, count, last)) :
    RunsOn source used session result count last := by
  induction fuel generalizing used session with
  | zero => cases runs
  | succ fuel ih =>
      rw [runWith] at runs
      split at runs
      · rename_i later turn
        exact (ih runs).of_running turn
      · rename_i later turn
        split at runs
        · rename_i provided accepted
          exact .resumes (run_of_halted turn) rfl accepted (ih runs)
        · rename_i error refused
          cases runs
          exact .closes (run_of_halted turn) rfl refused
      · rename_i status later other turn
        cases runs
        exact .stops (run_of_halted turn) other
      · rename_i error later turn
        cases runs
        exact .fails (run_of_failed turn)

/-- A run that stops at a request is the beginning of a run on a supply. -/
theorem exists_runWith_of_asking {fuel : Nat} {summary : RunSummary}
    (runs : session.run fuel = some (.ok summary, later)) (asks : summary.status = .awaiting)
    (ends : ∃ fuel, (match later.accept (source used) with
      | .ok provided => provided.runWith source fuel (used + 1)
      | .error error => some (.error error, used, later)) = some (result, count, last)) :
    ∃ fuel, session.runWith source fuel used = some (result, count, last) := by
  -- The fuel that is found covers the rounds of the run and what comes after the line.
  induction fuel generalizing session with
  | zero => cases runs
  | succ fuel ih =>
      rw [run] at runs
      split at runs
      · rename_i turn
        obtain ⟨fuel, runs⟩ := ih runs
        exact ⟨fuel + 1, (runWith_of_running turn fuel).trans runs⟩
      · rename_i turn
        cases runs
        cases asks
        obtain ⟨fuel, ends⟩ := ends
        exact ⟨fuel + 1, by rw [runWith, turn]; exact ends⟩
      · cases runs

/-- A run that stops for another reason than a missing line is a run on any supply. -/
theorem exists_runWith_of_run {fuel : Nat}
    (runs : session.run fuel = some (result, later))
    (other : ∀ steps, result ≠ .ok ⟨.awaiting, steps⟩) :
    ∃ fuel, session.runWith source fuel used = some (result, used, later) := by
  induction fuel generalizing session with
  | zero => cases runs
  | succ fuel ih =>
      rw [run] at runs
      split at runs
      · rename_i turn
        obtain ⟨fuel, runs⟩ := ih runs
        exact ⟨fuel + 1, (runWith_of_running turn fuel).trans runs⟩
      · rename_i status later turn
        cases runs
        cases status with
        | awaiting => exact absurd rfl (other _)
        | converged => exact ⟨1, by rw [runWith, turn]⟩
        | stepLimit => exact ⟨1, by rw [runWith, turn]⟩
      · rename_i turn
        cases runs
        exact ⟨1, by rw [runWith, turn]⟩

theorem RunsOn.exists_runWith (runs : RunsOn source used session result count last) :
    ∃ fuel, session.runWith source fuel used = some (result, count, last) := by
  induction runs with
  | stops runs other =>
      refine exists_runWith_of_run runs ?_
      rintro steps ⟨⟩
      exact other rfl
  | fails runs => exact exists_runWith_of_run runs (by simp)
  | closes runs asks refused => exact exists_runWith_of_asking runs asks ⟨0, by rw [refused]⟩
  | resumes runs asks accepted rest ih =>
      obtain ⟨fuel, ends⟩ := ih
      exact exists_runWith_of_asking runs asks ⟨fuel, by rw [accepted]; exact ends⟩

/-- A run on a supply is what becomes of runs with a line between them. -/
theorem exists_runWith_iff_runsOn :
    (∃ fuel, session.runWith source fuel used = some (result, count, last)) ↔
      RunsOn source used session result count last :=
  ⟨fun runs => runs.elim fun _ => RunsOn.of_runWith, RunsOn.exists_runWith⟩

end RunsOn

end Session

end Splice
