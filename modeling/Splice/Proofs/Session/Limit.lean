import Splice.Proofs.Session.Likeness

/-!
# Limits

A limit cuts a run short and does nothing else. The run with a limit goes side by side with the
run without one until the limit is reached, and stops there. So it has the same end when the other
run ends below the limit, and otherwise it ends where the other run once stood.
-/

namespace Splice

namespace Session

/-! ## Growth -/

/-- A step counts the redex that it contracts. -/
theorem step_counts (session : Session) :
    (session.step.1 = .ok .changed ∧ session.step.2.steps = session.steps + 1) ∨
    (session.step.1 ≠ .ok .changed ∧ session.step.2.steps = session.steps) := by
  have announced := (Silent.announce session).alongside
  have stepped := session.step_stepped
  generalize session.step.1 = result at stepped ⊢
  generalize session.step.2 = later at stepped ⊢
  cases stepped with
  | waiting waits => exact .inr ⟨by simp, rfl⟩
  | converged ready outcome => exact .inr ⟨by simp, announced.steps⟩
  | asking ready outcome => exact .inr ⟨by simp, announced.steps⟩
  | changed ready outcome performs =>
      exact .inl ⟨rfl, congrArg (· + 1) (alongside_of_perform performs).steps⟩
  | failed ready outcome => exact .inr ⟨by simp, announced.steps⟩
  | failedAfter ready outcome performs =>
      exact .inr ⟨by simp, (alongside_of_perform performs).steps⟩
  | refused ready outcome performs =>
      exact .inr ⟨by simp, (alongside_of_perform performs).steps⟩

theorem steps_of_changed {session : Session} (changed : session.step.1 = .ok .changed) :
    session.step.2.steps = session.steps + 1 := by
  rcases session.step_counts with ⟨-, counted⟩ | ⟨idle, -⟩
  · exact counted
  · exact absurd changed idle

theorem steps_of_unchanged {session : Session} (idle : session.step.1 ≠ .ok .changed) :
    session.step.2.steps = session.steps := by
  rcases session.step_counts with ⟨changed, -⟩ | ⟨-, same⟩
  · exact absurd changed idle
  · exact same

/-- What is printed while an account is kept comes after what has been printed before. -/
theorem prints_of_covers {account : Account} {earlier later : Session}
    (covers : account.Covers earlier later) : earlier.outlet.prints <+: later.outlet.prints := by
  have emitted : earlier.outlet.emissions <+: later.outlet.emissions := by
    rw [covers.emissions, List.append_assoc]
    exact List.prefix_append _ _
  exact emitted.filterMap _

/-- Whatever happens in a step, nothing that has been printed is taken back. -/
theorem prints_step (session : Session) :
    session.outlet.prints <+: session.step.2.outlet.prints := by
  have stepped := session.step_stepped
  generalize session.step.1 = result at stepped
  generalize session.step.2 = later at stepped ⊢
  cases stepped with
  | waiting waits => exact List.prefix_rfl
  | converged ready outcome => exact prints_of_covers (logs_announce ready).covers
  | asking ready outcome =>
      have printed := prints_of_covers (logs_announce ready).covers
      exact printed
  | changed ready outcome performs =>
      have happens := Outcome.event?_of_changed outcome
      have printed := prints_of_covers (covers_of_perform ready happens performs)
      exact printed
  | failed ready outcome => exact prints_of_covers (logs_announce ready).covers
  | failedAfter ready outcome performs =>
      have happens := Outcome.event?_of_failed outcome
      exact prints_of_covers (covers_of_perform ready happens performs)
  | refused ready happens performs =>
      exact prints_of_covers (covers_of_perform ready happens performs)

/-- One session is another one later, which has counted no less and printed the same texts before
others. -/
structure Grows (earlier later : Session) : Prop where
  steps : earlier.steps ≤ later.steps
  prints : earlier.outlet.prints <+: later.outlet.prints

theorem Grows.preserved (origin : Session) : Preserved origin.Grows where
  step := by
    intro session grows
    refine ⟨?_, grows.prints.trans session.prints_step⟩
    have before := grows.steps
    rcases session.step_counts with ⟨-, counted⟩ | ⟨-, same⟩
    · omega
    · omega
  provide := by
    intro session provided line provides grows
    obtain ⟨-, rfl⟩ := provide_eq_ok_iff.mp provides
    exact ⟨grows.steps, grows.prints⟩
  log := by
    intro session line grows
    refine ⟨grows.steps, ?_⟩
    rw [log, (Outlet.Silent.log session.outlet line).prints]
    exact grows.prints

/-! ## Turns -/

/-- Two sessions at the same point: they have counted as much, and have the same program, macros
and printed texts. -/
structure Abreast (session other : Session) : Prop where
  steps : other.steps = session.steps
  program : other.program = session.program
  macros : other.macros = session.macros
  prints : other.outlet.prints = session.outlet.prints

theorem Abreast.trans {first second third : Session} (before : first.Abreast second)
    (after : second.Abreast third) : first.Abreast third where
  steps := after.steps.trans before.steps
  program := after.program.trans before.program
  macros := after.macros.trans before.macros
  prints := after.prints.trans before.prints

theorem Abreast.symm {session other : Session} (abreast : session.Abreast other) :
    other.Abreast session where
  steps := abreast.steps.symm
  program := abreast.program.symm
  macros := abreast.macros.symm
  prints := abreast.prints.symm

theorem Silent.abreast {earlier later : Session} (silent : earlier.Silent later) :
    earlier.Abreast later := by
  obtain ⟨outlet, rfl, same⟩ := silent
  exact ⟨rfl, rfl, rfl, same.prints⟩

theorem Alike.abreast {session other : Session} (alike : session.Alike id other) :
    session.Abreast other where
  steps := alike.steps
  program := alike.program
  macros := alike.macros
  prints := by simpa using alike.outlet.prints

section Turns

variable {source : LineSource} {used used' limit : Nat} {session later : Session}

theorem reachedLimit?_of_unlimited (unlimited : session.settings.maxSteps = none) :
    session.reachedLimit? = none := by
  rw [reachedLimit?, unlimited]
  rfl

theorem reachedLimit?_of_lt (limited : session.settings.maxSteps = some limit)
    (below : session.steps < limit) : session.reachedLimit? = none := by
  simp [reachedLimit?, limited, below]

theorem reachedLimit?_of_le (limited : session.settings.maxSteps = some limit)
    (reached : limit ≤ session.steps) : session.reachedLimit? = some limit := by
  simp [reachedLimit?, limited, reached]

theorem reachedLimit?_of_room {more : Nat}
    (room : ∀ limit, session.settings.maxSteps = some limit → session.steps + (more + 1) ≤ limit) :
    session.reachedLimit? = none := by
  cases limited : session.settings.maxSteps with
  | none => exact reachedLimit?_of_unlimited limited
  | some limit =>
      have below := room limit limited
      exact reachedLimit?_of_lt limited (by omega)

/-- A run stops at its limit. -/
theorem turn_of_reachedLimit (reached : session.reachedLimit? = some limit) :
    driver.turn source used session =
      .done (.ok .stepLimit) used (session.log ("warning: ".toList ++ limitNotice limit)) := by
  have turn : driver.round session =
      (.halted .stepLimit, session.log ("warning: ".toList ++ limitNotice limit)) := by
    dsimp only [driver]
    rw [round, reached]
  rw [Driver.turn, turn]

/-- A run goes on after a step that contracts a redex, and after a request with the next line of
the supply. The limit has not been reached then. -/
theorem going_cases (goes : driver.turn source used session = .going used' later) :
    session.reachedLimit? = none ∧
    ((used' = used ∧ session.step = (.ok .changed, later)) ∨
      ∃ line, used' = used + 1 ∧ source used = .line line ∧ session.step.1 = .ok .awaiting ∧
        session.step.2.provide line = .ok later) := by
  unfold Driver.turn at goes
  dsimp only [driver] at goes
  split at goes
  · rename_i after turn
    cases goes
    rcases round_cases turn with ⟨limit, -, halts, -⟩ | ⟨free, runs, rfl⟩
    · cases halts
    · exact ⟨free, .inl ⟨rfl, Prod.ext (Round.ofStep_eq_running runs.symm) rfl⟩⟩
  · rename_i after turn
    split at goes
    · rename_i provided accepts
      cases goes
      obtain ⟨line, reads, provides⟩ := exists_line_of_accept accepts
      rcases round_cases turn with ⟨limit, -, halts, -⟩ | ⟨free, asks, rfl⟩
      · cases halts
      · exact ⟨free, .inr ⟨line, rfl, reads, Round.ofStep_eq_awaiting asks.symm, provides⟩⟩
    · cases goes
  · cases goes
  · cases goes

theorem step_of_going (goes : driver.turn source used session = .going used' later) :
    session.step = (.ok .changed, later) ∨
      ∃ line, session.step.1 = .ok .awaiting ∧ session.step.2.provide line = .ok later := by
  obtain ⟨-, ⟨-, changed⟩ | ⟨line, -, -, asks, provides⟩⟩ := going_cases goes
  · exact .inl changed
  · exact .inr ⟨line, asks, provides⟩

theorem Preserved.of_turn {holds : Session → Prop} (preserved : Preserved holds)
    (goes : driver.turn source used session = .going used' later)
    (before : holds session) : holds later := by
  have stepped := preserved.step before
  rcases step_of_going goes with changed | ⟨line, -, provides⟩
  · rw [changed] at stepped
    exact stepped
  · exact preserved.provide provides stepped

theorem settings_of_going (goes : driver.turn source used session = .going used' later) :
    later.settings = session.settings :=
  ((preserved_settings_sink session.settings session.outlet.sink).of_turn goes ⟨rfl, rfl⟩).1

/-- A turn after which a run goes on contracts one redex, or leaves the session where it is. -/
theorem count_of_going (goes : driver.turn source used session = .going used' later) :
    later.steps = session.steps + 1 ∨ session.Abreast later := by
  rcases step_of_going goes with changed | ⟨line, asks, provides⟩
  · have counted := steps_of_changed (congrArg Prod.fst changed)
    rw [changed] at counted
    exact .inl counted
  · have asked := (silent_of_step_awaiting asks).abreast
    obtain ⟨-, rfl⟩ := provide_eq_ok_iff.mp provides
    exact .inr ⟨asked.steps, asked.program, asked.macros, asked.prints⟩

/-- Below the limit a round is a step. -/
theorem round_of_free (free : session.reachedLimit? = none) :
    driver.round session = (.ofStep session.step.1, session.step.2) := by
  have whole : session.round = (session.round.1, session.round.2) := rfl
  rcases round_cases whole with ⟨limit, reached, -, -⟩ | ⟨-, same, after⟩
  · simp [free] at reached
  · exact Prod.ext same after

theorem turn_of_changed (free : session.reachedLimit? = none)
    (changes : session.step.1 = .ok .changed) (source : LineSource) (used : Nat) :
    driver.turn source used session = .going used session.step.2 := by
  rw [Driver.turn, round_of_free free, changes, Round.ofStep]

theorem turn_of_converged (free : session.reachedLimit? = none)
    (converges : session.step.1 = .ok .converged) (source : LineSource) (used : Nat) :
    driver.turn source used session = .done (.ok .converged) used session.step.2 := by
  rw [Driver.turn, round_of_free free, converges, Round.ofStep]

/-- Below the limit, a run ends with a step that contracts nothing, and without an error only with
one that finds no redex. -/
theorem step_of_done {result : Except Error RunStatus} (free : session.reachedLimit? = none)
    (ends : driver.turn source used session = .done result used' later) :
    later = session.step.2 ∧ session.step.1 ≠ .ok .changed ∧
      ∀ status, result = .ok status → status = .converged ∧ session.step.1 = .ok .converged := by
  rw [Driver.turn, round_of_free free] at ends
  generalize session.step = stepped at ends ⊢
  rcases stepped with ⟨error | (_ | _ | _), after⟩
  · cases ends
    exact ⟨rfl, by simp, by simp⟩
  · cases ends
  · cases ends
    exact ⟨rfl, by simp, by simp⟩
  · dsimp only [Round.ofStep, driver] at ends
    split at ends
    · cases ends
    · cases ends
      exact ⟨rfl, by simp, by simp⟩

end Turns

/-! ## Runs side by side -/

theorem runWith_eq_some_iff {source : LineSource} {fuel used count : Nat} {session last : Session}
    {result : Except Error RunSummary} :
    session.runWith source fuel used = some (result, count, last) ↔
      ∃ ended, driver.after source fuel used session = .done ended count last ∧
        result = ended.map (RunSummary.mk · last.steps) := by
  rw [runWith_eq_after]
  cases driver.after source fuel used session with
  | going used state => simp [Driven.result?]
  | done ended used state =>
      simp only [Driven.result?, Option.map_some, Option.some.injEq, Prod.mk.injEq,
        Driven.done.injEq]
      constructor
      · rintro ⟨rfl, rfl, rfl⟩
        exact ⟨ended, ⟨rfl, rfl, rfl⟩, rfl⟩
      · rintro ⟨_, ⟨rfl, rfl, rfl⟩, rfl⟩
        exact ⟨rfl, rfl, rfl⟩

theorem runWith_eq_ok_iff {source : LineSource} {fuel used count steps : Nat}
    {session last : Session} {status : RunStatus} :
    session.runWith source fuel used = some (.ok ⟨status, steps⟩, count, last) ↔
      driver.after source fuel used session = .done (.ok status) count last ∧
        last.steps = steps := by
  rw [runWith_eq_some_iff]
  constructor
  · rintro ⟨error | ended, ends, same⟩
    · cases same
    · cases same
      exact ⟨ends, rfl⟩
  · rintro ⟨ends, rfl⟩
    exact ⟨.ok status, ends, rfl⟩

theorem grows_of_done {source : LineSource} {turns used count : Nat} {session last : Session}
    {ended : Except Error RunStatus}
    (ends : driver.after source turns used session = .done ended count last) :
    session.Grows last := by
  have runs := runWith_eq_some_iff.mpr ⟨ended, ends, rfl⟩
  exact RunsTo.runWith runs (Grows.preserved session).carries ⟨Nat.le_refl _, List.prefix_rfl⟩

/-- A session without a limit and one with the given limit that take the same steps. -/
abbrev Capped (limit : Nat) : Session → Session → Prop :=
  Paired id none (some limit)

section Capped

variable {source : LineSource} {limit used : Nat} {session other : Session}

theorem Capped.turn (capped : Capped limit session other) (below : session.steps < limit)
    (source : LineSource) (used : Nat) :
    Driver.Together (Capped limit) (driver.turn source used session)
      (driver.turn source used other) := by
  have otherBelow : other.steps < limit := by
    rw [capped.steps]
    exact below
  obtain ⟨same, later⟩ := capped.round (reachedLimit?_of_unlimited capped.limit)
    (reachedLimit?_of_lt capped.otherLimit otherBelow)
  exact Driver.Together.turn (fun paired => paired.accept _) same later

/-- How a loop with a limit stands to the one without: at the same place, or at an end that is
reached where the other one was at the limit. The count where the loop ends is at most `stop`. -/
inductive Cut (source : LineSource) (limit stop used : Nat) (origin : Session) :
    Driven Session → Driven Session → Prop where
  | going {count : Nat} {session other : Session} (capped : Capped limit session other)
      (within : session.steps ≤ stop) :
      Cut source limit stop used origin (.going count session) (.going count other)
  | done {count : Nat} {session other : Session} {result : Except Error RunStatus}
      (capped : Capped limit session other) (below : session.steps < limit) :
      Cut source limit stop used origin (.done result count session) (.done result count other)
  | stopped {turns count : Nat} {middle later : Session} (place : Driven Session)
      (stands : driver.after source turns used origin = .going count middle)
      (capped : Capped limit middle later) (reached : limit ≤ middle.steps)
      (within : middle.steps ≤ stop) :
      Cut source limit stop used origin place (.done (.ok .stepLimit) count later)

/-- After the same number of turns, the loop with a limit is a cut of the one without. -/
theorem Capped.cut (capped : Capped limit session other) (source : LineSource) (used turns : Nat) :
    Cut source limit (max limit session.steps) used session
      (driver.after source turns used session) (driver.after source turns used other) := by
  induction turns with
  | zero => exact .going capped (by omega)
  | succ turns ih =>
      generalize ours : driver.after source turns used session = place at ih
      generalize theirs : driver.after source turns used other = place' at ih
      cases ih with
      | @going count middle middle' capped within =>
          rw [Driver.after_of_going ours, Driver.after_of_going theirs, Driver.after_one,
            Driver.after_one]
          -- The limit is looked at before a turn: both loops take the turn, or only one does.
          by_cases below : middle.steps < limit
          · have free := reachedLimit?_of_unlimited capped.limit
            have together := capped.turn below source count
            generalize turned : driver.turn source count middle = place at together
            generalize driver.turn source count middle' = place' at together
            cases together with
            | @going later _ _ here =>
                refine .going here ?_
                rcases count_of_going turned with counted | abreast
                · omega
                · have same := abreast.steps
                  omega
            | done result _ here =>
                obtain ⟨rfl, idle, -⟩ := step_of_done free turned
                refine .done here ?_
                rw [steps_of_unchanged idle]
                exact below
          · have reached : limit ≤ middle.steps := Nat.le_of_not_lt below
            have otherReached : limit ≤ middle'.steps := by
              rw [capped.steps]
              exact reached
            rw [turn_of_reachedLimit (reachedLimit?_of_le capped.otherLimit otherReached)]
            exact .stopped _ ours (capped.silent (.refl middle) (.log middle' _)) reached within
      | done capped below =>
          rw [Driver.after_of_done ours, Driver.after_of_done theirs]
          exact .done capped below
      | stopped place stands capped reached within =>
          rw [Driver.after_of_done theirs]
          exact .stopped _ stands capped reached within

section Ends

variable {turns count : Nat} {last : Session} {ended : Except Error RunStatus}

/-- A loop that ends below the limit ends in the same way with the limit. -/
theorem Capped.done_of_lt (capped : Capped limit session other)
    (ends : driver.after source turns used session = .done ended count last)
    (below : last.steps < limit) :
    ∃ later, driver.after source turns used other = .done ended count later ∧
      Capped limit last later := by
  have cut := capped.cut source used turns
  rw [ends] at cut
  generalize driver.after source turns used other = place at cut
  cases cut with
  | done capped _ => exact ⟨_, rfl, capped⟩
  | stopped _ stands _ reached _ =>
      obtain ⟨more, rest⟩ := Driver.after_done_of_going stands ends
      have grows := (grows_of_done rest).steps
      omega

/-- A loop that comes to the limit or beyond stops at it with the limit. -/
theorem Capped.stopped_of_le (capped : Capped limit session other)
    (start : session.steps ≤ limit)
    (ends : driver.after source turns used session = .done ended count last)
    (reached : limit ≤ last.steps) :
    ∃ turns' count' middle later,
      driver.after source turns used other = .done (.ok .stepLimit) count' later ∧
      driver.after source turns' used session = .going count' middle ∧ middle.steps = limit ∧
      Capped limit middle later ∧ middle.Grows last := by
  have cut := capped.cut source used turns
  rw [ends] at cut
  generalize driver.after source turns used other = place at cut
  cases cut with
  | done _ below => omega
  | stopped _ stands capped atLimit within =>
      obtain ⟨more, rest⟩ := Driver.after_done_of_going stands ends
      exact ⟨_, _, _, _, rfl, stands, by omega, capped, grows_of_done rest⟩

end Ends

end Capped

/-! ## Where a run has stood -/

section Standing

variable {source : LineSource} {turns used used' : Nat} {session later : Session}

/-- While a run goes on, its count grows, or it stays at the same point. -/
theorem abreast_of_going (goes : driver.after source turns used session = .going used' later) :
    session.steps ≤ later.steps ∧ (later.steps = session.steps → session.Abreast later) := by
  induction turns generalizing used session with
  | zero =>
      cases goes
      exact ⟨Nat.le_refl _, fun _ => ⟨rfl, rfl, rfl, rfl⟩⟩
  | succ turns ih =>
      rw [Driver.after] at goes
      split at goes
      · rename_i count middle turned
        obtain ⟨grows, stays⟩ := ih goes
        rcases count_of_going turned with counted | abreast
        · exact ⟨by omega, fun same => by omega⟩
        · have same := abreast.steps
          refine ⟨by omega, fun unchanged => abreast.trans (stays ?_)⟩
          omega
      · cases goes

/-- What steps, lines and the log preserve holds wherever a run stands. -/
theorem Preserved.of_going {holds : Session → Prop} (preserved : Preserved holds)
    (goes : driver.after source turns used session = .going used' later)
    (before : holds session) : holds later := by
  induction turns generalizing used session with
  | zero =>
      cases goes
      exact before
  | succ turns ih =>
      rw [Driver.after] at goes
      split at goes
      · rename_i count middle turned
        exact ih goes (preserved.of_turn turned before)
      · cases goes

/-- A run on a supply stands at a session after some turns, when it has contracted so many
redexes. -/
def Stands (source : LineSource) (origin : Session) (count : Nat) (session : Session) : Prop :=
  ∃ turns used, driver.after source turns 0 origin = .going used session ∧ session.steps = count

/-- Wherever a run stands with the same count, it is at the same point. -/
theorem Stands.abreast {origin other : Session} {count : Nat}
    (stands : origin.Stands source count session) (stands' : origin.Stands source count other) :
    session.Abreast other := by
  obtain ⟨turns, used, place, rfl⟩ := stands
  obtain ⟨turns', used', place', same⟩ := stands'
  -- One of the two places is on the way to the other.
  rcases Nat.le_total turns turns' with earlier | earlier
  · obtain ⟨more, rfl⟩ := Nat.exists_eq_add_of_le earlier
    rw [Driver.after_of_going place] at place'
    exact (abreast_of_going place').2 same
  · obtain ⟨more, rfl⟩ := Nat.exists_eq_add_of_le earlier
    rw [Driver.after_of_going place'] at place
    exact ((abreast_of_going place).2 same.symm).symm

/-- A run without a limit that does not fail converges. -/
theorem converged_of_unlimited {count : Nat} {last : Session} {status : RunStatus}
    (unlimited : session.settings.maxSteps = none)
    (ends : driver.after source turns used session = .done (.ok status) count last) :
    status = .converged := by
  induction turns generalizing used session with
  | zero => cases ends
  | succ turns ih =>
      rw [Driver.after] at ends
      split at ends
      · rename_i middle turned
        refine ih ?_ ends
        rw [settings_of_going turned]
        exact unlimited
      · rename_i turned
        cases ends
        obtain ⟨-, -, converges⟩ := step_of_done (reachedLimit?_of_unlimited unlimited) turned
        exact (converges status rfl).1

end Standing

/-! ## Cut runs -/

/-- If a run without a limit converges or fails after some steps, then a run with a higher limit
ends in the same way at the same point. A run with any other limit stops there: at the point where
the other run has stood, and with texts printed that the other run begins with. -/
theorem limit_cuts_run {program : List Term} (settings : Settings) {sink : Sink}
    {source : LineSource} {fuel used : Nat} {result : Except Error RunSummary} {last : Session}
    (runs : (new program { settings with maxSteps := none } sink).runWith source fuel 0 =
      some (result, used, last)) (limit : Nat) :
    let unlimited := new program { settings with maxSteps := none } sink
    let limited := new program { settings with maxSteps := some limit } sink
    (∀ summary, result = .ok summary → summary = ⟨.converged, last.steps⟩) ∧
    (last.steps < limit →
      ∃ later, limited.runWith source fuel 0 = some (result, used, later) ∧ last.Abreast later) ∧
    (limit ≤ last.steps →
      ∃ count later, limited.runWith source fuel 0 = some (.ok ⟨.stepLimit, limit⟩, count, later) ∧
        later.outlet.prints <+: last.outlet.prints ∧
        (∃ middle, unlimited.Stands source limit middle) ∧
        ∀ middle, unlimited.Stands source limit middle → middle.Abreast later) := by
  intro unlimited limited
  obtain ⟨ended, ends, rfl⟩ := runWith_eq_some_iff.mp runs
  have capped : Capped limit unlimited limited :=
    .new program { settings with maxSteps := none } { settings with maxSteps := some limit }
      sink.goesBy_id rfl fun _ => rfl
  refine ⟨?_, ?_, ?_⟩
  · intro summary same
    cases ended with
    | error error => cases same
    | ok status =>
        cases same
        rw [converged_of_unlimited capped.limit ends]
  · intro below
    obtain ⟨later, ends', capped'⟩ := capped.done_of_lt ends below
    refine ⟨later, runWith_eq_some_iff.mpr ⟨ended, ends', ?_⟩, capped'.abreast⟩
    rw [capped'.steps]
  · intro reached
    obtain ⟨turns, count, middle, later, ends', stands, counted, capped', grows⟩ :=
      capped.stopped_of_le (Nat.zero_le limit) ends reached
    have stood : unlimited.Stands source limit middle := ⟨turns, count, stands, counted⟩
    refine ⟨count, later, ?_, ?_, ⟨middle, stood⟩, ?_⟩
    · refine runWith_eq_some_iff.mpr ⟨.ok .stepLimit, ends', ?_⟩
      rw [capped'.steps, counted]
      rfl
    · rw [capped'.abreast.prints]
      exact grows.prints
    · intro another stands
      exact (stands.abreast stood).trans capped'.abreast

/-- The run prints a literal, asks for a line and prints it. With a limit of one it stops in front
of the request, and with a limit of four it comes to the end. -/
theorem limit_cuts_asking_run :
    let printing (term : Term) : Term := .app (.name Word.print) [term]
    let program := [printing (.literal "PoAop".toList), printing (.name Word.input)]
    let source : LineSource := .ofList ["PoBop".toList] .closed
    let limited (limit : Nat) := new program { maxSteps := some limit } .buffer
    ∃ last, (new program { maxSteps := none } .buffer).runWith source 5 0 =
        some (.ok ⟨.converged, 3⟩, 1, last) ∧ last.steps = 3 ∧
      last.outlet.prints = ["A".toList, "B".toList] ∧
      (∃ count later, (limited 1).runWith source 5 0 = some (.ok ⟨.stepLimit, 1⟩, count, later) ∧
        later.outlet.prints <+: last.outlet.prints) ∧
      ∃ later, (limited 4).runWith source 5 0 = some (.ok ⟨.converged, 3⟩, 1, later) ∧
        last.Abreast later := by
  intro printing program source limited
  obtain ⟨last, runs, steps, prints⟩ : ∃ last,
      (new program { maxSteps := none } .buffer).runWith source 5 0 =
        some (.ok ⟨.converged, 3⟩, 1, last) ∧ last.steps = 3 ∧
      last.outlet.prints = ["A".toList, "B".toList] := ⟨_, rfl, rfl, rfl⟩
  obtain ⟨-, -, stops⟩ := limit_cuts_run {} runs 1
  obtain ⟨-, ends, -⟩ := limit_cuts_run {} runs 4
  obtain ⟨count, early, halted, printed, -⟩ := stops (by omega)
  exact ⟨last, runs, steps, prints, ⟨count, early, halted, printed⟩, ends (by omega)⟩

end Session

end Splice
