import Splice.Proofs.Session.Notice

/-!
# Runs on a supply of lines

A run on a supply keeps no count of the lines that it takes. It ends all the same when there is a
limit: the step after a line never asks for another one, so no two lines are taken without a
contraction between them. In a session that a host has reached, that step uses the line or fails,
and the lines that a run has taken are no more than the redexes that it has contracted.
-/

namespace Splice

/-- A reduction that comes to a request uses the pending line, if there is one. -/
theorem Sequence.pending_of_awaiting {scope : Scope} {terms : List Term}
    (awaits : Sequence.reduce scope terms = .awaiting) : scope.pending = none := by
  obtain ⟨context, asks⟩ := asks_of_reduce awaits
  rw [asks.reduce_eq] at awaits
  unfold Context.receive at awaits
  split at awaits
  · rename_i nothing
    exact nothing
  · split at awaits
    · cases awaits
    · split at awaits
      · cases awaits
      · cases awaits

/-- The last turn of a loop takes no line. -/
theorem Driver.used_of_done {State : Type} {driver : Driver State} {source : LineSource}
    {used count : Nat} {state last : State} {result : Except Error RunStatus}
    (ends : driver.turn source used state = .done result count last) : count = used := by
  unfold turn at ends
  split at ends
  · cases ends
  · split at ends
    · cases ends
    · cases ends
      rfl
  · cases ends
    rfl
  · cases ends
    rfl

namespace Session

section Supply

variable {source : LineSource} {limit used used' count : Nat} {session provided last : Session}
  {line : Text}

/-- Below the limit, a run whose step asks for no line goes on after a contraction, and ends
otherwise. -/
theorem turn_cases (free : session.reachedLimit? = none)
    (answers : session.step.1 ≠ .ok .awaiting) (source : LineSource) (used : Nat) :
    (session.step.1 = .ok .changed ∧
      driver.turn source used session = .going used session.step.2) ∨
    (session.step.1 = .ok .converged ∧
      driver.turn source used session = .done (.ok .converged) used session.step.2) ∨
    ∃ error, session.step.1 = .error error ∧
      driver.turn source used session = .done (.error error) used session.step.2 := by
  rw [Driver.turn, round_of_free free]
  cases result : session.step.1 with
  | error error => exact .inr (.inr ⟨error, rfl, rfl⟩)
  | ok outcome =>
      cases outcome with
      | changed => exact .inl ⟨rfl, rfl⟩
      | converged => exact .inr (.inl ⟨rfl, rfl⟩)
      | awaiting => exact absurd result answers

/-! ## After a line -/

/-- The step after a line asks for no other line. -/
theorem step_of_provide (provides : session.provide line = .ok provided) :
    provided.step.1 ≠ .ok .awaiting := by
  obtain ⟨-, rfl⟩ := provide_eq_ok_iff.mp provides
  rcases step_cases { session with awaiting := false, pending := some line } with
    ⟨waits, -⟩ | ⟨-, awaits, -⟩ | ⟨-, answers, -⟩
  · cases waits
  · cases Sequence.pending_of_awaiting awaits
  · exact answers

/-- A line is taken below the limit, and does not bring a session closer to it. -/
theorem free_of_provide (free : session.reachedLimit? = none)
    (asks : session.step.1 = .ok .awaiting)
    (provides : session.step.2.provide line = .ok provided) :
    provided.reachedLimit? = none ∧ provided.steps = session.steps := by
  obtain ⟨outlet, asked, -⟩ := silent_of_step_awaiting asks
  obtain ⟨-, rfl⟩ := provide_eq_ok_iff.mp provides
  rw [asked]
  exact ⟨free, rfl⟩

/-- In a session that stands in front of a request, the turn after a line uses it by a contraction
or ends the run with an error. -/
theorem Coherent.turn_after_line (coherent : session.Coherent)
    (takes : driver.turn source used session = .going (used + 1) provided) :
    ∃ line, source used = .line line ∧ provided.pending = some line ∧
      provided.steps = session.steps ∧
      ((provided.step.1 = .ok .changed ∧
          driver.turn source (used + 1) provided = .going (used + 1) provided.step.2) ∨
        ∃ error, provided.step.1 = .error error ∧
          driver.turn source (used + 1) provided =
            .done (.error error) (used + 1) provided.step.2) := by
  obtain ⟨free, ⟨same, -⟩ | ⟨line, -, reads, asks, provides⟩⟩ := going_cases takes
  · omega
  · obtain ⟨below, steps⟩ := free_of_provide free asks provides
    have resumed := coherent.step.provide provides
    obtain ⟨-, given⟩ := provide_eq_ok_iff.mp provides
    have pending : provided.pending = some line := by rw [given]
    refine ⟨line, reads, pending, steps, ?_⟩
    rcases turn_cases below (step_of_provide provides) source (used + 1) with
      changes | ⟨converges, -⟩ | fails
    · exact .inl changes
    · exact absurd converges (resumed.step_of_pending pending).1
    · exact .inr fails

/-- The lines that a run takes before it ends without an error are no more than its
contractions. -/
theorem Coherent.used_le_steps {turns : Nat} {status : RunStatus} (coherent : session.Coherent)
    (ends : driver.after source turns used session = .done (.ok status) count last) :
    count + session.steps ≤ used + last.steps := by
  -- A line and the contraction after it are two turns, so shorter runs are all considered.
  induction turns using Nat.strongRecOn generalizing used session with
  | ind turns ih =>
      cases turns with
      | zero => cases ends
      | succ turns =>
          rw [Driver.after] at ends
          split at ends
          · rename_i used' later turned
            have steady := Coherent.preserved.of_turn turned coherent
            obtain ⟨-, ⟨rfl, changed⟩ | ⟨line, rfl, -⟩⟩ := going_cases turned
            · have counted := steps_of_changed (congrArg Prod.fst changed)
              rw [changed] at counted
              dsimp only at counted
              have rest := ih turns (Nat.lt_succ_self turns) steady ends
              omega
            · obtain ⟨-, -, -, same, ⟨changes, goes⟩ | ⟨error, -, fails⟩⟩ :=
                coherent.turn_after_line turned
              · cases turns with
                | zero => cases ends
                | succ turns =>
                    rw [Driver.after, goes] at ends
                    have counted := steps_of_changed changes
                    have rest := ih turns (by omega) steady.step ends
                    omega
              · cases turns with
                | zero => cases ends
                | succ turns =>
                    rw [Driver.after, fails] at ends
                    cases ends
          · rename_i turned
            cases ends
            have place := (driver.after_one source used session).trans turned
            have grows := (grows_of_done place).steps
            have untaken := Driver.used_of_done turned
            omega

/-! ## Ends -/

/-- A run with a limit ends: below the limit, two turns bring it to its end or one contraction
further. -/
theorem exists_done_of_limited (limited : session.settings.maxSteps = some limit)
    (source : LineSource) (used : Nat) :
    ∃ ended count last,
      driver.after source (2 * (limit - session.steps) + 1) used session =
        .done ended count last ∧ last.steps ≤ max limit session.steps := by
  generalize room : limit - session.steps = contractions
  induction contractions generalizing session used with
  | zero =>
      have reached := reachedLimit?_of_le limited (Nat.le_of_sub_eq_zero room)
      refine ⟨_, _, _, (driver.after_one source used session).trans
        (turn_of_reachedLimit reached), ?_⟩
      exact Nat.le_max_right _ _
  | succ contractions ih =>
      have free := reachedLimit?_of_lt limited (by omega : session.steps < limit)
      rw [Driver.after]
      cases turned : driver.turn source used session with
      | done ended count last =>
          obtain ⟨rfl, idle, -⟩ := step_of_done free turned
          refine ⟨ended, count, _, rfl, ?_⟩
          rw [steps_of_unchanged idle]
          exact Nat.le_max_right _ _
      | going used' later =>
          dsimp only
          have kept : later.settings.maxSteps = some limit := by
            rw [settings_of_going turned, limited]
          obtain ⟨-, ⟨-, changed⟩ | ⟨line, -, -, asks, provides⟩⟩ := going_cases turned
          · have counted := steps_of_changed (congrArg Prod.fst changed)
            rw [changed] at counted
            dsimp only at counted
            obtain ⟨ended, count, last, ends, bound⟩ := ih kept used' (by omega)
            exact ⟨ended, count, last, Driver.after_of_done ends 1, by omega⟩
          · obtain ⟨below, same⟩ := free_of_provide free asks provides
            have idle : later.step.1 ≠ .ok .changed →
                later.step.2.steps ≤ max limit session.steps := by
              intro unchanged
              rw [steps_of_unchanged unchanged, same]
              exact Nat.le_max_right _ _
            have more : 2 * (contractions + 1) = (2 * contractions + 1) + 1 := by omega
            rw [more, Driver.after]
            rcases turn_cases below (step_of_provide provides) source used' with
              ⟨changes, goes⟩ | ⟨converges, ends⟩ | ⟨error, fails, ends⟩
            · have counted := steps_of_changed changes
              have kept' : later.step.2.settings.maxSteps = some limit := by
                rw [settings_of_going goes, kept]
              obtain ⟨ended, count, last, ends, bound⟩ := ih kept' used' (by omega)
              rw [goes]
              exact ⟨ended, count, last, ends, by omega⟩
            · rw [ends]
              exact ⟨_, _, _, rfl, idle (by simp [converges])⟩
            · rw [ends]
              exact ⟨_, _, _, rfl, idle (by simp [fails])⟩

/-- A run on a supply with a limit ends, whatever session it starts from and however many lines
there are: it takes at most two turns for each contraction that the limit leaves, and one more. Its
count of steps goes up to the limit at most. From a session that a host has reached, every line
that the run takes is used by a contraction or refused by an error in the next turn, so a run that
ends without an error has taken no more lines than it has contracted redexes. -/
theorem run_on_supply_ends (limited : session.settings.maxSteps = some limit)
    (source : LineSource) :
    ∃ result used last,
      session.runWith source (2 * (limit - session.steps) + 1) 0 = some (result, used, last) ∧
      last.steps ≤ max limit session.steps ∧
      ∀ program settings sink, (new program settings sink).Reachable session →
        (∀ turns count middle provided,
          driver.after source turns 0 session = .going count middle →
          driver.turn source count middle = .going (count + 1) provided →
          ∃ line, source count = .line line ∧ provided.pending = some line ∧
            provided.steps = middle.steps ∧
            ((provided.step.1 = .ok .changed ∧
                driver.turn source (count + 1) provided = .going (count + 1) provided.step.2) ∨
              ∃ error, provided.step.1 = .error error ∧
                driver.turn source (count + 1) provided =
                  .done (.error error) (count + 1) provided.step.2)) ∧
        ∀ summary, result = .ok summary → used + session.steps ≤ last.steps := by
  obtain ⟨ended, used, last, ends, bound⟩ := exists_done_of_limited limited source 0
  refine ⟨_, used, last, runWith_eq_some_iff.mpr ⟨ended, ends, rfl⟩, bound, ?_⟩
  intro program settings sink reachable
  have coherent := Coherent.of_reachable reachable
  constructor
  · intro turns count middle provided place takes
    exact (Coherent.preserved.of_going place coherent).turn_after_line takes
  · intro summary works
    cases ended with
    | error error => cases works
    | ok status =>
        have taken := coherent.used_le_steps ends
        omega

end Supply

/-- Every line brings another request, and there is always another line. The limit is what ends
the run. -/
theorem run_on_endless_supply_ends :
    let session := new [.name Word.input] { maxSteps := some 3 } .buffer
    let source : LineSource := fun _ => .line Word.input
    session.settings.maxSteps = some 3 ∧ session.Reachable session ∧
      ∃ last, session.runWith source 7 0 = some (.ok ⟨.stepLimit, 3⟩, 3, last) ∧
        last.steps ≤ 3 ∧ 3 + session.steps ≤ last.steps := by
  intro session source
  obtain ⟨result, used, last, runs, bound, taken⟩ :=
    run_on_supply_ends (rfl : session.settings.maxSteps = some 3) source
  have reached : session.Reachable session := .start
  have shown : (session.runWith source 7 0).map (fun ending => (ending.1, ending.2.1)) =
      some (.ok ⟨.stepLimit, 3⟩, 3) := by
    rfl
  have room : session.runWith source 7 0 = some (result, used, last) := runs
  rw [room] at shown
  obtain ⟨rfl, rfl⟩ : result = .ok ⟨.stepLimit, 3⟩ ∧ used = 3 := by simpa using shown
  exact ⟨rfl, reached, last, runs, bound, (taken _ _ _ reached).2 _ rfl⟩

end Session

end Splice
