import Splice.Proofs.Session.Limit

/-!
# Notices at the limit

The notice at the limit says that there is no normal form yet. It is given before the step that
would tell, and it is wrong when the run without a limit ends at just this count.
-/

namespace Splice

namespace Session

/-- A session without its limit. -/
def unlimited (session : Session) : Session :=
  { session with settings := { session.settings with maxSteps := none } }

theorem capped_unlimited {session : Session} {limit : Nat}
    (limited : session.settings.maxSteps = some limit) :
    Capped limit session.unlimited session where
  program := rfl
  macros := rfl
  pending := rfl
  awaiting := rfl
  steps := rfl
  strategy := rfl
  output _ := rfl
  outlet := ⟨rfl, session.outlet.sink.goesBy_id, rfl, rfl⟩
  limit := rfl
  otherLimit := limited

theorem Coherent.unlimited {session : Session} (coherent : session.Coherent) :
    session.unlimited.Coherent :=
  ⟨coherent.pending, coherent.asks⟩

section Notice

variable {source : LineSource} {turns used count : Nat} {session last : Session}

/-- A step that finds a line pending uses it or fails. -/
theorem Coherent.step_of_pending {line : Text} (coherent : session.Coherent)
    (pending : session.pending = some line) :
    session.step.1 ≠ .ok .converged ∧ session.step.1 ≠ .ok .awaiting := by
  obtain ⟨context, reads⟩ := coherent.reads pending
  generalize session.step.1 = result at reads ⊢
  generalize session.step.2 = later at reads
  cases reads with
  | spliced read filled silent => simp
  | unreadable refused silent => simp
  | severalTerms read callee count silent => simp

/-- A run without a limit that converges and contracts nothing converges at once, or after a line
that the session takes. -/
theorem step_of_idle_run (free : session.settings.maxSteps = none)
    (ends : driver.after source turns used session = .done (.ok .converged) count last)
    (idle : last.steps = session.steps) :
    session.step.1 = .ok .converged ∨
    ∃ line provided turns' used', session.step.1 = .ok .awaiting ∧
      session.step.2.provide line = .ok provided ∧ provided.settings.maxSteps = none ∧
      driver.after source turns' used' provided = .done (.ok .converged) count last ∧
      last.steps = provided.steps := by
  cases turns with
  | zero => cases ends
  | succ turns =>
      rw [Driver.after] at ends
      split at ends
      · rename_i used' provided turned
        have grows := (grows_of_done ends).steps
        have settings := settings_of_going turned
        rcases step_of_going turned with changed | ⟨line, asks, provides⟩
        · have counted := steps_of_changed (congrArg Prod.fst changed)
          rw [changed] at counted
          dsimp only at counted
          omega
        · refine .inr ⟨line, provided, turns, used', asks, provides, ?_, ends, ?_⟩
          · rw [settings]
            exact free
          · rcases count_of_going turned with counted | abreast
            · omega
            · rw [idle, abreast.steps]
      · rename_i turned
        cases ends
        obtain ⟨-, -, converges⟩ := step_of_done (reachedLimit?_of_unlimited free) turned
        exact .inl (converges .converged rfl).2

theorem Coherent.converged_of_idle_run (coherent : session.Coherent)
    (free : session.settings.maxSteps = none)
    (ends : driver.after source turns used session = .done (.ok .converged) count last)
    (idle : last.steps = session.steps) : session.step.1 = .ok .converged := by
  rcases step_of_idle_run free ends idle with converges |
    ⟨line, provided, turns', used', asks, provides, free', ends', idle'⟩
  · exact converges
  · -- The next step uses the line, so it does not converge, and no other step is idle.
    have resumed := coherent.step.provide provides
    obtain ⟨-, rfl⟩ := provide_eq_ok_iff.mp provides
    obtain ⟨moves, answers⟩ := resumed.step_of_pending rfl
    rcases step_of_idle_run free' ends' idle' with converges | ⟨_, _, _, _, asks', -⟩
    · exact absurd converges moves
    · exact absurd asks' answers

/-- Where a run has stopped at its limit there is no redex exactly when the run without the limit
converges at the same count. -/
theorem Coherent.converged_iff_of_stepLimit (coherent : session.Coherent) {fuel steps : Nat}
    {later : Session}
    (runs : session.runWith source fuel used = some (.ok ⟨.stepLimit, steps⟩, count, later)) :
    later.step.1 = .ok .converged ↔
      ∃ fuel count last, session.unlimited.runWith source fuel used =
        some (.ok ⟨.converged, steps⟩, count, last) := by
  obtain ⟨ends, rfl⟩ := runWith_eq_ok_iff.mp runs
  cases limit : session.settings.maxSteps with
  | none => cases converged_of_unlimited limit ends
  | some limit =>
      have free : session.unlimited.settings.maxSteps = none := rfl
      have cut := (capped_unlimited limit).cut source used fuel
      rw [ends] at cut
      generalize place : driver.after source fuel used session.unlimited = ended' at cut
      cases cut with
      | done capped below => cases converged_of_unlimited free place
      | @stopped turns _ middle _ _ stands capped reached within =>
          obtain ⟨same, -⟩ := capped.step
          rw [same, capped.steps]
          constructor
          · intro converges
            have free' := reachedLimit?_of_unlimited capped.limit
            have turned := turn_of_converged free' converges source count
            have whole := Driver.after_of_going stands 1
            rw [Driver.after_one, turned] at whole
            have idle : middle.step.1 ≠ .ok .changed := by simp [converges]
            have same := steps_of_unchanged idle
            exact ⟨turns + 1, count, middle.step.2, runWith_eq_ok_iff.mpr ⟨whole, same⟩⟩
          · rintro ⟨fuel', count', last, runs'⟩
            obtain ⟨ends', idle⟩ := runWith_eq_ok_iff.mp runs'
            obtain ⟨more, rest⟩ := Driver.after_done_of_going stands ends'
            have stood := Coherent.preserved.of_going stands coherent.unlimited
            exact stood.converged_of_idle_run capped.limit rest idle

/-- A run converges exactly when it does so on a supply without lines. -/
theorem exists_run_converged_iff {steps : Nat} :
    (∃ fuel last, session.run fuel = some (.ok ⟨.converged, steps⟩, last)) ↔
      ∃ fuel count last, session.runWith (fun _ => .closed) fuel 0 =
        some (.ok ⟨.converged, steps⟩, count, last) := by
  constructor
  · rintro ⟨fuel, last, runs⟩
    obtain ⟨fuel, runs⟩ := exists_runWith_of_run runs (by simp)
    exact ⟨fuel, 0, last, runs⟩
  · rintro ⟨fuel, count, last, runs⟩
    cases RunsOn.of_runWith runs with
    | stops runs other => exact ⟨_, last, runs⟩
    | resumes runs asks accepted rest => cases accepted

end Notice

/-- A session that has stopped at its limit is told to have no normal form yet. This is true unless
the run without the limit converges at the same count. -/
theorem stepLimit_truthful_iff {program : List Term} {settings : Settings} {sink : Sink}
    {session : Session} (reachable : (new program settings sink).Reachable session) :
    (∀ fuel steps later, session.run fuel = some (.ok ⟨.stepLimit, steps⟩, later) →
      (later.step.1 ≠ .ok .converged ↔
        ¬ ∃ fuel last, session.unlimited.run fuel = some (.ok ⟨.converged, steps⟩, last))) ∧
    ∀ source fuel used steps count later,
      session.runWith source fuel used = some (.ok ⟨.stepLimit, steps⟩, count, later) →
      (later.step.1 ≠ .ok .converged ↔
        ¬ ∃ fuel count last, session.unlimited.runWith source fuel used =
          some (.ok ⟨.converged, steps⟩, count, last)) := by
  have coherent := Coherent.of_reachable reachable
  constructor
  · intro fuel steps later runs
    rw [exists_run_converged_iff]
    obtain ⟨fuel, runs⟩ := exists_runWith_of_run runs (by simp)
    exact not_congr (coherent.converged_iff_of_stepLimit runs)
  · intro source fuel used steps count later runs
    exact not_congr (coherent.converged_iff_of_stepLimit runs)

/-- A macro that stands for itself is expanded for ever, and the notice at the limit is true. -/
theorem stepLimit_truthful_of_loop :
    let loop := "Loop".toList
    let session := new [.define loop [.name loop], .name loop] { maxSteps := some 3 } .buffer
    ∃ later, session.run 4 = some (.ok ⟨.stepLimit, 3⟩, later) ∧ later.step.1 ≠ .ok .converged ∧
      ¬ ∃ fuel last, session.unlimited.run fuel = some (.ok ⟨.converged, 3⟩, last) := by
  intro loop session
  have reachable : session.Reachable session := .start
  obtain ⟨later, runs, changes⟩ : ∃ later, session.run 4 = some (.ok ⟨.stepLimit, 3⟩, later) ∧
      later.step.1 = .ok .changed := ⟨_, rfl, rfl⟩
  have moves : later.step.1 ≠ .ok .converged := by simp [changes]
  have truthful := (stepLimit_truthful_iff reachable).1 4 3 later runs
  exact ⟨later, runs, moves, truthful.mp moves⟩

/-- One step prints the literal and leaves a program in normal form. With a limit of one step, the
session is told to have no normal form yet. -/
theorem stepLimit_at_normal_form :
    let session := new [.app (.name Word.print) [.literal "PoHiop".toList]]
      { maxSteps := some 1 } .buffer
    ∃ later, session.run 2 = some (.ok ⟨.stepLimit, 1⟩, later) ∧
      later.outlet.logLines =
        ["warning: step limit of 1 reached before normal form".toList] ∧
      later.step.1 = .ok .converged := by
  intro session
  exact ⟨_, rfl, rfl, rfl⟩

end Session

end Splice
