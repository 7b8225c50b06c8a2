import Splice.Session.Action

/-!
# Sessions within reach

A host reaches a session by actions, and those that fail are among them. A run is made of rounds,
and a round is a step or a notice that the limit is reached. So what steps, lines and the log
preserve holds of every session within reach.
-/

namespace Splice

/-- What a round does whose step has the given result. -/
def Round.ofStep : Except Error StepResult → Round
  | .ok .changed => .running
  | .ok .converged => .halted .converged
  | .ok .awaiting => .halted .awaiting
  | .error error => .failed error

theorem Round.ofStep_eq_running {result : Except Error StepResult}
    (runs : ofStep result = .running) : result = .ok .changed := by
  rcases result with error | (_ | _ | _)
  · cases runs
  · rfl
  · cases runs
  · cases runs

theorem Round.ofStep_eq_awaiting {result : Except Error StepResult}
    (awaits : ofStep result = .halted .awaiting) : result = .ok .awaiting := by
  rcases result with error | (_ | _ | _)
  · cases awaits
  · cases awaits
  · cases awaits
  · rfl

namespace Session

/-- A round is a notice at the limit, and a step below it. -/
theorem round_cases {session later : Session} {round : Round}
    (turn : session.round = (round, later)) :
    (∃ limit, session.reachedLimit? = some limit ∧ round = .halted .stepLimit ∧
      later = session.log ("warning: ".toList ++ limitNotice limit)) ∨
    (session.reachedLimit? = none ∧ round = .ofStep session.step.1 ∧
      later = session.step.2) := by
  rw [Session.round] at turn
  cases reached : session.reachedLimit? with
  | some limit =>
      rw [reached] at turn
      obtain ⟨rfl, rfl⟩ := Prod.mk.inj turn
      exact .inl ⟨limit, rfl, rfl, rfl⟩
  | none =>
      refine .inr ⟨rfl, ?_⟩
      rw [reached] at turn
      generalize session.step = stepped at turn ⊢
      rcases stepped with ⟨(error | (_ | _ | _)), after⟩
      all_goals
        obtain ⟨rfl, rfl⟩ := Prod.mk.inj turn
        exact ⟨rfl, rfl⟩

theorem exists_line_of_accept {session provided : Session} {reading : Reading}
    (accepts : session.accept reading = .ok provided) :
    ∃ line, reading = .line line ∧ session.provide line = .ok provided := by
  cases reading with
  | line text => exact ⟨text, rfl, accepts⟩
  | closed => cases accepts
  | failed fault => cases accepts

/-! ## Runs -/

/-- What holds at the start of every round of a run, and what holds when the run is over. -/
structure Carries (during after : Session → Prop) : Prop where
  running {session later : Session} :
    session.round = (.running, later) → during session → during later
  stopping {session later : Session} {round : Round} :
    session.round = (round, later) → round ≠ .running → during session → after later
  resuming {session later provided : Session} {line : Text} :
    session.round = (.halted .awaiting, later) → later.provide line = .ok provided →
      during session → during provided

/-- A run leads from one session to another: what its rounds carry arrives there. -/
def RunsTo (session next : Session) : Prop :=
  ∀ {during after : Session → Prop}, Carries during after → during session → after next

theorem RunsTo.run {fuel : Nat} {session next : Session} {result : Except Error RunSummary}
    (runs : session.run fuel = some (result, next)) : session.RunsTo next := by
  intro during after carries holds
  induction fuel generalizing session with
  | zero => cases runs
  | succ fuel ih =>
      rw [Session.run] at runs
      split at runs
      · rename_i later turn
        exact ih runs (carries.running turn holds)
      · rename_i status later turn
        cases runs
        exact carries.stopping turn nofun holds
      · rename_i error later turn
        cases runs
        exact carries.stopping turn nofun holds

theorem RunsTo.runWith {source : LineSource} {fuel used count : Nat} {session next : Session}
    {result : Except Error RunSummary}
    (runs : session.runWith source fuel used = some (result, count, next)) :
    session.RunsTo next := by
  intro during after carries holds
  induction fuel generalizing session used with
  | zero => cases runs
  | succ fuel ih =>
      rw [Session.runWith] at runs
      split at runs
      · rename_i later turn
        exact ih runs (carries.running turn holds)
      · rename_i later turn
        split at runs
        · rename_i provided accepts
          obtain ⟨line, -, provides⟩ := exists_line_of_accept accepts
          exact ih runs (carries.resuming turn provides holds)
        · cases runs
          exact carries.stopping turn nofun holds
      · rename_i status later other turn
        cases runs
        exact carries.stopping turn nofun holds
      · rename_i error later turn
        cases runs
        exact carries.stopping turn nofun holds

/-! ## Actions -/

/-- The sessions that a host reaches from `origin` by actions that are allowed. -/
inductive Reaches (allows : Session → Action → Prop) (origin : Session) : Session → Prop where
  | start : Reaches allows origin origin
  | act {session next : Session} {fuel : Nat} {action : Action} {result : Except Error Report}
      (earlier : Reaches allows origin session) (allowed : allows session action)
      (acts : session.act fuel action = some (result, next)) : Reaches allows origin next

/-- A host reaches `session` from `origin`. -/
def Reachable (origin session : Session) : Prop :=
  Reaches (fun _ _ => True) origin session

/-- Whether an action takes a step. A run takes none when the limit has been reached before. -/
def takesStep (session : Session) : Action → Bool
  | .step => true
  | .run | .runWith _ => session.reachedLimit?.isNone
  | .provide _ => false

/-- A host reaches `session` from `origin` without a step. -/
def Idles (origin session : Session) : Prop :=
  Reaches (fun session action => session.takesStep action = false) origin session

/-- An action is a step, a line that is taken or refused, or a run. -/
theorem act_cases {session next : Session} {fuel : Nat} {action : Action}
    {result : Except Error Report} (acts : session.act fuel action = some (result, next)) :
    (action = .step ∧ next = session.step.2) ∨
    (∃ line, action = .provide line ∧ (session.provide line = .ok next ∨ next = session)) ∨
    (session.takesStep action = session.reachedLimit?.isNone ∧ session.RunsTo next) := by
  cases action with
  | step =>
      cases acts
      exact .inl ⟨rfl, rfl⟩
  | run =>
      obtain ⟨⟨outcome, after⟩, runs, same⟩ := Option.map_eq_some_iff.mp acts
      cases same
      exact .inr (.inr ⟨rfl, RunsTo.run runs⟩)
  | provide line =>
      rw [act] at acts
      split at acts
      · rename_i provided provides
        cases acts
        exact .inr (.inl ⟨line, rfl, .inl provides⟩)
      · cases acts
        exact .inr (.inl ⟨line, rfl, .inr rfl⟩)
  | runWith source =>
      obtain ⟨⟨outcome, count, after⟩, runs, same⟩ := Option.map_eq_some_iff.mp acts
      cases same
      exact .inr (.inr ⟨rfl, RunsTo.runWith runs⟩)

/-- What steps, lines and the log preserve. -/
structure Preserved (holds : Session → Prop) : Prop where
  step {session : Session} : holds session → holds session.step.2
  provide {session provided : Session} {line : Text} :
    session.provide line = .ok provided → holds session → holds provided
  log {session : Session} (line : Text) : holds session → holds (session.log line)

namespace Preserved

variable {holds : Session → Prop}

theorem round (preserved : Preserved holds) {session later : Session} {round : Round}
    (turn : session.round = (round, later)) (before : holds session) : holds later := by
  rcases round_cases turn with ⟨limit, -, -, rfl⟩ | ⟨-, -, rfl⟩
  · exact preserved.log _ before
  · exact preserved.step before

theorem carries (preserved : Preserved holds) : Carries holds holds where
  running turn before := preserved.round turn before
  stopping turn _ before := preserved.round turn before
  resuming turn provides before := preserved.provide provides (preserved.round turn before)

/-- What is preserved holds of every session that a host reaches. -/
theorem of_reachable (preserved : Preserved holds) {origin session : Session}
    (reachable : origin.Reachable session) (atStart : holds origin) : holds session := by
  induction reachable with
  | start => exact atStart
  | @act session next fuel action result earlier allowed acts ih =>
      rcases act_cases acts with ⟨-, rfl⟩ | ⟨line, -, provides | rfl⟩ | ⟨-, runs⟩
      · exact preserved.step ih
      · exact preserved.provide provides ih
      · exact ih
      · exact runs preserved.carries ih

end Preserved

end Session

end Splice
