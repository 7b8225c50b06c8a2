import Splice.Proofs.Session.Likeness

/-!
# Settings that make no difference

Neither the log nor the way in which hollow literals are written has an influence on a session.
A host that does the same things with two sessions sees the same results, programs, macros, counts
and demands for a line after each of them, and as many written texts.
-/

namespace Splice

namespace Session

/-! ## Runs -/

namespace Paired

variable {blur : Text → Text} {limit : Option Nat} {session other : Session}

theorem reachedLimit?_eq (paired : Paired blur limit limit session other) :
    other.reachedLimit? = session.reachedLimit? := by
  rw [reachedLimit?, reachedLimit?, paired.limit, paired.otherLimit, paired.steps]

theorem simulates : Driver.Simulates (Paired blur limit limit) driver driver where
  round := by
    intro session other paired
    cases reached : session.reachedLimit? with
    | none => exact paired.round reached (paired.reachedLimit?_eq.trans reached)
    | some limit =>
        dsimp only [driver]
        rw [Session.round, Session.round, paired.reachedLimit?_eq, reached]
        exact ⟨rfl, paired.silent (.log session _) (.log other _)⟩
  accept := accept

/-- Two sessions have come to the same, or both go on. -/
def Finish {Answer : Type} (blur : Text → Text) (limit : Option Nat) :
    Option (Answer × Session) → Option (Answer × Session) → Prop :=
  Option.Rel fun ours theirs => ours.1 = theirs.1 ∧ Paired blur limit limit ours.2 theirs.2

theorem Finish.map {Answer Other : Type} {ours theirs : Option (Answer × Session)}
    (finish : Finish blur limit ours theirs) (change : Answer → Other) :
    Finish blur limit (ours.map fun (answer, later) => (change answer, later))
      (theirs.map fun (answer, later) => (change answer, later)) := by
  cases finish with
  | none => exact .none
  | some both => exact .some ⟨congrArg change both.1, both.2⟩

theorem run (paired : Paired blur limit limit session other) (fuel : Nat) :
    Finish blur limit (session.run fuel) (other.run fuel) := by
  induction fuel generalizing session other with
  | zero => exact .none
  | succ fuel ih =>
      obtain ⟨same, later⟩ := simulates.round paired
      dsimp only [driver] at same later
      rw [Session.run, Session.run]
      generalize session.round = turned at same later
      generalize other.round = turned' at same later
      obtain ⟨round, after⟩ := turned
      obtain ⟨round', after'⟩ := turned'
      cases same
      cases round with
      | running => exact ih later
      | halted status => exact .some ⟨by rw [later.steps], later⟩
      | failed error => exact .some ⟨rfl, later⟩

theorem runWith (paired : Paired blur limit limit session other) (source : LineSource)
    (fuel used : Nat) :
    Finish blur limit
      ((session.runWith source fuel used).map fun (result, _, later) => (result, later))
      ((other.runWith source fuel used).map fun (result, _, later) => (result, later)) := by
  have together := simulates.after paired source fuel used
  rw [runWith_eq_after, runWith_eq_after]
  generalize driver.after source fuel used session = place at together
  generalize driver.after source fuel used other = place' at together
  cases together with
  | going used here => exact .none
  | done result used here =>
      exact .some ⟨congrArg (fun steps => result.map (RunSummary.mk · steps)) here.steps.symm, here⟩

/-- An action leads to the same result, or to none, with both sessions. -/
theorem act (paired : Paired blur limit limit session other) (fuel : Nat) (action : Action) :
    Finish blur limit (session.act fuel action) (other.act fuel action) := by
  cases action with
  | step =>
      obtain ⟨result, later⟩ := paired.step
      exact .some ⟨congrArg (Except.map Report.stepped) result.symm, later⟩
  | run => exact (paired.run fuel).map (Except.map Report.ran)
  | provide line =>
      rw [Session.act, Session.act]
      rcases paired.provide line with ⟨refused, refused'⟩ | ⟨_, _, taken, taken', later⟩
      · rw [refused, refused']
        exact .some ⟨rfl, paired⟩
      · rw [taken, taken']
        exact .some ⟨rfl, later⟩
  | runWith source =>
      have finish := (paired.runWith source fuel 0).map (Except.map Report.ran)
      rw [Option.map_map, Option.map_map] at finish
      exact finish

end Paired

/-! ## Histories -/

/-- What a host sees of an action. -/
structure Sighting where
  result : Except Error Report
  program : List Term
  macros : MacroTable
  steps : Nat
  awaiting : Bool
  /-- The texts that were written while the action went on. -/
  writes : List Text

namespace Sighting

/-- A sighting without the words of the texts. -/
def outline (sighting : Sighting) :
    Except Error Report × List Term × MacroTable × Nat × Bool × Nat :=
  (sighting.result, sighting.program, sighting.macros, sighting.steps, sighting.awaiting,
    sighting.writes.length)

/-- A sighting with blurred texts. -/
def blurred (blur : Text → Text) (sighting : Sighting) : Sighting :=
  { sighting with writes := sighting.writes.map blur }

theorem blurred_id : blurred id = id := by
  funext sighting
  simp [blurred]

theorem outline_blurred (blur : Text → Text) (sighting : Sighting) :
    (sighting.blurred blur).outline = sighting.outline := by
  simp [blurred, outline]

end Sighting

/-- What a host sees of an action that leads from one session to another. -/
def sight (earlier : Session) (result : Except Error Report) (later : Session) : Sighting where
  result := result
  program := later.program
  macros := later.macros
  steps := later.steps
  awaiting := later.awaiting
  writes := later.outlet.prints.drop earlier.outlet.prints.length

/-- What a host sees that performs actions one after the other, each with the same fuel for a run.
A run for which the fuel is not enough is the last action, and nothing is seen of it. -/
def history (fuel : Nat) : List Action → Session → List Sighting
  | [], _ => []
  | action :: actions, session =>
      match session.act fuel action with
      | some (result, later) => session.sight result later :: history fuel actions later
      | none => []

section History

variable {blur : Text → Text} {limit : Option Nat} {session other : Session}

theorem Paired.blurred_sight (paired : Paired blur limit limit session other)
    {later later' : Session} (after : Paired blur limit limit later later')
    (result : Except Error Report) :
    (session.sight result later).blurred blur = (other.sight result later').blurred blur := by
  have counted : other.outlet.prints.length = session.outlet.prints.length := by
    simpa using congrArg List.length paired.outlet.prints
  simp only [sight, Sighting.blurred, List.map_drop, counted, after.program, after.macros,
    after.steps, after.awaiting, after.outlet.prints]

/-- Both sessions have the same history, as far as the blurred texts tell. -/
theorem Paired.history_eq (paired : Paired blur limit limit session other) (fuel : Nat)
    (actions : List Action) :
    (session.history fuel actions).map (Sighting.blurred blur) =
      (other.history fuel actions).map (Sighting.blurred blur) := by
  induction actions generalizing session other with
  | nil => rfl
  | cons action actions ih =>
      have finish := paired.act fuel action
      rw [history, history]
      generalize session.act fuel action = acted at finish
      generalize other.act fuel action = acted' at finish
      cases finish with
      | none => rfl
      | @some ours theirs both =>
          obtain ⟨result, later⟩ := ours
          obtain ⟨result', later'⟩ := theirs
          obtain ⟨rfl, after⟩ := both
          rw [List.map_cons, List.map_cons, paired.blurred_sight after result, ih after]

end History

end Session

/-- A sink that counts the texts that it is offered and does not read them: what it says to a text
depends on how many texts it has been offered before. -/
def Sink.Indifferent (sink : Sink) : Prop :=
  ∀ earlier earlier' text text', earlier'.length = earlier.length →
    sink.verdict earlier' text' = sink.verdict earlier text

theorem Sink.Indifferent.goesBy {sink : Sink} (indifferent : sink.Indifferent) :
    sink.GoesBy fun _ => [] := by
  intro earlier earlier' text text' before _
  have count : earlier'.length = earlier.length := by simpa using congrArg List.length before
  exact indifferent earlier earlier' text text' count

theorem Sink.indifferent_closingAfter (count : Nat) (fault : HostFault) :
    (Sink.closingAfter count fault).Indifferent := by
  intro earlier earlier' text text' same
  simp only [closingAfter, same]

namespace Session

/-- Whatever a host does, it makes no difference to what it sees whether the log is on. If the sink
does not read the texts, it makes none how hollow literals are written either, but for the words of
the texts. -/
theorem history_indifferent (program : List Term) (settings : Settings) (sink : Sink)
    (debug trace : Bool) (fuel : Nat) (actions : List Action) :
    (sink.Indifferent → ∀ hollow,
      ((new program settings sink).history fuel actions).map Sighting.outline =
        ((new program { settings with debug := debug, trace := trace, hollow := hollow }
          sink).history fuel actions).map Sighting.outline) ∧
    (new program settings sink).history fuel actions =
      (new program { settings with debug := debug, trace := trace } sink).history fuel actions := by
  constructor
  · intro indifferent hollow
    have paired := Paired.new program settings
      { settings with debug := debug, trace := trace, hollow := hollow }
      indifferent.goesBy rfl fun _ => rfl
    have seen := congrArg (List.map Sighting.outline) (paired.history_eq fuel actions)
    simpa only [List.map_map, Function.comp_def, Sighting.outline_blurred] using seen
  · have paired := Paired.new program settings { settings with debug := debug, trace := trace }
      sink.goesBy_id rfl fun _ => rfl
    have seen := paired.history_eq fuel actions
    rwa [Sighting.blurred_id, List.map_id, List.map_id] at seen

/-- The sink takes one text and refuses the other one. The first text is empty in one session and
a space in the other, and the sessions go on in the same way. -/
theorem history_indifferent_of_closing_sink :
    let sink := Sink.closingAfter 1 (.device "broken pipe".toList)
    let program : List Term :=
      [.app (.name Word.print) [.literal "Poop".toList],
        .app (.name Word.print) [.name Word.input]]
    let actions : List Action :=
      [.step, .provide "A".toList, .runWith (.ofList ["PoHiop".toList] .closed), .run]
    let plain := (new program {} sink).history 9 actions
    let loud := (new program { debug := true, trace := true, hollow := .space } sink).history 9
      actions
    sink.Indifferent ∧ plain.length = 4 ∧
      plain.map Sighting.writes = [[[]], [], [], []] ∧
      loud.map Sighting.writes = [[[' ']], [], [], []] ∧
      plain.map Sighting.outline = loud.map Sighting.outline := by
  intro sink program actions plain loud
  have indifferent := Sink.indifferent_closingAfter 1 (.device "broken pipe".toList)
  have same := (history_indifferent program {} sink true true 9 actions).1 indifferent .space
  exact ⟨indifferent, by decide +kernel, by decide +kernel, by decide +kernel, same⟩

end Session

end Splice
