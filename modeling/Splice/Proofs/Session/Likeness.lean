import Splice.Proofs.Session.Account
import Splice.Proofs.Session.Driver
import Splice.Proofs.Session.Stage

/-!
# Sessions alike

Two sessions that differ in what they log, in how they write hollow literals and in where they
stop go through the same steps, provided that their sinks answer them in the same way. The texts
that they print may differ then. How much, is told by a function that blurs texts: a sink that
goes by blurred texts cannot tell the two sessions apart, and the printed texts are the same once
they are blurred. Blurring nothing is one case, and blurring every text to the same one is another.
-/

namespace Splice

/-! ## Sinks and outlets -/

/-- A sink that goes by blurred texts: what it says to a text is what it says to one that looks
the same, after texts that look the same. -/
def Sink.GoesBy (blur : Text → Text) (sink : Sink) : Prop :=
  ∀ {earlier earlier' : List Text} {text text' : Text},
    earlier'.map blur = earlier.map blur → blur text' = blur text →
      sink.verdict earlier' text' = sink.verdict earlier text

theorem Sink.goesBy_id (sink : Sink) : sink.GoesBy id := by
  intro earlier earlier' text text' before same
  rw [List.map_id, List.map_id] at before
  have same : text' = text := same
  rw [before, same]

/-- Two outlets on the same sink, which cannot tell them apart. -/
structure Outlet.Alike (blur : Text → Text) (outlet other : Outlet) : Prop where
  sink : other.sink = outlet.sink
  goesBy : outlet.sink.GoesBy blur
  offered : other.offered.map blur = outlet.offered.map blur
  prints : other.prints.map blur = outlet.prints.map blur

namespace Outlet

theorem prints_offer_eq (outlet : Outlet) (text : Text) :
    (outlet.offer text).2.prints = outlet.prints ++ outlet.taken text := by
  have printed : ((outlet.taken text).map Emission.print).filterMap Emission.print? =
      outlet.taken text := by
    rw [List.filterMap_map]
    exact List.filterMap_some
  rw [prints, emissions_offer, List.filterMap_append, printed]
  rfl

theorem offer_fst (outlet : Outlet) (text : Text) :
    (outlet.offer text).1 = outlet.sink.verdict outlet.offered text := by
  unfold offer
  dsimp only
  split
  · rename_i refused
    exact refused.symm
  · rename_i accepted
    exact accepted.symm

namespace Alike

variable {blur : Text → Text} {outlet other : Outlet}

theorem trans {third : Outlet} (alike : outlet.Alike blur other)
    (later : other.Alike blur third) : outlet.Alike blur third where
  sink := later.sink.trans alike.sink
  goesBy := alike.goesBy
  offered := later.offered.trans alike.offered
  prints := later.prints.trans alike.prints

theorem silent (alike : outlet.Alike blur other) {outlet' other' : Outlet}
    (quiet : outlet.Silent outlet') (quiet' : other.Silent other') : outlet'.Alike blur other' where
  sink := by rw [quiet'.sink, quiet.sink, alike.sink]
  goesBy := by
    rw [quiet.sink]
    exact alike.goesBy
  offered := by rw [quiet'.offered, quiet.offered, alike.offered]
  prints := by rw [quiet'.prints, quiet.prints, alike.prints]

/-- Texts that look the same are answered in the same way. -/
theorem offer (alike : outlet.Alike blur other) {text text' : Text}
    (same : blur text' = blur text) :
    (other.offer text').1 = (outlet.offer text).1 ∧
      (outlet.offer text).2.Alike blur (other.offer text').2 := by
  have verdict : other.sink.verdict other.offered text' =
      outlet.sink.verdict outlet.offered text := by
    rw [alike.sink]
    exact alike.goesBy alike.offered same
  have taken : (other.taken text').map blur = (outlet.taken text).map blur := by
    unfold Outlet.taken
    rw [verdict]
    split
    · simp [same]
    · rfl
  refine ⟨by rw [offer_fst, offer_fst, verdict], ?_, ?_, ?_, ?_⟩
  · rw [sink_offer, sink_offer, alike.sink]
  · rw [sink_offer]
    exact alike.goesBy
  · rw [offered_offer, offered_offer, List.map_cons, List.map_cons, same, alike.offered]
  · rw [prints_offer_eq, prints_offer_eq, List.map_append, List.map_append, alike.prints, taken]

end Alike

end Outlet

/-! ## Steps -/

namespace Session

/-- How a step ends that has got its reply. -/
def finish : Reply × Session → Except Error StepResult × Session
  | (.unchanged, after) => (.ok .converged, after)
  | (.awaiting, after) => (.ok .awaiting, { after with awaiting := true })
  | (.changed next, after) =>
      (.ok .changed, { after with program := next, steps := after.steps + 1 })
  | (.failed error, after) => (.error error, after)

theorem step_eq_finish {session : Session} (ready : session.awaiting = false) :
    session.step =
      finish (session.announce.conclude (Sequence.reduce session.scope session.program)) := by
  rw [step_eq_reduce session ready, reduce_announce]
  rcases session.announce.conclude _ with ⟨_ | _ | next | error, after⟩ <;> rfl

/-- Two sessions that take the same steps. Their settings agree on the strategy, and what they
print looks the same to their sink. -/
structure Alike (blur : Text → Text) (session other : Session) : Prop where
  program : other.program = session.program
  macros : other.macros = session.macros
  pending : other.pending = session.pending
  awaiting : other.awaiting = session.awaiting
  steps : other.steps = session.steps
  strategy : other.settings.strategy = session.settings.strategy
  output : ∀ args, blur (Sequence.output other.settings.hollow args) =
    blur (Sequence.output session.settings.hollow args)
  outlet : session.outlet.Alike blur other.outlet

namespace Alike

variable {blur : Text → Text} {session other : Session}

theorem refl (session : Session) : session.Alike id session :=
  ⟨rfl, rfl, rfl, rfl, rfl, rfl, fun _ => rfl, ⟨rfl, session.outlet.sink.goesBy_id, rfl, rfl⟩⟩

theorem trans {third : Session} (alike : session.Alike blur other)
    (later : other.Alike blur third) : session.Alike blur third where
  program := later.program.trans alike.program
  macros := later.macros.trans alike.macros
  pending := later.pending.trans alike.pending
  awaiting := later.awaiting.trans alike.awaiting
  steps := later.steps.trans alike.steps
  strategy := later.strategy.trans alike.strategy
  output args := (later.output args).trans (alike.output args)
  outlet := alike.outlet.trans later.outlet

theorem silent (alike : session.Alike blur other) {later later' : Session}
    (quiet : session.Silent later) (quiet' : other.Silent later') : later.Alike blur later' := by
  obtain ⟨outlet, rfl, same⟩ := quiet
  obtain ⟨outlet', rfl, same'⟩ := quiet'
  exact { alike with outlet := alike.outlet.silent same same' }

theorem scope_eq (alike : session.Alike blur other) : other.scope = session.scope := by
  rw [scope, scope, alike.strategy, alike.macros, alike.pending]

/-- The same event happens to both sessions, and the sink says the same to it. -/
theorem perform (alike : session.Alike blur other) (event : Event) :
    (other.perform event).1 = (session.perform event).1 ∧
      (session.perform event).2.Alike blur (other.perform event).2 := by
  have reported := alike.silent (.report session event) (.report other event)
  cases event with
  | defined name body =>
      exact ⟨rfl, { reported with macros := congrArg (·.insert name body) reported.macros }⟩
  | received line => exact ⟨rfl, { reported with pending := rfl }⟩
  | printed args =>
      obtain ⟨answer, later⟩ := reported.outlet.offer (reported.output args)
      exact ⟨congrArg (Option.map Error.host) answer, { reported with outlet := later }⟩
  | expanded name => exact ⟨rfl, reported⟩
  | expandedUnder param => exact ⟨rfl, reported⟩
  | substituted param args => exact ⟨rfl, reported⟩

theorem settle (alike : session.Alike blur other) (event : Event) (reply : Reply) :
    (other.settle event reply).1 = (session.settle event reply).1 ∧
      (session.settle event reply).2.Alike blur (other.settle event reply).2 := by
  obtain ⟨answer, later⟩ := alike.perform event
  unfold Session.settle
  generalize session.perform event = performed at answer later ⊢
  generalize other.perform event = performed' at answer later ⊢
  obtain ⟨refusal, after⟩ := performed
  obtain ⟨refusal', after'⟩ := performed'
  cases answer
  cases refusal with
  | none => exact ⟨rfl, later⟩
  | some refusal => exact ⟨rfl, later⟩

theorem conclude (alike : session.Alike blur other) (outcome : Outcome) :
    (other.conclude outcome).1 = (session.conclude outcome).1 ∧
      (session.conclude outcome).2.Alike blur (other.conclude outcome).2 := by
  cases outcome with
  | stuck => exact ⟨rfl, alike⟩
  | awaiting => exact ⟨rfl, alike⟩
  | changed event next => exact alike.settle event (.changed next)
  | failed earlier error =>
      cases earlier with
      | none => exact ⟨rfl, alike⟩
      | some event => exact alike.settle event (.failed error)

theorem finish {replied replied' : Reply × Session} (alike : replied.2.Alike blur replied'.2)
    (same : replied'.1 = replied.1) :
    (Session.finish replied').1 = (Session.finish replied).1 ∧
      (Session.finish replied).2.Alike blur (Session.finish replied').2 := by
  obtain ⟨reply, after⟩ := replied
  obtain ⟨reply', after'⟩ := replied'
  cases same
  cases reply with
  | unchanged => exact ⟨rfl, alike⟩
  | awaiting => exact ⟨rfl, { alike with awaiting := rfl }⟩
  | changed next =>
      exact ⟨rfl, { alike with program := rfl, steps := congrArg (· + 1) alike.steps }⟩
  | failed error => exact ⟨rfl, alike⟩

/-- A step does the same to both sessions. -/
theorem step (alike : session.Alike blur other) :
    other.step.1 = session.step.1 ∧ session.step.2.Alike blur other.step.2 := by
  cases ready : session.awaiting with
  | true =>
      have waits : other.awaiting = true := alike.awaiting.trans ready
      rw [Session.step, if_pos waits, Session.step, if_pos ready]
      exact ⟨rfl, alike⟩
  | false =>
      have announced := alike.silent (.announce session) (.announce other)
      rw [step_eq_finish (alike.awaiting.trans ready), step_eq_finish ready, alike.scope_eq,
        alike.program]
      obtain ⟨reply, later⟩ :=
        announced.conclude (Sequence.reduce session.scope session.program)
      exact later.finish reply

end Alike

/-! ## Rounds -/

/-- Two sessions that take the same steps, with the limits that they have. -/
structure Paired (blur : Text → Text) (first second : Option Nat) (session other : Session) : Prop
    extends session.Alike blur other where
  limit : session.settings.maxSteps = first
  otherLimit : other.settings.maxSteps = second

namespace Paired

variable {blur : Text → Text} {first second : Option Nat} {session other : Session}

theorem new (program : List Term) (settings settings' : Settings) {sink : Sink}
    (goesBy : sink.GoesBy blur) (strategy : settings'.strategy = settings.strategy)
    (output : ∀ args, blur (Sequence.output settings'.hollow args) =
      blur (Sequence.output settings.hollow args)) :
    Paired blur settings.maxSteps settings'.maxSteps (new program settings sink)
      (new program settings' sink) where
  program := rfl
  macros := rfl
  pending := rfl
  awaiting := rfl
  steps := rfl
  strategy := strategy
  output := output
  outlet := ⟨rfl, goesBy, rfl, rfl⟩
  limit := rfl
  otherLimit := rfl

theorem step (paired : Paired blur first second session other) :
    other.step.1 = session.step.1 ∧ Paired blur first second session.step.2 other.step.2 := by
  obtain ⟨result, later⟩ := paired.toAlike.step
  refine ⟨result, later, ?_, ?_⟩
  · rw [session.step_settings_sink.1, paired.limit]
  · rw [other.step_settings_sink.1, paired.otherLimit]

theorem silent (paired : Paired blur first second session other) {later later' : Session}
    (quiet : session.Silent later) (quiet' : other.Silent later') :
    Paired blur first second later later' := by
  refine ⟨paired.toAlike.silent quiet quiet', ?_, ?_⟩
  · rw [quiet.alongside.settings, paired.limit]
  · rw [quiet'.alongside.settings, paired.otherLimit]

/-- A round is the same when neither session has reached its limit. -/
theorem round (paired : Paired blur first second session other)
    (free : session.reachedLimit? = none) (otherFree : other.reachedLimit? = none) :
    session.round.1 = other.round.1 ∧
      Paired blur first second session.round.2 other.round.2 := by
  obtain ⟨same, later⟩ := paired.step
  rw [Session.round, Session.round, free, otherFree]
  dsimp only
  generalize session.step = stepped at same later
  generalize other.step = stepped' at same later
  obtain ⟨result, after⟩ := stepped
  obtain ⟨result', after'⟩ := stepped'
  cases same
  rcases result with error | (_ | _ | _)
  · exact ⟨rfl, later⟩
  · exact ⟨rfl, later⟩
  · exact ⟨rfl, later⟩
  · exact ⟨rfl, later⟩

theorem provide (paired : Paired blur first second session other) (line : Text) :
    (session.provide line = .error .inputRejected ∧ other.provide line = .error .inputRejected) ∨
    ∃ provided provided', session.provide line = .ok provided ∧
      other.provide line = .ok provided' ∧ Paired blur first second provided provided' := by
  unfold Session.provide
  rw [paired.awaiting]
  split
  · exact .inr ⟨_, _, rfl, rfl, { paired with awaiting := rfl, pending := rfl }⟩
  · exact .inl ⟨rfl, rfl⟩

theorem accept (paired : Paired blur first second session other) (reading : Reading) :
    (∃ error, session.accept reading = .error error ∧ other.accept reading = .error error) ∨
    ∃ provided provided', session.accept reading = .ok provided ∧
      other.accept reading = .ok provided' ∧ Paired blur first second provided provided' := by
  cases reading with
  | line text => exact (paired.provide text).imp_left fun refused => ⟨_, refused⟩
  | closed => exact .inl ⟨_, rfl, rfl⟩
  | failed fault => exact .inl ⟨_, rfl, rfl⟩

end Paired

end Session

end Splice
