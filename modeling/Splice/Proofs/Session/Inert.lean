import Splice.Proofs.Reduction.Lookup
import Splice.Proofs.Session.Limit
import Splice.Proofs.Session.Provenance

/-!
# Definitions that make no difference

A macro whose name stands nowhere in a program, nor in the lines that it is given, is never looked
up: reduction makes no names but those with a space. So a program with the definition of such a
macro in front of it goes through the same steps as the program alone, once the macro is defined.
-/

namespace Splice

/-- A name that is neither used nor defined in a sequence. It may be a parameter. -/
def Sequence.Spares (name : Text) (terms : List Term) : Prop :=
  (.name, name) ∉ occurrences terms ∧ (.definition, name) ∉ occurrences terms

instance (name : Text) (terms : List Term) : Decidable (Sequence.Spares name terms) :=
  inferInstanceAs (Decidable (_ ∧ _))

/-- A text in its place that does not use or define a name. -/
def Role.Spares (name : Text) (role : Role) (text : Text) : Prop :=
  role = .name ∨ role = .definition → text ≠ name

section Spares

variable {name : Text}

theorem Sequence.every_of_spares {terms : List Term} (spares : Sequence.Spares name terms) :
    Sequence.Every (Role.Spares name) terms := by
  rintro role text member (rfl | rfl) rfl
  · exact spares.1 member
  · exact spares.2 member

theorem admitsSpaced_spares (spaceless : ' ' ∉ name) : AdmitsSpaced (Role.Spares name) := by
  rintro text space - rfl
  exact spaceless space

theorem MacroTable.Every.contains_eq_false {macros : MacroTable}
    (every : macros.Every (Role.Spares name)) : macros.contains name = false := by
  rw [MacroTable.contains_eq_false_iff]
  intro body member
  exact (every _ member).1 (.inr rfl) rfl

/-- A new macro is not noticed where its name is spared. -/
theorem MacroTable.agreesAt_insert {macros : MacroTable} (fresh : macros.contains name = false)
    (body : List Term) {role : Role} {text : Text} (spares : role.Spares name text) :
    macros.AgreesAt (macros.insert name body) role text := by
  intro lookedUp
  rw [MacroTable.find?_insert fresh, if_neg (spares lookedUp)]

end Spares

namespace Session

/-- The same session with one more macro, one more step behind it and one more step allowed. -/
def extended (session : Session) (name : Text) (body : List Term) : Session :=
  { session with
    macros := session.macros.insert name body
    steps := session.steps + 1
    settings := { session.settings with maxSteps := session.settings.maxSteps.map (· + 1) } }

/-! ## Steps -/

section Extended

variable {session : Session} {name : Text} (body : List Term)

theorem perform_extended (fresh : session.macros.contains name = false) {event : Event}
    (others : ∀ text content, event = .defined text content →
      text ≠ name ∧ session.macros.contains text = false) :
    (session.extended name body).perform event =
      ((session.perform event).1, (session.perform event).2.extended name body) := by
  have reported : (session.extended name body).report event =
      (session.report event).extended name body := by
    have same : (session.extended name body).settings.debug = session.settings.debug := rfl
    unfold report
    rw [same]
    split
    · rfl
    · rfl
  unfold perform
  rw [reported]
  cases event with
  | defined text content =>
      obtain ⟨differ, unknown⟩ := others text content rfl
      have order := MacroTable.insert_comm differ unknown fresh content body
      obtain ⟨outlet, silent, -⟩ := Silent.report session (.defined text content)
      rw [silent]
      simp only [extended, order]
  | received line => rfl
  | printed args => rfl
  | expanded text => rfl
  | expandedUnder param => rfl
  | substituted param args => rfl

theorem conclude_extended (fresh : session.macros.contains name = false) {outcome : Outcome}
    (others : ∀ text content, outcome.event? = some (.defined text content) →
      text ≠ name ∧ session.macros.contains text = false) :
    (session.extended name body).conclude outcome =
      ((session.conclude outcome).1, (session.conclude outcome).2.extended name body) := by
  refine conclude_of_perform (·.extended name body) ?_
  intro event happens
  apply perform_extended body fresh
  rintro text content rfl
  exact others text content happens

theorem finish_extended (reply : Reply) (after : Session) :
    finish (reply, after.extended name body) =
      ((finish (reply, after)).1, (finish (reply, after)).2.extended name body) := by
  cases reply <;> rfl

/-- With one more macro whose name is spared, a step does the same. -/
theorem step_extended (upholds : session.Upholds (Role.Spares name)) :
    (session.extended name body).step.1 = session.step.1 ∧
      Alike id (session.step.2.extended name body) (session.extended name body).step.2 := by
  have fresh := upholds.macros.contains_eq_false
  cases ready : session.awaiting with
  | true =>
      have waits : (session.extended name body).awaiting = true := ready
      rw [step, if_pos waits, step, if_pos ready]
      exact ⟨rfl, .refl _⟩
  | false =>
      -- The two announcements differ in the number of the step, and nothing else does.
      have announced : Alike id (session.announce.extended name body)
          (session.extended name body).announce := by
        refine (Alike.refl (session.extended name body)).silent ?_ (.announce _)
        obtain ⟨outlet, same, silent⟩ := Silent.announce session
        rw [same]
        exact ⟨outlet, rfl, silent⟩
      have reduces : Sequence.reduce (session.extended name body).scope
          (session.extended name body).program =
            Sequence.reduce session.scope session.program := by
        have known : (session.extended name body).scope =
            session.scope.knowing (session.macros.insert name body) := rfl
        rw [known]
        apply Sequence.reduce_congr
        intro role text member
        exact MacroTable.agreesAt_insert fresh body (upholds.program role text member)
      have others : ∀ text content,
          (Sequence.reduce session.scope session.program).event? = some (.defined text content) →
            text ≠ name ∧ session.announce.macros.contains text = false := by
        intro text content happens
        obtain ⟨named, -⟩ := Sequence.every_of_defined happens upholds.program
        have unknown : session.macros.contains text = false := Sequence.allowed_of_event happens
        rw [(Silent.announce session).intact.macros]
        exact ⟨named (.inr rfl), unknown⟩
      obtain ⟨reply, later⟩ :=
        announced.conclude (Sequence.reduce session.scope session.program)
      rw [← (Silent.announce session).intact.macros] at fresh
      rw [conclude_extended body fresh others] at reply later
      have idle : (session.extended name body).awaiting = false := ready
      rw [step_eq_finish idle, step_eq_finish ready, reduces]
      obtain ⟨result, last⟩ := later.finish reply
      rw [finish_extended] at result last
      exact ⟨result, last⟩

end Extended

/-! ## Rounds and lines -/

/-- One session follows another one: it does the same with one more macro, whose name is spared. -/
structure Follows (name : Text) (body : List Term) (session other : Session) : Prop where
  upholds : session.Upholds (Role.Spares name)
  alike : (session.extended name body).Alike id other
  limit : other.settings.maxSteps = session.settings.maxSteps.map (· + 1)

namespace Follows

variable {name : Text} {body : List Term} {session other : Session}

theorem silent (follows : session.Follows name body other) {later later' : Session}
    (quiet : session.Silent later) (quiet' : other.Silent later') :
    later.Follows name body later' where
  upholds := follows.upholds.silent quiet
  alike := by
    obtain ⟨outlet, rfl, same⟩ := quiet
    exact follows.alike.silent ⟨outlet, rfl, same⟩ quiet'
  limit := by rw [quiet.alongside.settings, quiet'.alongside.settings, follows.limit]

theorem step (spaceless : ' ' ∉ name) (follows : session.Follows name body other) :
    session.step.1 = other.step.1 ∧ session.step.2.Follows name body other.step.2 := by
  obtain ⟨result, later⟩ := step_extended body follows.upholds
  obtain ⟨result', later'⟩ := follows.alike.step
  refine ⟨(result'.trans result).symm, ?_, later.trans later', ?_⟩
  · exact follows.upholds.step (admitsSpaced_spares spaceless)
  · rw [session.step_settings_sink.1, other.step_settings_sink.1, follows.limit]

theorem reachedLimit?_eq (follows : session.Follows name body other) :
    other.reachedLimit? = session.reachedLimit?.map (· + 1) := by
  have counted : other.steps = session.steps + 1 := follows.alike.steps
  rw [reachedLimit?, reachedLimit?, follows.limit, counted]
  cases session.settings.maxSteps with
  | none => rfl
  | some limit => by_cases reached : limit ≤ session.steps <;> simp [Option.filter, reached]

theorem round (spaceless : ' ' ∉ name) (follows : session.Follows name body other) :
    session.round.1 = other.round.1 ∧ session.round.2.Follows name body other.round.2 := by
  have reaches := follows.reachedLimit?_eq
  cases reached : session.reachedLimit? with
  | some limit =>
      rw [reached] at reaches
      rw [Session.round, Session.round, reached, reaches]
      exact ⟨rfl, follows.silent (.log session _) (.log other _)⟩
  | none =>
      rw [reached] at reaches
      have turn : session.round = (.ofStep session.step.1, session.step.2) := round_of_free reached
      have turn' : other.round = (.ofStep other.step.1, other.step.2) := round_of_free reaches
      obtain ⟨result, later⟩ := follows.step spaceless
      rw [turn, turn', result]
      exact ⟨rfl, later⟩

theorem accept (follows : session.Follows name body other) {reading : Reading}
    (brings : ∀ line terms, reading = .line line →
      Sequence.parse Scope.lineName line = .ok terms → Sequence.Every (Role.Spares name) terms) :
    Driver.TakenAlike (Follows name body) driver driver session other reading := by
  cases reading with
  | closed => exact .inl ⟨_, rfl, rfl⟩
  | failed fault => exact .inl ⟨_, rfl, rfl⟩
  | line text =>
      have waits : other.awaiting = session.awaiting := follows.alike.awaiting
      dsimp only [Driver.TakenAlike, driver, Session.accept]
      cases ready : session.awaiting with
      | false =>
          rw [ready] at waits
          rw [provide, ready, provide, waits]
          exact .inl ⟨_, rfl, rfl⟩
      | true =>
          rw [ready] at waits
          have takes : session.provide text =
              .ok { session with awaiting := false, pending := some text } :=
            provide_eq_ok_iff.mpr ⟨ready, rfl⟩
          have takes' : other.provide text =
              .ok { other with awaiting := false, pending := some text } :=
            provide_eq_ok_iff.mpr ⟨waits, rfl⟩
          refine .inr ⟨_, _, takes, takes', ?_⟩
          exact
            { upholds := follows.upholds.provide takes fun terms => brings text terms rfl
              alike := { follows.alike with awaiting := rfl, pending := rfl }
              limit := follows.limit }

/-- A supply whose lines spare the name keeps the sessions in step. -/
theorem simulates {source : LineSource} (spaceless : ' ' ∉ name)
    (unsupplied : ∀ index line terms, source index = .line line →
      Sequence.parse Scope.lineName line = .ok terms → Sequence.Spares name terms) :
    Driver.SimulatesOn source (Follows name body) driver driver where
  round := round spaceless
  accept := by
    intro session other follows index
    apply follows.accept
    intro line terms given read
    exact Sequence.every_of_spares (unsupplied index line terms given read)

/-- A program with a definition in front of it defines the macro first, and is the program then. -/
theorem of_definition {program : List Term} (body : List Term) (settings : Settings)
    (limit : Option Nat) (sink : Sink) (spares : Sequence.Spares name program) :
    let burdened := new (.define name body :: program)
      { settings with maxSteps := limit.map (· + 1) } sink
    burdened.step.1 = .ok .changed ∧
      Follows name body (new program { settings with maxSteps := limit } sink)
        burdened.step.2 := by
  intro burdened
  obtain ⟨outlet, reported, silent⟩ := (Silent.announce burdened).trans
    (.report burdened.announce (.defined name body))
  have outcome : Sequence.reduce burdened.scope burdened.program =
      .changed (.defined name body) program := rfl
  have performed : burdened.announce.perform (.defined name body) =
      (none, { burdened with outlet := outlet, macros := MacroTable.empty.insert name body }) := by
    rw [perform, reported]
    rfl
  rw [step_eq_finish rfl, outcome, conclude, settle, performed]
  refine ⟨rfl, ?_⟩
  exact
    { upholds := .new (Sequence.every_of_spares spares) _ sink
      alike := ⟨rfl, rfl, rfl, rfl, rfl, rfl, fun _ => rfl,
        silent.sink, sink.goesBy_id, congrArg _ silent.offered, congrArg _ silent.prints⟩
      limit := rfl }

end Follows

/-! ## Runs -/

/-- One session has come to the same as another one, with one more macro after one more step. -/
structure Extends (name : Text) (body : List Term) (session other : Session) : Prop where
  program : other.program = session.program
  fresh : session.macros.contains name = false
  macros : other.macros = session.macros.insert name body
  steps : other.steps = session.steps + 1
  pending : other.pending = session.pending
  awaiting : other.awaiting = session.awaiting
  prints : other.outlet.prints = session.outlet.prints
  offered : other.outlet.offered = session.outlet.offered

theorem Follows.toExtends {name : Text} {body : List Term} {session other : Session}
    (follows : session.Follows name body other) : session.Extends name body other where
  program := follows.alike.program
  fresh := follows.upholds.macros.contains_eq_false
  macros := follows.alike.macros
  steps := follows.alike.steps
  pending := follows.alike.pending
  awaiting := follows.alike.awaiting
  prints := by simpa [extended] using follows.alike.outlet.prints
  offered := by simpa [extended] using follows.alike.outlet.offered

/-- A definition of a macro whose name stands nowhere in a program, nor in the lines that it is
given, costs one step in front of the program and makes no other difference, whatever the strategy
and whatever the sink says. Turn by turn the program goes through the same steps, with the same
prints on the same lines, and it ends in the same way with one more macro. -/
theorem unused_definition_inert {program : List Term} {name : Text} {source : LineSource}
    (body : List Term) (settings : Settings) (limit : Option Nat) (sink : Sink)
    (spaceless : ' ' ∉ name) (unused : Sequence.Spares name program)
    (unsupplied : ∀ index line terms, source index = .line line →
      Sequence.parse Scope.lineName line = .ok terms → Sequence.Spares name terms) :
    let plain := new program { settings with maxSteps := limit } sink
    let burdened := new (.define name body :: program)
      { settings with maxSteps := limit.map (· + 1) } sink
    burdened.step.1 = .ok .changed ∧
    (∀ turns, Driver.Together (Extends name body) (driver.after source turns 0 plain)
      (driver.after source (turns + 1) 0 burdened)) ∧
    ∀ fuel, Option.Rel
      (fun (result, used, last) (result', used', last') =>
        result' = result.map (fun summary => { summary with steps := summary.steps + 1 }) ∧
          used' = used ∧ last.Extends name body last')
      (plain.runWith source fuel 0) (burdened.runWith source (fuel + 1) 0) := by
  intro plain burdened
  obtain ⟨changes, follows⟩ := Follows.of_definition body settings limit sink unused
  have lockstep : ∀ turns, Driver.Together (Extends name body)
      (driver.after source turns 0 plain) (driver.after source (turns + 1) 0 burdened) := by
    intro turns
    have free : burdened.reachedLimit? = none := by
      cases limit with
      | none => rfl
      | some limit => rfl
    rw [Driver.after, turn_of_changed free changes]
    exact ((Follows.simulates spaceless unsupplied).after follows turns 0).mono Follows.toExtends
  refine ⟨changes, lockstep, ?_⟩
  intro fuel
  have together := lockstep fuel
  rw [runWith_eq_after, runWith_eq_after]
  generalize driver.after source fuel 0 plain = place at together
  generalize driver.after source (fuel + 1) 0 burdened = place' at together
  cases together with
  | going used here => exact .none
  | done result used here =>
      refine .some ⟨?_, rfl, here⟩
      rw [here.steps]
      cases result with
      | error error => rfl
      | ok status => rfl

/-- A callee collapses into a name, a line brings the definition of another macro, and that macro
is printed. -/
theorem unused_definition_inert_beside_collapsed_callee :
    let name := "U".toList
    let program : List Term :=
      [.app (.lam "x".toList [.app (.name "x".toList) []]) [.name "a".toList, .name "b".toList],
        .name Word.input, .app (.name Word.print) [.name "A".toList]]
    let line := "poop A is PoHiop qooq".toList
    let source := LineSource.ofList [line] .closed
    let plain := new program { maxSteps := some 9 } .buffer
    let burdened := new (.define name [.name name] :: program) { maxSteps := some 10 } .buffer
    ' ' ∉ name ∧ Sequence.Spares name program ∧
      (∀ index line terms, source index = .line line →
        Sequence.parse Scope.lineName line = .ok terms → Sequence.Spares name terms) ∧
      (plain.runWith source 9 0).map (fun (_, used, last) =>
        (used, last.steps, last.outlet.prints)) = some (1, 5, ["Hi".toList]) ∧
      burdened.step.1 = .ok .changed ∧
      ∀ fuel, Option.Rel
        (fun (result, used, last) (result', used', last') =>
          result' = result.map (fun summary => { summary with steps := summary.steps + 1 }) ∧
            used' = used ∧ last.Extends name [.name name] last')
        (plain.runWith source fuel 0) (burdened.runWith source (fuel + 1) 0) := by
  intro name program line source plain burdened
  have spaceless : ' ' ∉ name := by decide
  have unused : Sequence.Spares name program := by decide
  have unsupplied : ∀ index line terms, source index = .line line →
      Sequence.parse Scope.lineName line = .ok terms → Sequence.Spares name terms := by
    rintro (_ | index) line terms given read
    · cases given
      have parsed : Sequence.parse Scope.lineName "poop A is PoHiop qooq".toList =
          .ok [.define "A".toList [.literal "PoHiop".toList]] := by rfl
      rw [parsed] at read
      cases read
      decide
    · cases given
  have inert := unused_definition_inert [.name name] {} (some 9) .buffer spaceless unused unsupplied
  exact ⟨spaceless, unused, unsupplied, by decide +kernel, inert.1, inert.2.2⟩

end Session

end Splice
