import Splice.Proofs.MacroTable
import Splice.Proofs.Reduction.Focus
import Splice.Proofs.Session.Likeness

/-!
# Macros are written once

Of several attempts to define a name, the first one counts and every later one fails. In a session
every macro stays as it is, whatever the host does, and a step adds at most one. A step fails
because a name is taken exactly when its search for a redex comes to a definition of that name. A
definition in the place of a callee is no redex, and is refused whether its name is taken or not.
-/

namespace Splice

namespace MacroTable

/-! ## Attempts at a new table -/

/-- Among attempts that are made one after the other at a new table, one has succeeded in defining
a name. -/
def Defined (calls : List (Text × List Term)) (name : Text) : Prop :=
  ∃ earlier body later table, calls = earlier ++ (name, body) :: later ∧
    (empty.attemptAll earlier).define name body = .ok table

/-- What a table answers after attempts to define macros. -/
structure Records (table : MacroTable) (calls : List (Text × List Term)) : Prop where
  succeeds : ∀ name body, (∃ later, table.define name body = .ok later) ↔ ¬ Defined calls name
  refuses : ∀ name body, Defined calls name → table.define name body = .error (.redefinition name)
  /-- The body of a name is that of the first attempt at it. -/
  first : ∀ name, table.find? name = calls.lookup name
  known : ∀ name, table.contains name = true ↔ ∃ body, table.find? name = some body
  listed : ∀ name, table.contains name = true ↔ name ∈ table.names
  increasing : table.names.Pairwise (· < ·)
  counted : table.size = table.names.length

theorem find?_attemptAll_empty (calls : List (Text × List Term)) (name : Text) :
    (empty.attemptAll calls).find? name = calls.lookup name := by
  have nothing : empty.find? name = none := rfl
  rw [find?_attemptAll, nothing, Option.none_or]

/-- The first attempt at a name succeeds. -/
theorem defined_iff_contains (calls : List (Text × List Term)) (name : Text) :
    Defined calls name ↔ (empty.attemptAll calls).contains name = true := by
  rw [contains, find?_attemptAll_empty]
  constructor
  · rintro ⟨earlier, body, later, table, rfl, -⟩
    exact List.lookup_isSome_iff.mpr ⟨(name, body), by simp, beq_self_eq_true name⟩
  · intro some
    obtain ⟨body, first⟩ := Option.isSome_iff_exists.mp some
    obtain ⟨earlier, later, rfl, apart⟩ := List.lookup_eq_some_iff.mp first
    have fresh : (empty.attemptAll earlier).contains name = false := by
      rw [contains, find?_attemptAll_empty, List.lookup_eq_none_iff.mpr apart]
      rfl
    exact ⟨earlier, body, later, _, rfl, define_of_fresh fresh body⟩

theorem records_attemptAll (calls : List (Text × List Term)) :
    (empty.attemptAll calls).Records calls where
  succeeds name body := by
    rw [defined_iff_contains]
    cases known : (empty.attemptAll calls).contains name with
    | true => simp [define_of_known known]
    | false => simp [define_of_fresh known]
  refuses name body defined := define_of_known ((defined_iff_contains calls name).mp defined) body
  first := find?_attemptAll_empty calls
  known name := Option.isSome_iff_exists
  listed name := contains_eq_true_iff
  increasing := List.pairwise_map.mpr (empty.attemptAll calls).ordered
  counted := (List.length_map _).symm

/-! ## Growth -/

/-- Every macro of one table is one of another, with the same body. -/
def Within (table later : MacroTable) : Prop :=
  ∀ name body, table.find? name = some body → later.find? name = some body

theorem Within.trans {first second third : MacroTable} (before : first.Within second)
    (after : second.Within third) : first.Within third :=
  fun name body known => after name body (before name body known)

theorem within_of_define {table later : MacroTable} {name : Text} {body : List Term}
    (defines : table.define name body = .ok later) : table.Within later := by
  intro other content known
  cases taken : table.contains name with
  | true =>
      rw [define_of_known taken] at defines
      cases defines
  | false =>
      rw [define_of_fresh taken] at defines
      cases defines
      have differ : other ≠ name := by
        rintro rfl
        rw [contains, known] at taken
        cases taken
      rw [find?_insert taken, if_neg differ, known]

end MacroTable

/-! ## Steps -/

/-- Only a part that fails before anything happens makes the whole fail so. -/
theorem Outcome.inside_eq_failed {context : Context} {part : List Term} {outcome : Outcome}
    {error : Error} (fails : outcome.inside context part = .failed none error) :
    outcome = .failed none error := by
  cases outcome with
  | stuck => cases fails
  | awaiting => cases fails
  | failed earlier reason => exact fails
  | changed event next =>
      rw [inside] at fails
      split at fails
      · cases fails
      · cases fails

namespace Session

variable {session : Session}

theorem macros_perform (session : Session) (event : Event) :
    (session.perform event).2.macros = event.extend session.macros := by
  have reported := (Silent.report session event).intact.macros
  cases event with
  | defined name body => exact congrArg (·.insert name body) reported
  | printed args => exact reported
  | received line => exact reported
  | expanded name => exact reported
  | expandedUnder param => exact reported
  | substituted param args => exact reported

/-- A step defines one macro, or leaves the macros alone. -/
theorem step_macros (session : Session) :
    session.step.2.macros = session.macros ∨
      session.step.1 = .ok .changed ∧
        ∃ name body, session.macros.define name body = .ok session.step.2.macros := by
  have announced := (Silent.announce session).intact.macros
  have stepped := session.step_stepped
  cases answer : session.step.1 with
  | error error => exact .inl (intact_of_failed_step (Prod.ext answer rfl)).macros
  | ok result =>
      rw [answer] at stepped
      generalize session.step.2 = later at stepped ⊢
      cases stepped with
      | waiting waits => exact .inl rfl
      | converged ready outcome => exact .inl announced
      | asking ready outcome => exact .inl announced
      | @changed event next after ready outcome performs =>
          have extended := session.announce.macros_perform event
          rw [performs, announced] at extended
          have allowed := Sequence.allowed_of_event (Outcome.event?_of_changed outcome)
          cases event with
          | defined name body =>
              have defines := MacroTable.define_of_fresh allowed body
              exact .inr ⟨rfl, name, body, defines.trans (congrArg Except.ok extended.symm)⟩
          | printed args => exact .inl extended
          | received line => exact .inl extended
          | expanded name => exact .inl extended
          | expandedUnder param => exact .inl extended
          | substituted param args => exact .inl extended

theorem within_step (session : Session) : session.macros.Within session.step.2.macros := by
  rcases session.step_macros with same | ⟨-, name, body, defines⟩
  · rw [same]
    exact fun name body known => known
  · exact MacroTable.within_of_define defines

/-- Whatever a host does, a macro stays as it is. -/
theorem preserved_within (table : MacroTable) :
    Preserved fun session => table.Within session.macros where
  step := by
    intro session before
    exact before.trans session.within_step
  provide := by
    intro session provided line provides before
    obtain ⟨-, rfl⟩ := provide_eq_ok_iff.mp provides
    exact before
  log := fun _ before => before

theorem step_of_failed {error : Error} (ready : session.awaiting = false)
    (outcome : Sequence.reduce session.scope session.program = .failed none error) :
    session.step.1 = .error error := by
  rw [step_eq_finish ready, outcome]
  rfl

/-- Neither a line nor a sink nor a callee of several terms is to blame for a name that is taken. -/
theorem reduce_of_redefinition {name : Text}
    (fails : session.step.1 = .error (.redefinition name)) :
    Sequence.reduce session.scope session.program = .failed none (.redefinition name) := by
  have stepped := session.step_stepped
  rw [fails] at stepped
  generalize session.step.2 = later at stepped
  cases stepped with
  | failed ready outcome => exact outcome
  | failedAfter ready outcome performs =>
      cases Sequence.failure_of_reduce outcome with
      | unreadable pending refused =>
          rw [Sequence.parse] at refused
          split at refused
          · cases refused
          · cases refused
  | refused ready outcome performs =>
      obtain ⟨args, rfl⟩ := exists_printed_of_refusal performs
      have answer := congrArg Prod.fst performs
      obtain ⟨fault, -, impossible⟩ := Option.map_eq_some_iff.mp answer
      cases impossible

/-- A step fails because a name is taken exactly when it comes to a definition of the name. -/
theorem step_redefines_iff (ready : session.awaiting = false) (name : Text) :
    session.step.1 = .error (.redefinition name) ↔
      session.macros.contains name = true ∧
        ∃ (context : Context) (body : List Term),
          context.Leads session.scope [.define name body] session.program := by
  constructor
  · intro fails
    have outcome := reduce_of_redefinition fails
    have moves : Sequence.reduce session.scope session.program ≠ .stuck := by simp [outcome]
    obtain ⟨context, redex, part, leads, fires⟩ := Sequence.hasFocus_of_reduce moves
    rw [leads.reduce_of_fires fires] at outcome
    have failed := Outcome.inside_eq_failed outcome
    cases fires with
    | redefinition body known =>
        cases failed
        exact ⟨known, context, body, leads⟩
    | request =>
        rw [Scope.receive] at failed
        split at failed
        · cases failed
        · split at failed
          · cases failed
          · cases failed
    | expansion other known => cases failed
    | expansionUnder expands => cases failed
    | definition body fresh => cases failed
    | definedCallee called body args => cases failed
    | substitution settled ready => cases failed
    | printing settled printable => cases failed
  · rintro ⟨known, context, body, leads⟩
    exact step_of_failed ready (leads.reduce_of_fires (.redefinition body known))

/-- At a new table, the first attempt at a name counts and every other one fails. From one session
to another that a host reaches, every macro stays with the body that it has. A step adds at most
one macro, and fails because a name is taken exactly when it comes to a definition of that name,
whatever its body. A definition that is the callee of an application is refused as such. -/
theorem macros_written_once {session later : Session} (calls : List (Text × List Term))
    (reachable : session.Reachable later) :
    (MacroTable.empty.attemptAll calls).Records calls ∧
    session.macros.Within later.macros ∧
    (later.step.2.macros = later.macros ∨
      later.step.1 = .ok .changed ∧
        ∃ name body, later.macros.define name body = .ok later.step.2.macros) ∧
    (later.awaiting = false → ∀ name,
      later.step.1 = .error (.redefinition name) ↔
        later.macros.contains name = true ∧
          ∃ (context : Context) (body : List Term),
            context.Leads later.scope [.define name body] later.program) ∧
    (later.awaiting = false → ∀ (context : Context) (name : Text) (body args : List Term),
      context.Leads later.scope [.app (.define name body) args] later.program →
        later.step.1 = .error (.calleeNotSingle (Term.define name body).source 0)) := by
  refine ⟨MacroTable.records_attemptAll calls, ?_, later.step_macros, step_redefines_iff, ?_⟩
  · exact (preserved_within session.macros).of_reachable reachable fun name body known => known
  · intro ready context name body args leads
    exact step_of_failed ready (leads.reduce_of_fires (.definedCallee name body args))

/-- A second definition with the same body, among the arguments of an application that is stuck. -/
theorem macros_written_once_among_arguments :
    let definition : Term := .define "A".toList [.name "x".toList]
    let origin := new [definition, .app (.name "f".toList) [.literal "PoHiop".toList, definition]]
      {} .buffer
    let session := origin.step.2
    let later := session.step.2
    session.Reachable later ∧
      session.macros.find? "A".toList = some [.name "x".toList] ∧
      later.macros.find? "A".toList = some [.name "x".toList] ∧
      later.step.1 = .error (.redefinition "A".toList) := by
  intro definition origin session later
  have acts : session.act 0 .step = some (session.step.1.map .stepped, later) := rfl
  have reachable : session.Reachable later := .act .start True.intro acts
  have known : session.macros.find? "A".toList = some [.name "x".toList] := by rfl
  have once := macros_written_once [] reachable
  have leads : Context.Leads later.scope [definition]
      (.inArgs (.name "f".toList) (.beside [.literal "PoHiop".toList] .hole []))
      later.program :=
    .inArgs rfl nofun (.beside rfl .here [])
  exact ⟨reachable, known, once.2.1 _ _ known,
    (once.2.2.2.1 rfl "A".toList).mpr ⟨rfl, _, _, leads⟩⟩

/-- A definition of a name that is taken, in the place of a callee, does not fail because of the
name. -/
theorem taken_name_overlooked_in_callee :
    let definition : Term := .define "A".toList [.name "x".toList]
    let session := (new [definition, .app definition []] {} .buffer).step.2
    session.macros.contains "A".toList = true ∧ session.program = [.app definition []] ∧
      session.step.1 = .error (.calleeNotSingle "poop A is x qooq".toList 0) ∧
      session.step.1 ≠ .error (.redefinition "A".toList) := by
  intro definition session
  have fails : session.step.1 = .error (.calleeNotSingle "poop A is x qooq".toList 0) := by rfl
  refine ⟨rfl, rfl, fails, ?_⟩
  rw [fails]
  nofun

end Session

end Splice
