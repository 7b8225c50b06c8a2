import Splice.Proofs.Session.Indifference
import Splice.Proofs.Session.Limit

/-!
# Definitions in front of a program

A program with definitions of different macros in front of it defines them one by one, and is the
rest of the program then. The macros that it has come to are the same in whatever order the
definitions stand, so from there on their order makes no difference.
-/

namespace Splice

/-- Definitions that stand side by side. -/
def Sequence.preamble (definitions : List (Text × List Term)) : List Term :=
  definitions.map fun (name, body) => .define name body

namespace Session

section Preamble

variable {session : Session} {rest : List Term}

/-- A definition in front of a program is what the next step contracts. -/
theorem step_of_definition {name : Text} {body : List Term} (ready : session.awaiting = false)
    (program : session.program = .define name body :: rest)
    (fresh : session.macros.contains name = false) :
    session.step.1 = .ok .changed ∧
      Silent { session with
        program := rest
        macros := session.macros.insert name body
        steps := session.steps + 1 } session.step.2 := by
  have outcome : Sequence.reduce session.scope session.program =
      .changed (.defined name body) rest := by
    have unknown : session.scope.macros.contains name = false := fresh
    rw [program, Sequence.reduce, Term.reduce, unknown]
    rfl
  obtain ⟨outlet, reported, silent⟩ :=
    (Silent.announce session).trans (.report session.announce (.defined name body))
  rw [step_eq_reduce session ready, reduce_announce, outcome, conclude, settle, perform, reported]
  exact ⟨rfl, outlet, rfl, silent⟩

/-- Definitions of new and different macros are gone after as many turns. -/
theorem after_preamble {definitions : List (Text × List Term)} (ready : session.awaiting = false)
    (program : session.program = Sequence.preamble definitions ++ rest)
    (distinct : (definitions.map Prod.fst).Nodup)
    (fresh : ∀ name ∈ definitions.map Prod.fst, session.macros.contains name = false)
    (room : ∀ limit, session.settings.maxSteps = some limit →
      session.steps + definitions.length ≤ limit) (source : LineSource) (used : Nat) :
    ∃ later, driver.after source definitions.length used session = .going used later ∧
      Silent { session with
        program := rest
        macros := session.macros.attemptAll definitions
        steps := session.steps + definitions.length } later := by
  induction definitions generalizing session with
  | nil =>
      refine ⟨session, rfl, session.outlet, ?_, .refl _⟩
      have gone : session.program = rest := program
      rw [← gone]
      rfl
  | cons definition others ih =>
      obtain ⟨name, body⟩ := definition
      obtain ⟨apart, distinct⟩ := List.nodup_cons.mp distinct
      have new := fresh name List.mem_cons_self
      obtain ⟨changes, outlet, becomes, silent⟩ := step_of_definition ready program new
      have free := reachedLimit?_of_room room
      have known : (session.macros.insert name body).attemptAll others =
          session.macros.attemptAll ((name, body) :: others) := by
        rw [MacroTable.attemptAll, MacroTable.attemptAll, List.foldl_cons, MacroTable.attempt,
          MacroTable.define_of_fresh new]
      have still : ∀ other ∈ others.map Prod.fst,
          (session.macros.insert name body).contains other = false := by
        intro other member
        have differ : other ≠ name := fun same => apart (same ▸ member)
        rw [MacroTable.contains, MacroTable.find?_insert new, if_neg differ]
        exact fresh other (List.mem_cons_of_mem name member)
      have spare : ∀ limit, session.settings.maxSteps = some limit →
          session.steps + 1 + others.length ≤ limit := by
        intro limit limited
        have within := room limit limited
        rw [List.length_cons] at within
        omega
      rw [List.length_cons, Driver.after, turn_of_changed free changes, becomes]
      obtain ⟨later, goes, quiet⟩ := @ih
        { session with
          program := Sequence.preamble others ++ rest
          macros := session.macros.insert name body
          steps := session.steps + 1
          outlet := outlet } ready rfl distinct still spare
      refine ⟨later, goes, ?_⟩
      obtain ⟨last, rfl, after⟩ := quiet
      refine ⟨last, ?_, silent.trans after⟩
      simp only [known, Nat.add_assoc, Nat.add_comm 1]

/-- A run that goes on after some turns has not ended before. -/
theorem runWith_eq_none {source : LineSource} {turns fuel used used' : Nat} {later : Session}
    (goes : driver.after source turns used session = .going used' later) (early : fuel ≤ turns) :
    session.runWith source fuel used = none := by
  obtain ⟨more, rfl⟩ := Nat.exists_eq_add_of_le early
  rw [runWith_eq_after]
  cases place : driver.after source fuel used session with
  | going count middle => rfl
  | done result count middle =>
      rw [Driver.after_of_done place] at goes
      cases goes

end Preamble

/-- The order of definitions of different macros in front of a program makes no difference once
they have been made, which takes as many steps as there are definitions. From then on the program,
the macros, the count of steps and what has been printed are the same turn by turn, on whatever
lines and whatever the sink says, and the runs come to the same end. -/
theorem definition_order_immaterial {definitions others : List (Text × List Term)}
    (rest : List Term) (settings : Settings) (sink : Sink) (source : LineSource)
    (distinct : (definitions.map Prod.fst).Nodup) (permuted : definitions.Perm others)
    (room : ∀ limit, settings.maxSteps = some limit → definitions.length ≤ limit) :
    let first := new (Sequence.preamble definitions ++ rest) settings sink
    let second := new (Sequence.preamble others ++ rest) settings sink
    (∃ session, driver.after source definitions.length 0 first = .going 0 session ∧
      session.steps = definitions.length ∧ session.program = rest) ∧
    (∀ turns, Driver.Together Abreast (driver.after source (definitions.length + turns) 0 first)
      (driver.after source (definitions.length + turns) 0 second)) ∧
    ∀ fuel, Option.Rel
      (fun (result, used, last) (result', used', last') =>
        result' = result ∧ used' = used ∧ last.Abreast last')
      (first.runWith source fuel 0) (second.runWith source fuel 0) := by
  intro first second
  have nothing : ∀ name, MacroTable.empty.contains name = false := fun name => rfl
  have sameLength := permuted.length_eq
  have spare : ∀ limit, settings.maxSteps = some limit → 0 + definitions.length ≤ limit := by
    intro limit limited
    rw [Nat.zero_add]
    exact room limit limited
  obtain ⟨session, goes, silent⟩ := @after_preamble first rest definitions rfl rfl distinct
    (fun name _ => nothing name) spare source 0
  obtain ⟨other, goes', silent'⟩ := @after_preamble second rest others rfl rfl
    ((permuted.map Prod.fst).nodup distinct) (fun name _ => nothing name) (sameLength ▸ spare)
    source 0
  rw [← sameLength] at goes'
  rw [← sameLength, ← MacroTable.attemptAll_perm distinct permuted] at silent'
  have alike : session.Alike id other := (Alike.refl _).silent silent silent'
  have paired : Paired id settings.maxSteps settings.maxSteps session other :=
    ⟨alike, congrArg Settings.maxSteps silent.alongside.settings,
      congrArg Settings.maxSteps silent'.alongside.settings⟩
  have lockstep : ∀ turns, Driver.Together Abreast
      (driver.after source (definitions.length + turns) 0 first)
      (driver.after source (definitions.length + turns) 0 second) := by
    intro turns
    rw [Driver.after_of_going goes, Driver.after_of_going goes']
    exact (Paired.simulates.after paired source turns 0).mono fun here => here.toAlike.abreast
  refine ⟨⟨session, goes, silent.alongside.steps.trans (Nat.zero_add _), ?_⟩, lockstep, ?_⟩
  · exact silent.alongside.program
  · intro fuel
    rcases Nat.le_total fuel definitions.length with early | late
    · rw [runWith_eq_none goes early, runWith_eq_none goes' early]
      exact .none
    · obtain ⟨turns, rfl⟩ := Nat.exists_eq_add_of_le late
      have together := lockstep turns
      rw [runWith_eq_after, runWith_eq_after]
      generalize driver.after source (definitions.length + turns) 0 first = place at together
      generalize driver.after source (definitions.length + turns) 0 second = place' at together
      cases together with
      | going used here => exact .none
      | done result used here => exact .some ⟨by rw [here.steps], rfl, here⟩

/-- Two macros, one of which uses the other, are defined in either order, and a line brings a third
definition that fails, since its name is taken. -/
theorem definition_order_immaterial_before_redefinition :
    let definitions : List (Text × List Term) :=
      [("A".toList, [.name "B".toList]), ("B".toList, [.literal "PoHiop".toList])]
    let rest : List Term := [.app (.name Word.print) [.name "A".toList], .name Word.input]
    let settings : Settings := { maxSteps := some 7 }
    let source := LineSource.ofList ["poop A is qooq".toList] .closed
    let first := new (Sequence.preamble definitions ++ rest) settings .buffer
    let second := new (Sequence.preamble definitions.reverse ++ rest) settings .buffer
    (definitions.map Prod.fst).Nodup ∧ definitions.Perm definitions.reverse ∧
      (∀ limit, settings.maxSteps = some limit → definitions.length ≤ limit) ∧
      ((first.runWith source 9 0).map fun (result, used, last) =>
        (result, used, last.steps, last.outlet.prints)) =
          some (.error (.redefinition "A".toList), 1, 6, ["Hi".toList]) ∧
      ∀ fuel, Option.Rel
        (fun (result, used, last) (result', used', last') =>
          result' = result ∧ used' = used ∧ last.Abreast last')
        (first.runWith source fuel 0) (second.runWith source fuel 0) := by
  intro definitions rest settings source first second
  have distinct : (definitions.map Prod.fst).Nodup := by decide
  have permuted : definitions.Perm definitions.reverse := (List.reverse_perm definitions).symm
  have room : ∀ limit, settings.maxSteps = some limit → definitions.length ≤ limit := by
    rintro limit ⟨⟩
    decide
  have same := definition_order_immaterial rest settings .buffer source distinct permuted room
  exact ⟨distinct, permuted, room, by decide +kernel, same.2.2⟩

end Session

end Splice
