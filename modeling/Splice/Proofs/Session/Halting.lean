import Splice.Proofs.Acyclic
import Splice.Proofs.Session.Argument
import Splice.Proofs.Session.Provenance

/-!
# Programs that halt

A program without functions that asks for no lines is reduced by definitions, expansions and
prints alone. Each of them takes the program down by the ranks of an acyclic program, although it
may grow, and so every run comes to an end. Nothing in such a program tells the strategies apart.
-/

namespace Splice

/-- A text in its place that is no parameter and does not ask for a line. -/
def Role.Plain (role : Role) (text : Text) : Prop :=
  role ≠ .param ∧ (role = .name → text ≠ Word.input)

theorem admitsSpaced_plain : AdmitsSpaced Role.Plain := by
  intro text space
  refine ⟨nofun, ?_⟩
  rintro - rfl
  revert space
  decide

/-- The errors by which a program fails that asks for no lines. -/
inductive Error.Structural : Error → Prop where
  | redefinition (name : Text) : Structural (.redefinition name)
  | calleeNotSingle (callee : Text) (count : Nat) : Structural (.calleeNotSingle callee count)

/-! ## Contractions -/

namespace Contraction

variable {scope : Scope} {event : Event} {binder : Option Text} {redex : Term}
  {result origin : List Term}

/-- Without functions and lines, a redex is a definition, the name of a macro, or an application
of the printing name. -/
theorem cases_of_plain (contracts : Contraction scope event binder redex result)
    (idle : scope.pending = none) (plain : Sequence.Every Role.Plain [redex]) :
    (∃ name body, redex = .define name body ∧ result = []) ∨
    (∃ text, redex = .name text ∧ scope.macros.find? text = some result) ∨
    redex = .app (.name Word.print) result := by
  cases contracts with
  | definition fresh => exact .inl ⟨_, _, rfl, rfl⟩
  | expansion other known => exact .inr (.inl ⟨_, rfl, known⟩)
  | expansionUnder known => exact .inr (.inl ⟨_, rfl, known⟩)
  | reception pending read =>
      rw [idle] at pending
      cases pending
  | substitution =>
      rw [Sequence.every_app, Sequence.every_lam] at plain
      exact absurd rfl plain.1.1.1
  | printing printable => exact .inr (.inr rfl)

/-- A redex brings no other definitions than those among the macros. -/
theorem definitions_subset (contracts : Contraction scope event binder redex result)
    (idle : scope.pending = none) (plain : Sequence.Every Role.Plain [redex])
    (table : scope.macros.entries ⊆ Sequence.definitions origin)
    (inside : Sequence.definitions [redex] ⊆ Sequence.definitions origin) :
    Sequence.definitions result ⊆ Sequence.definitions origin := by
  rcases contracts.cases_of_plain idle plain with ⟨name, body, rfl, rfl⟩ |
    ⟨text, rfl, known⟩ | rfl
  · exact List.nil_subset _
  · exact Sequence.definitions_subset (table (MacroTable.find?_eq_some_iff.mp known))
  · rw [Sequence.definitions_singleton, Term.definitions] at inside
    exact (List.append_subset.mp inside).2

/-- What takes the place of a redex is below it. -/
theorem below (acyclic : Sequence.Acyclic origin)
    (contracts : Contraction scope event binder redex result)
    (idle : scope.pending = none) (plain : Sequence.Every Role.Plain [redex])
    (table : scope.macros.entries ⊆ Sequence.definitions origin) :
    Sequence.Below (Sequence.rank origin) result [redex] := by
  rcases contracts.cases_of_plain idle plain with ⟨name, body, rfl, rfl⟩ |
    ⟨text, rfl, known⟩ | rfl
  · apply Sequence.below_of_add (Multiset.singleton_ne_zero 0)
    rw [Sequence.ranks_singleton, Term.ranks, Sequence.ranks_nil, zero_add]
  · exact Sequence.below_of_mem_definitions acyclic (table (MacroTable.find?_eq_some_iff.mp known))
  · have more : Sequence.ranks (Sequence.rank origin) [.app (.name Word.print) result] =
        Sequence.ranks (Sequence.rank origin) result + {0, Sequence.rank origin Word.print} := by
      rw [Sequence.ranks_singleton, Term.ranks, Term.ranks, add_comm]
      rfl
    exact Sequence.below_of_add (Multiset.cons_ne_zero) more

end Contraction

namespace Session

/-! ## Steps -/

/-- A step that contracts a redex reduces the program and defines what the reduction does. -/
theorem exists_event_of_changed {session : Session} (accepts : session.outlet.sink.Accepts)
    (changes : session.step.1 = .ok .changed) :
    ∃ event, Sequence.reduce session.scope session.program =
        .changed event session.step.2.program ∧
      session.step.2.macros = event.extend session.macros := by
  obtain ⟨event, outcome⟩ := reduce_of_changed changes
  have staged := next?_of_changed accepts changes
  rw [next?_stage outcome] at staged
  injection staged with staged
  injection staged with _ macros
  exact ⟨event, outcome, macros.symm⟩

/-- A session on the way from a program without functions that asks for no lines: every definition
in it stands in that program, and nothing but the program itself can stop it. -/
structure Tame (origin : List Term) (session : Session) : Prop where
  plain : session.Upholds Role.Plain
  program : Sequence.definitions session.program ⊆ Sequence.definitions origin
  macros : session.macros.entries ⊆ Sequence.definitions origin
  pending : session.pending = none
  ready : session.awaiting = false
  unlimited : session.settings.maxSteps = none
  accepts : session.outlet.sink.Accepts

namespace Tame

variable {origin : List Term} {session : Session}

theorem start {settings : Settings} {sink : Sink} (plain : Sequence.Every Role.Plain origin)
    (unlimited : settings.maxSteps = none) (accepts : sink.Accepts) :
    (new origin settings sink).Tame origin where
  plain := .new plain settings sink
  program := List.Subset.refl _
  macros := List.nil_subset _
  pending := rfl
  ready := rfl
  unlimited := unlimited
  accepts := accepts

/-- A reduction brings no other definitions, and takes the program down. -/
theorem of_reduce (acyclic : Sequence.Acyclic origin) (tame : session.Tame origin)
    {event : Event} {next : List Term}
    (outcome : Sequence.reduce session.scope session.program = .changed event next) :
    Sequence.definitions next ⊆ Sequence.definitions origin ∧
      (event.extend session.macros).entries ⊆ Sequence.definitions origin ∧
      Sequence.Below (Sequence.rank origin) next session.program := by
  obtain ⟨context, redex, result, filled, refilled, contracts⟩ := Sequence.reduce_replaces outcome
  have plain := ((context.every_fill_iff filled).mp tame.plain.program).2
  obtain ⟨around, parts⟩ := context.exists_definitions
  have inside : Sequence.definitions [redex] ⊆ Sequence.definitions origin := by
    intro entry member
    exact tame.program ((parts _ _ filled entry).mpr (.inr member))
  refine ⟨?_, ?_, ?_⟩
  · intro entry member
    rcases (parts _ _ refilled entry).mp member with outside | here
    · exact tame.program ((parts _ _ filled entry).mpr (.inl outside))
    · exact contracts.definitions_subset tame.pending plain tame.macros inside here
  · intro entry member
    cases event with
    | defined name body =>
        rcases MacroTable.mem_insertEntry member with rfl | old
        · generalize context.binder? = binder at contracts
          cases contracts with
          | definition fresh =>
              rw [Sequence.definitions_singleton, Term.definitions] at inside
              exact inside List.mem_cons_self
        · exact tame.macros old
    | _ => exact tame.macros member
  · exact context.below_of_fill filled refilled
      (contracts.below acyclic tame.pending plain tame.macros)

/-- A step that contracts a redex leaves the session on its way. -/
theorem step_of_changed (acyclic : Sequence.Acyclic origin) (tame : session.Tame origin)
    (changes : session.step.1 = .ok .changed) :
    session.step.2.Tame origin ∧
      Sequence.Below (Sequence.rank origin) session.step.2.program session.program := by
  obtain ⟨settings, sink⟩ := session.step_settings_sink
  obtain ⟨event, outcome, macros⟩ := exists_event_of_changed tame.accepts changes
  obtain ⟨inProgram, inMacros, descends⟩ := tame.of_reduce acyclic outcome
  have coherent : session.Coherent := .of_idle tame.ready tame.pending
  rw [← macros] at inMacros
  refine ⟨?_, descends⟩
  exact
    { plain := tame.plain.step admitsSpaced_plain
      program := inProgram
      macros := inMacros
      pending := coherent.step_pending
      ready := awaiting_of_changed changes
      unlimited := by rw [settings]; exact tame.unlimited
      accepts := by rw [sink]; exact tame.accepts }

/-- Any other step ends the run: there is no redex, or the program is at fault. -/
theorem step_cases (tame : session.Tame origin) :
    session.step.1 = .ok .changed ∨ session.step.1 = .ok .converged ∨
      ∃ error, session.step.1 = .error error ∧ error.Structural := by
  have stepped := session.step_stepped
  generalize session.step.1 = result at stepped ⊢
  generalize session.step.2 = later at stepped
  cases stepped with
  | waiting waits =>
      rw [tame.ready] at waits
      cases waits
  | converged ready outcome => exact .inr (.inl rfl)
  | asking ready outcome =>
      obtain ⟨context, asks⟩ := Sequence.asks_of_reduce outcome
      have asked := ((context.every_fill_iff asks.fill_input).mp tame.plain.program).2
      rw [Sequence.every_name] at asked
      exact absurd rfl (asked.1.2 rfl)
  | changed ready outcome performs => exact .inl rfl
  | failed ready outcome =>
      refine .inr (.inr ⟨_, rfl, ?_⟩)
      cases Sequence.failure_of_reduce outcome with
      | redefined known => exact .redefinition _
      | definedCallee name body => exact .calleeNotSingle _ _
  | failedAfter ready outcome performs =>
      refine .inr (.inr ⟨_, rfl, ?_⟩)
      cases Sequence.failure_of_reduce outcome with
      | unreadable pending refused =>
          rw [scope, tame.pending] at pending
          cases pending
      | severalTerms undefining contracts count => exact .calleeNotSingle _ _
  | @refused event refusal after ready outcome performs =>
      have answer := perform_of_accepts tame.accepts event
      rw [performs] at answer
      cases answer

/-! ## Runs -/

theorem round_eq (tame : session.Tame origin) :
    session.round = (.ofStep session.step.1, session.step.2) :=
  round_of_free (reachedLimit?_of_unlimited tame.unlimited)

/-- A run ends, because the program goes down with every step that does not end it. -/
theorem exists_run (acyclic : Sequence.Acyclic origin) (tame : session.Tame origin) :
    ∃ fuel result last, session.run fuel = some (result, last) ∧
      (result = .ok ⟨.converged, last.steps⟩ ∨
        ∃ error, result = .error error ∧ error.Structural) := by
  induction program : session.program using
    (Sequence.wellFounded_below (Sequence.rank origin)).induction generalizing session with
  | _ terms ih =>
      have turn := tame.round_eq
      rcases tame.step_cases with changes | converges | ⟨error, fails, structural⟩
      · obtain ⟨later, descends⟩ := tame.step_of_changed acyclic changes
        rw [program] at descends
        obtain ⟨fuel, result, last, runs, ends⟩ := ih _ descends later rfl
        rw [changes] at turn
        exact ⟨fuel + 1, result, last, (run_of_running turn fuel).trans runs, ends⟩
      · rw [converges] at turn
        exact ⟨1, _, _, run_of_halted turn, .inl rfl⟩
      · rw [fails] at turn
        exact ⟨1, _, _, run_of_failed turn, .inr ⟨error, rfl, structural⟩⟩

/-! ## Strategies -/

/-- Without functions there is no application at which the strategies part. -/
theorem reduce_under (tame : session.Tame origin) (strategy : Strategy) :
    Sequence.reduce (session.scope.under strategy) session.program =
      Sequence.reduce session.scope session.program := by
  have same : Sequence.reduce (session.scope.under .legacy) session.program =
      Sequence.reduce (session.scope.under .lazy) session.program := by
    rcases Sequence.reduce_legacy_cases session.scope session.program with
      same | ⟨context, param, body, args, leads, -⟩
    · exact same
    · have applied := ((context.every_fill_iff leads.fill).mp tame.plain.program).2
      rw [Sequence.every_app, Sequence.every_lam] at applied
      exact absurd rfl applied.1.1.1
  have own : session.scope = session.scope.under session.settings.strategy := rfl
  rw [own]
  cases session.settings.strategy <;> cases strategy
  · rfl
  · exact same
  · exact same.symm
  · rfl

theorem round_under (tame : session.Tame origin) (strategy : Strategy) :
    (session.under strategy).round = (session.round.1, session.round.2.under strategy) := by
  have unlimited : (session.under strategy).settings.maxSteps = none := tame.unlimited
  have turn := round_of_free (reachedLimit?_of_unlimited unlimited)
  rw [session.step_under strategy (tame.reduce_under strategy)] at turn
  rw [tame.round_eq]
  exact turn

/-- A run is the same under any strategy. -/
theorem run_under (acyclic : Sequence.Acyclic origin) (tame : session.Tame origin)
    (strategy : Strategy) (fuel : Nat) :
    (session.under strategy).run fuel =
      (session.run fuel).map fun (result, last) => (result, last.under strategy) := by
  induction fuel generalizing session with
  | zero => rfl
  | succ fuel ih =>
      rw [run, tame.round_under, run, tame.round_eq]
      rcases tame.step_cases with changes | converges | ⟨error, fails, -⟩
      · rw [changes]
        exact ih (tame.step_of_changed acyclic changes).1
      · rw [converges]
        rfl
      · rw [fails]
        rfl

end Tame

/-- A program without functions that asks for no lines and in which no macro comes back to itself
is run to its end, however its macros make it grow. There is no redex then, or a macro has been
defined twice, or a callee has not become one term. Both strategies come to the same end, with
the same prints after the same number of steps. -/
theorem acyclic_program_halts {program : List Term} {sink : Sink} (settings : Settings)
    (functionless : ∀ param, (.param, param) ∉ Sequence.occurrences program)
    (inputless : (.name, Word.input) ∉ Sequence.occurrences program)
    (acyclic : Sequence.Acyclic program) (accepts : sink.Accepts) :
    let session := new program { settings with maxSteps := none } sink
    ∃ fuel result last,
      (session.under .lazy).run fuel = some (result, last) ∧
      (session.under .legacy).run fuel = some (result, last.under .legacy) ∧
      (result = .ok ⟨.converged, last.steps⟩ ∨
        (∃ name, result = .error (.redefinition name)) ∨
        ∃ callee count, result = .error (.calleeNotSingle callee count)) := by
  intro session
  have plain : Sequence.Every Role.Plain program := by
    intro role text member
    constructor
    · rintro rfl
      exact functionless text member
    · rintro rfl rfl
      exact inputless member
  have tame : (session.under .lazy).Tame program := .start plain rfl accepts
  obtain ⟨fuel, result, last, runs, ends⟩ := tame.exists_run acyclic
  have alike := tame.run_under acyclic .legacy fuel
  rw [runs] at alike
  refine ⟨fuel, result, last, runs, alike, ?_⟩
  rcases ends with converges | ⟨error, rfl, structural⟩
  · exact .inl converges
  · cases structural with
    | redefinition name => exact .inr (.inl ⟨name, rfl⟩)
    | calleeNotSingle callee count => exact .inr (.inr ⟨callee, count, rfl⟩)

/-- A macro brings the definition of another one and uses it twice, and what is printed as a
callee goes on as one. -/
theorem acyclic_program_halts_after_nested_definition :
    let word : Term := .literal "PoHiop".toList
    let program : List Term :=
      [.define "A".toList [.define "B".toList [word, word], .name "B".toList, .name "B".toList],
        .name "A".toList, .app (.app (.name Word.print) [word]) [.name "B".toList]]
    let session := new program { maxSteps := none } .buffer
    (∀ param, (.param, param) ∉ Sequence.occurrences program) ∧
      (.name, Word.input) ∉ Sequence.occurrences program ∧
      Sequence.Acyclic program ∧ Sink.buffer.Accepts ∧
      ((session.under .lazy).run 8).map (fun (_, last) => (last.steps, last.outlet.prints)) =
        some (7, ["Hi".toList]) ∧
      ∃ fuel result last,
        (session.under .lazy).run fuel = some (result, last) ∧
        (session.under .legacy).run fuel = some (result, last.under .legacy) ∧
        (result = .ok ⟨.converged, last.steps⟩ ∨
          (∃ name, result = .error (.redefinition name)) ∨
          ∃ callee count, result = .error (.calleeNotSingle callee count)) := by
  intro word program session
  have functionless : ∀ param, (.param, param) ∉ Sequence.occurrences program := by
    simp [program, word, Sequence.occurrences, Term.occurrences]
  have inputless : (.name, Word.input) ∉ Sequence.occurrences program := by decide
  have acyclic : Sequence.Acyclic program :=
    Sequence.acyclic_of_rank (fun text => if text = "A".toList then 1 else 0) (by decide)
  have accepts : Sink.buffer.Accepts := fun _ _ => rfl
  exact ⟨functionless, inputless, acyclic, accepts, by decide +kernel,
    acyclic_program_halts {} functionless inputless acyclic accepts⟩

end Session

end Splice
