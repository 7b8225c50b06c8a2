import Splice.Proofs.Session.Indifference
import Splice.Proofs.Session.Strategy
import Splice.Proofs.Substitution

/-!
# The argument of a function

Under the lazy strategy the arguments of a function are not looked at before they are substituted:
macros are expanded in the body, one at a step, and then the arguments take the place of the
parameter, whatever they are. Under the other strategy they are reduced where they stand, as they
would be by themselves, and what comes of them is substituted.
-/

namespace Splice

section Expansions

variable {macros : MacroTable} {body : List Term} {bodies : List (List Term)} {fuel : Nat}
  {finished : Bool}

/-- Expansions stop for want of fuel or of macros, or go on from the sequence after the first. -/
theorem Sequence.expansions_cases
    (expands : Sequence.expansions macros fuel body = (bodies, finished)) :
    (bodies = [] ∧ finished = false) ∨
    (bodies = [] ∧ Sequence.expand? macros body = none) ∨
    ∃ fewer expanded more, bodies = expanded :: more ∧
      Sequence.expand? macros body = some expanded ∧
      Sequence.expansions macros fewer expanded = (more, finished) := by
  cases fuel with
  | zero =>
      cases expands
      exact .inl ⟨rfl, rfl⟩
  | succ fewer =>
      rw [expansions] at expands
      cases found : Sequence.expand? macros body with
      | none =>
          rw [found] at expands
          cases expands
          exact .inr (.inl ⟨rfl, rfl⟩)
      | some expanded =>
          cases rest : Sequence.expansions macros fewer expanded with
          | mk more complete =>
              simp only [found, rest] at expands
              cases expands
              exact .inr (.inr ⟨fewer, expanded, more, rfl, rfl, rest⟩)

/-- Each of the sequences is the expansion of the one before. -/
theorem Sequence.expand?_of_expansions
    (expands : Sequence.expansions macros fuel body = (bodies, finished)) {count : Nat}
    {first second : List Term} (here : (body :: bodies)[count]? = some first)
    (next : bodies[count]? = some second) : Sequence.expand? macros first = some second := by
  induction count generalizing fuel body bodies with
  | zero =>
      rcases expansions_cases expands with ⟨rfl, -⟩ | ⟨rfl, -⟩ | ⟨_, _, _, rfl, found, -⟩
      · cases next
      · cases next
      · cases here
        cases next
        exact found
  | succ count ih =>
      rcases expansions_cases expands with ⟨rfl, -⟩ | ⟨rfl, -⟩ | ⟨_, _, _, rfl, -, rest⟩
      · cases next
      · cases next
      · exact ih rest here next

theorem Sequence.expand?_last (expands : Sequence.expansions macros fuel body = (bodies, true)) :
    Sequence.expand? macros (bodies.getLast?.getD body) = none := by
  induction bodies generalizing fuel body with
  | nil =>
      rcases expansions_cases expands with ⟨-, ⟨⟩⟩ | ⟨-, settled⟩ | ⟨_, _, _, ⟨⟩, -⟩
      exact settled
  | cons expanded more ih =>
      rcases expansions_cases expands with ⟨⟨⟩, -⟩ | ⟨⟨⟩, -⟩ | ⟨_, _, _, ⟨⟩, -, rest⟩
      rw [List.getLast?_cons, Option.getD_some]
      exact ih rest

end Expansions

namespace Session

/-- The session after so many steps, provided that each of them contracts a redex. -/
def advance? (session : Session) : Nat → Option Session
  | 0 => some session
  | count + 1 =>
      (session.advance? count).bind fun middle =>
        match middle.step with
        | (.ok .changed, later) => some later
        | _ => none

theorem advance?_succ_eq_some_iff {session later : Session} {count : Nat} :
    session.advance? (count + 1) = some later ↔
      ∃ middle, session.advance? count = some middle ∧ middle.step.1 = .ok .changed ∧
        middle.step.2 = later := by
  rw [advance?, Option.bind_eq_some_iff]
  apply exists_congr
  intro middle
  rcases middle.step with ⟨error | (_ | _ | _), after⟩ <;> simp

/-! ## Steps at an application -/

theorem Silent.step_of_internal {base session : Session} {event : Event} {next : List Term}
    (silent : base.Silent session) (ready : base.awaiting = false)
    (outcome : Sequence.reduce base.scope base.program = .changed event next)
    (internal : event.Internal) :
    session.step.1 = .ok .changed ∧
      Silent { base with program := next, steps := base.steps + 1 } session.step.2 := by
  obtain ⟨outlet, rfl, quiet⟩ := silent
  obtain ⟨changes, outlet', becomes, later⟩ :=
    @Session.step_of_internal { base with outlet := outlet } event next ready outcome internal
  exact ⟨changes, outlet', becomes, quiet.trans later⟩

section Application

variable {base session : Session} {front body args back : List Term} {param : Text}

/-- A step that expands a macro in the body of a function, in front of its arguments. -/
theorem Silent.step_expands {expanded : List Term} (silent : base.Silent session)
    (ready : base.awaiting = false)
    (program : base.program = front ++ .app (.lam param body) args :: back)
    (quiet : Sequence.reduce base.scope front = .stuck)
    (expands : Sequence.expand? base.macros body = some expanded) :
    session.step.1 = .ok .changed ∧
      Silent { base with
        program := front ++ .app (.lam param expanded) args :: back
        steps := base.steps + 1 } session.step.2 := by
  have leads : Context.Leads base.scope [.lam param body]
      (.beside front (.inCallee .hole args) back) base.program := by
    rw [program, List.append_cons]
    exact .beside quiet (.inCallee (by simp) .here args) back
  have outcome := leads.reduce_of_fires (.expansionUnder expands)
  have filled : (Context.beside front (.inCallee .hole args) back).fill? [.lam param expanded] =
      some (front ++ .app (.lam param expanded) args :: back) := by
    simp [Context.fill?]
  rw [Outcome.inside, filled] at outcome
  exact silent.step_of_internal ready outcome True.intro

/-- A step that applies a function to its arguments. -/
theorem Silent.step_substitutes (silent : base.Silent session) (ready : base.awaiting = false)
    (program : base.program = front ++ .app (.lam param body) args :: back)
    (quiet : Sequence.reduce base.scope front = .stuck)
    (settled : Sequence.expand? base.macros body = none)
    (takes : base.settings.strategy = .lazy ∨ Sequence.mentionsPrint body = true ∨
      Sequence.reduce base.scope args = .stuck) :
    session.step.1 = .ok .changed ∧
      Silent { base with
        program := front ++ Sequence.substitute param args body ++ back
        steps := base.steps + 1 } session.step.2 := by
  have leads : Context.Leads base.scope [.app (.lam param body) args]
      (.beside front .hole back) base.program := by
    rw [program, List.append_cons]
    exact .beside quiet .here back
  have outcome := leads.reduce_of_fires (.substitution settled takes)
  exact silent.step_of_internal ready outcome True.intro

end Application

/-! ## Lazy application -/

section Lazy

variable {session : Session} {front body args back : List Term} {param : Text} {fuel : Nat}
  {bodies : List (List Term)}

/-- The macros in the body are expanded one after the other, in front of any arguments. -/
theorem exists_advance_of_expansions {finished : Bool}
    (program : session.program = front ++ .app (.lam param body) args :: back)
    (ready : session.awaiting = false) (quiet : Sequence.reduce session.scope front = .stuck)
    (expands : Sequence.expansions session.macros fuel body = (bodies, finished)) {count : Nat}
    {expanded : List Term} (listed : (body :: bodies)[count]? = some expanded) :
    ∃ later, session.advance? count = some later ∧
      Silent { session with
        program := front ++ .app (.lam param expanded) args :: back
        steps := session.steps + count } later := by
  induction count generalizing expanded with
  | zero =>
      cases listed
      rw [← program]
      exact ⟨session, rfl, .refl session⟩
  | succ count ih =>
      have below : count < (body :: bodies).length := by
        have next := (List.getElem?_eq_some_iff.mp listed).1
        omega
      have previous := List.getElem?_eq_getElem below
      have found := Sequence.expand?_of_expansions expands previous listed
      obtain ⟨middle, advances, silent⟩ := ih previous
      obtain ⟨changes, later⟩ := silent.step_expands ready rfl quiet found
      exact ⟨_, advance?_succ_eq_some_iff.mpr ⟨middle, advances, changes, rfl⟩, later⟩

/-- After that the arguments are substituted as they are. -/
theorem exists_advance_of_lazy
    (program : session.program = front ++ .app (.lam param body) args :: back)
    (lazy : session.settings.strategy = .lazy) (ready : session.awaiting = false)
    (quiet : Sequence.reduce session.scope front = .stuck)
    (expands : Sequence.expansions session.macros fuel body = (bodies, true)) :
    ∃ later, session.advance? (bodies.length + 1) = some later ∧
      Silent { session with
        program := front ++ Sequence.substitute param args (bodies.getLast?.getD body) ++ back
        steps := session.steps + (bodies.length + 1) } later := by
  have listed : (body :: bodies)[bodies.length]? = some (bodies.getLast?.getD body) := by
    rw [← List.getLast?_cons, List.getLast?_eq_getElem?]
    rfl
  obtain ⟨middle, advances, silent⟩ :=
    exists_advance_of_expansions program ready quiet expands listed
  have settled := Sequence.expand?_last expands
  obtain ⟨changes, later⟩ := silent.step_substitutes ready rfl quiet settled (.inl lazy)
  exact ⟨_, advance?_succ_eq_some_iff.mpr ⟨middle, advances, changes, rfl⟩, later⟩

theorem drained_eq_of_silent {base later later' : Session} (silent : base.Silent later)
    (silent' : base.Silent later') : later.drained = later'.drained := by
  obtain ⟨outlet, rfl, same⟩ := silent
  obtain ⟨outlet', rfl, same'⟩ := silent'
  simp only [drained, Outlet.drained, same.sink, same.offered, same'.sink, same'.offered]

theorem history_eq_of_silent {base later later' : Session} (silent : base.Silent later)
    (silent' : base.Silent later') (fuel : Nat) (actions : List Action) :
    later.history fuel actions = later'.history fuel actions := by
  have paired : Paired id base.settings.maxSteps base.settings.maxSteps base base :=
    ⟨.refl base, rfl, rfl⟩
  have seen := (paired.silent silent silent').history_eq fuel actions
  rwa [Sighting.blurred_id, List.map_id, List.map_id] at seen

/-- A lazy session expands the macros in the body of a function and then substitutes the arguments.
It writes nothing until then and keeps its macros and a pending line, whatever the arguments are.
If the parameter is not free in the body, then nothing is left of them: sessions with other
arguments are at the same point, and a host sees the same of them from there on. -/
theorem lazy_application_ignores_arguments (lazy : session.settings.strategy = .lazy)
    (ready : session.awaiting = false) (quiet : Sequence.reduce session.scope front = .stuck)
    (expands : Sequence.expansions session.macros fuel body = (bodies, true)) (param : Text)
    (back : List Term) :
    let start (args : List Term) := session.running (front ++ .app (.lam param body) args :: back)
    let settled := bodies.getLast?.getD body
    (∀ args count expanded, (body :: bodies)[count]? = some expanded →
      ∃ during, (start args).advance? count = some during ∧
        Silent { session with
          program := front ++ .app (.lam param expanded) args :: back
          steps := session.steps + count } during) ∧
    (∀ args, ∃ later, (start args).advance? (bodies.length + 1) = some later ∧
      Silent { session with
        program := front ++ Sequence.substitute param args settled ++ back
        steps := session.steps + (bodies.length + 1) } later) ∧
    (Sequence.hasFree param settled = false → ∀ args args', ∃ later later',
      (start args).advance? (bodies.length + 1) = some later ∧
      (start args').advance? (bodies.length + 1) = some later' ∧
      later.drained = later'.drained ∧
      ∀ fuel actions, later.history fuel actions = later'.history fuel actions) := by
  intro start settled
  have begun : ∀ args, (start args).program = front ++ .app (.lam param body) args :: back := by
    intro args
    rfl
  have lands : ∀ args, ∃ later, (start args).advance? (bodies.length + 1) = some later ∧
      Silent { session with
        program := front ++ Sequence.substitute param args settled ++ back
        steps := session.steps + (bodies.length + 1) } later := by
    intro args
    exact exists_advance_of_lazy (begun args) lazy ready quiet expands
  refine ⟨?_, lands, ?_⟩
  · intro args count expanded listed
    exact exists_advance_of_expansions (begun args) ready quiet expands listed
  · intro unused args args'
    obtain ⟨later, advances, silent⟩ := lands args
    obtain ⟨later', advances', silent'⟩ := lands args'
    rw [Sequence.substitute_eq_self unused] at silent silent'
    exact ⟨later, later', advances, advances', drained_eq_of_silent silent silent',
      history_eq_of_silent silent silent'⟩

/-- Neither a request for a line nor a loop does anything in an argument that is not used. -/
theorem lazy_application_ignores_request_and_loop :
    let macros := MacroTable.empty.insert "M".toList [.literal "PoOKop".toList]
    let session : Session :=
      { program := [], macros := macros, settings := {}, outlet := { sink := .buffer } }
    let twice : Term := .lam "y".toList [.app (.name "y".toList) [.name "y".toList]]
    let start (args : List Term) :=
      session.running [.app (.lam "x".toList [.name "M".toList]) args]
    Sequence.expansions macros 2 [.name "M".toList] = ([[.literal "PoOKop".toList]], true) ∧
      ∃ later later',
        (start [.name Word.input]).advance? 2 = some later ∧
        (start [.app twice [twice]]).advance? 2 = some later' ∧
        later.drained = later'.drained ∧
        ∀ fuel actions, later.history fuel actions = later'.history fuel actions := by
  intro macros session twice start
  have expands : Sequence.expansions macros 2 [.name "M".toList] =
      ([[.literal "PoOKop".toList]], true) := by
    rfl
  have lazy : session.settings.strategy = .lazy := by
    rfl
  have quiet : Sequence.reduce session.scope [] = .stuck := by
    rfl
  obtain ⟨-, -, ignored⟩ :=
    lazy_application_ignores_arguments lazy rfl quiet expands "x".toList []
  exact ⟨expands, ignored rfl [.name Word.input] [.app twice [twice]]⟩

end Lazy

end Session

/-! ## Stages of the arguments -/

/-- Under the other strategy a program is reduced as the arguments of a function are, if there is
nothing to do before them. -/
theorem Sequence.reduce_in_arguments {scope : Scope} {front body args : List Term}
    (legacy : scope.strategy = .legacy) (silent : Sequence.mentionsPrint body = false)
    (quiet : Sequence.reduce scope front = .stuck)
    (settled : Sequence.expand? scope.macros body = none)
    (moves : Sequence.reduce scope args ≠ .stuck) (param : Text) (back : List Term) :
    Sequence.reduce scope (front ++ .app (.lam param body) args :: back) =
      (Sequence.reduce scope args).within fun next =>
        front ++ .app (.lam param body) next :: back := by
  have defers : Term.Defers scope (.lam param body) := by
    rintro _ _ ⟨⟩
    exact ⟨by simp [legacy], silent⟩
  have leads : Context.Leads scope args (.beside front (.inArgs (.lam param body) .hole) back)
      (front ++ .app (.lam param body) args :: back) := by
    rw [List.append_cons]
    apply Context.Leads.beside quiet
    exact .inArgs ((Term.reduce_lam_eq_stuck_iff param body).mpr settled) defers .here
  have fills : ∀ terms,
      (Context.beside front (.inArgs (.lam param body) .hole) back).fill? terms =
        (Context.hole.fill? terms).map
          fun next => front ++ .app (.lam param body) next :: back := by
    intro terms
    simp [Context.fill?]
  rw [leads.reduce_eq moves, Outcome.inside_within fills, Outcome.inside_hole]

theorem Event.leave_of_allowed {event : Event} {scope : Scope} (allowed : event.Allowed scope)
    (nothing : scope.pending = none) (lines : List Text) : event.leave lines = lines := by
  cases event with
  | received line =>
      rw [Event.Allowed, nothing] at allowed
      cases allowed
  | defined name body => rfl
  | expanded name => rfl
  | expandedUnder param => rfl
  | substituted param args => rfl
  | printed args => rfl

namespace Stage

/-- The stage of a program that a smaller one is a part of, with what was printed before and lines
that the smaller one does without. -/
def hosted (place : List Term → List Term) (printed lines : List Text) (stage : Stage) : Stage where
  program := place stage.program
  macros := stage.macros
  prints := printed ++ stage.prints
  lines := lines

/-- At this stage a program is reduced as its part is, whatever the next line. -/
def GivesWay (settings : Settings) (place : List Term → List Term) (stage : Stage) : Prop :=
  ∀ pending, Sequence.reduce ⟨settings.strategy, stage.macros, pending⟩ stage.program ≠ .stuck →
    Sequence.reduce ⟨settings.strategy, stage.macros, pending⟩ (place stage.program) =
      (Sequence.reduce ⟨settings.strategy, stage.macros, pending⟩ stage.program).within place

variable {settings : Settings} {place : List Term → List Term} {stage : Stage}

/-- A contraction in the part, without a line, is one in the whole. -/
theorem next?_hosted {later : Stage} (gives : stage.GivesWay settings place)
    (without : stage.lines = []) (next : stage.next? settings = some later)
    (printed lines : List Text) :
    (stage.hosted place printed lines).next? settings =
        some (later.hosted place printed lines) ∧
      later.lines = [] := by
  unfold next? at next
  rw [without] at next
  split at next
  · rename_i event result outcome
    have outcome : Sequence.reduce ⟨settings.strategy, stage.macros, none⟩ stage.program =
        .changed event result := outcome
    have allowed := Sequence.allowed_of_event (Outcome.event?_of_changed outcome)
    have anyway : Sequence.reduce ⟨settings.strategy, stage.macros, lines.head?⟩ stage.program =
        .changed event result :=
      (Sequence.reduce_with_pending rfl (by simp [outcome]) lines.head?).trans outcome
    have inWhole := gives lines.head? (by simp [anyway])
    rw [anyway] at inWhole
    have leaves := Event.leave_of_allowed allowed rfl
    cases next
    refine ⟨?_, leaves []⟩
    simp only [next?, hosted, inWhole, Outcome.within, leaves, List.append_assoc]
  · cases next

/-- So is a run of the part. -/
theorem after?_hosted {count : Nat} {final : Stage} (without : stage.lines = [])
    (gives : ∀ earlier middle, earlier < count → stage.after? settings earlier = some middle →
      middle.GivesWay settings place)
    (runs : stage.after? settings count = some final) (printed lines : List Text) :
    (stage.hosted place printed lines).after? settings count =
        some (final.hosted place printed lines) ∧
      final.lines = [] := by
  -- That no line has come up is carried along: a pending one is for the whole alone.
  induction count generalizing final with
  | zero =>
      cases runs
      exact ⟨rfl, without⟩
  | succ count ih =>
      obtain ⟨middle, reaches, next⟩ := Option.bind_eq_some_iff.mp runs
      have givesBelow : ∀ earlier middle, earlier < count →
          stage.after? settings earlier = some middle → middle.GivesWay settings place :=
        fun earlier middle below => gives earlier middle (by omega)
      obtain ⟨hosts, lineless⟩ := ih givesBelow reaches
      have givesNow := gives count middle (by omega) reaches
      obtain ⟨hosting, still⟩ := next?_hosted givesNow lineless next printed lines
      refine ⟨?_, still⟩
      rw [after?, hosts]
      exact hosting

end Stage

namespace Session

/-! ## Runs and stages -/

section Advance

variable {session later : Session} {count : Nat}

theorem awaiting_of_changed (changes : session.step.1 = .ok .changed) :
    session.step.2.awaiting = false := by
  have stepped := session.step_stepped
  rw [changes] at stepped
  generalize session.step.2 = later at stepped ⊢
  cases stepped with
  | changed ready outcome performs => exact (alongside_of_perform performs).awaiting.trans ready

theorem changed_of_reduce {event : Event} {next : List Term} (ready : session.awaiting = false)
    (accepts : session.outlet.sink.Accepts)
    (outcome : Sequence.reduce session.scope session.program = .changed event next) :
    session.step.1 = .ok .changed := by
  have performed := perform_of_accepts accepts event
  rw [step_eq_reduce session ready, reduce_announce, outcome, conclude, settle]
  generalize session.announce.perform event = performing at performed
  obtain ⟨answer, after⟩ := performing
  cases performed
  rfl

theorem next?_of_changed (accepts : session.outlet.sink.Accepts)
    (changes : session.step.1 = .ok .changed) :
    (session.stage []).next? session.settings = some (session.step.2.stage []) := by
  have counts := steps_of_changed changes
  rcases stage_step accepts changes [] with ⟨-, next⟩ | ⟨idle, -⟩
  · exact next
  · omega

theorem changed_of_next? {stage : Stage} (ready : session.awaiting = false)
    (accepts : session.outlet.sink.Accepts)
    (next : (session.stage []).next? session.settings = some stage) :
    session.step.1 = .ok .changed := by
  have line : (session.stage []).lines.head? = session.pending := by
    rw [Session.stage, List.append_nil, Option.head?_toList]
  unfold Stage.next? at next
  rw [line] at next
  split at next
  · rename_i event result outcome
    exact changed_of_reduce ready accepts outcome
  · cases next

/-- The stages of a session whose steps all contract a redex. -/
theorem after?_of_advance? (accepts : session.outlet.sink.Accepts)
    (ready : session.awaiting = false) (advances : session.advance? count = some later) :
    (session.stage []).after? session.settings count = some (later.stage []) ∧
      later.settings = session.settings ∧ later.outlet.sink = session.outlet.sink ∧
      later.awaiting = false := by
  induction count generalizing later with
  | zero =>
      cases advances
      exact ⟨rfl, rfl, rfl, ready⟩
  | succ count ih =>
      obtain ⟨middle, reaches, changes, rfl⟩ := advance?_succ_eq_some_iff.mp advances
      obtain ⟨staged, settings, sink, -⟩ := ih reaches
      obtain ⟨chosen, given⟩ := middle.step_settings_sink
      have taking : middle.outlet.sink.Accepts := by
        rw [sink]
        exact accepts
      have next := next?_of_changed taking changes
      rw [settings] at next
      refine ⟨?_, chosen.trans settings, given.trans sink, awaiting_of_changed changes⟩
      rw [Stage.after?, staged]
      exact next

theorem exists_advance_of_after? {stage : Stage} (accepts : session.outlet.sink.Accepts)
    (ready : session.awaiting = false)
    (reaches : (session.stage []).after? session.settings count = some stage) :
    ∃ later, session.advance? count = some later ∧ later.stage [] = stage := by
  induction count generalizing stage with
  | zero => exact ⟨session, rfl, Option.some.inj reaches⟩
  | succ count ih =>
      obtain ⟨_, reaches, next⟩ := Option.bind_eq_some_iff.mp reaches
      obtain ⟨middle, advances, rfl⟩ := ih reaches
      obtain ⟨-, settings, sink, idle⟩ := after?_of_advance? accepts ready advances
      have taking : middle.outlet.sink.Accepts := by
        rw [sink]
        exact accepts
      rw [← settings] at next
      have changes := changed_of_next? idle taking next
      rw [next?_of_changed taking changes] at next
      exact ⟨_, advance?_succ_eq_some_iff.mpr ⟨middle, advances, changes, rfl⟩,
        Option.some.inj next⟩

end Advance

/-! ## Application under the other strategy -/

/-- A session that begins with terms by themselves, with the macros and the settings of another
one, and without a line. -/
def apart (session : Session) (terms : List Term) (sink : Sink) : Session where
  program := terms
  macros := session.macros
  settings := session.settings
  outlet := { sink := sink }

section Legacy

variable {session : Session} {front body args back : List Term} {param : Text} {sink : Sink}
  {count : Nat}

theorem stage_hosted (program : session.program = front ++ .app (.lam param body) args :: back) :
    session.stage [] = ((session.apart args sink).stage []).hosted
      (fun next => front ++ .app (.lam param body) next :: back) session.outlet.prints
      session.pending.toList := by
  have nothing : (session.apart args sink).outlet.prints = [] := rfl
  simp only [Session.stage, Stage.hosted, nothing, program, List.append_nil]
  rfl

/-- In this many steps terms stay stuck, and a body stays without macros. -/
def Spares (session : Session) (front body : List Term) (count : Nat) : Prop :=
  ∀ earlier middle, earlier ≤ count → session.advance? earlier = some middle →
    Sequence.reduce middle.scope front = .stuck ∧ Sequence.expand? middle.macros body = none

/-- A session has come to a program, with the macros of another session and with what that one has
printed after its own texts. -/
structure Hosts (origin inner : Session) (program : List Term) (during : Session) : Prop where
  program : during.program = program
  macros : during.macros = inner.macros
  prints : during.outlet.prints = origin.outlet.prints ++ inner.outlet.prints
  pending : during.pending = origin.pending

/-- As long as nothing is to be done before the arguments, they run as they do by themselves. -/
theorem exists_hosts_of_apart (legacy : session.settings.strategy = .legacy)
    (ready : session.awaiting = false) (accepts : session.outlet.sink.Accepts)
    (program : session.program = front ++ .app (.lam param body) args :: back)
    (silent : Sequence.mentionsPrint body = false) (takes : sink.Accepts)
    (spares : (session.apart args sink).Spares front body count) {middle : Session}
    (runs : (session.apart args sink).advance? count = some middle) :
    ∃ during, session.advance? count = some during ∧
      session.Hosts middle (front ++ .app (.lam param body) middle.program :: back) during := by
  obtain ⟨staged, -⟩ := after?_of_advance? takes rfl runs
  have gives : ∀ earlier stage, earlier < count →
      ((session.apart args sink).stage []).after? (session.apart args sink).settings earlier =
        some stage →
      stage.GivesWay session.settings fun next => front ++ .app (.lam param body) next :: back := by
    intro earlier stage below reaches pending moves
    obtain ⟨there, advances, rfl⟩ := exists_advance_of_after? takes rfl reaches
    obtain ⟨quiet, settled⟩ := spares earlier there (Nat.le_of_lt below) advances
    apply Sequence.reduce_in_arguments legacy silent ?_ settled moves
    exact Sequence.reduce_eq_stuck_of_macros quiet rfl
  obtain ⟨hosted, -⟩ :=
    Stage.after?_hosted rfl gives staged session.outlet.prints session.pending.toList
  rw [← stage_hosted program] at hosted
  obtain ⟨during, advances, same⟩ := exists_advance_of_after? accepts ready hosted
  injection same with programs macros prints lines
  have pending := congrArg List.head? lines
  rw [List.append_nil, Option.head?_toList, Option.head?_toList] at pending
  exact ⟨during, advances, programs, macros, prints, pending⟩

/-- The arguments of a function that does not print are run as they would be by themselves, with
the macros of the session and without a line, and what comes of them is substituted. They print
what they would print by themselves, once, however often the parameter stands in the body. -/
theorem legacy_application_runs_arguments_once (legacy : session.settings.strategy = .legacy)
    (ready : session.awaiting = false) (accepts : session.outlet.sink.Accepts)
    (program : session.program = front ++ .app (.lam param body) args :: back)
    (silent : Sequence.mentionsPrint body = false) (takes : sink.Accepts)
    (spares : (session.apart args sink).Spares front body count) {final : Session}
    (runs : (session.apart args sink).advance? count = some final)
    (ends : final.step.1 = .ok .converged) :
    (∀ earlier middle, earlier ≤ count →
      (session.apart args sink).advance? earlier = some middle →
        ∃ during, session.advance? earlier = some during ∧
          session.Hosts middle (front ++ .app (.lam param body) middle.program :: back)
            during) ∧
    ∃ later, session.advance? (count + 1) = some later ∧
      session.Hosts final (front ++ Sequence.substitute param final.program body ++ back)
        later := by
  constructor
  · intro earlier middle below reaches
    have sparing : (session.apart args sink).Spares front body earlier :=
      fun first there sooner => spares first there (Nat.le_trans sooner below)
    exact exists_hosts_of_apart legacy ready accepts program silent takes sparing reaches
  · obtain ⟨during, advances, hosts⟩ :=
      exists_hosts_of_apart legacy ready accepts program silent takes spares runs
    obtain ⟨-, -, -, idle⟩ := after?_of_advance? accepts ready advances
    obtain ⟨-, -, -, finished⟩ := after?_of_advance? takes rfl runs
    obtain ⟨quiet, settled⟩ := spares count final (Nat.le_refl count) runs
    -- Whether terms are stuck depends on the macros alone, and these are the same in both sessions.
    have normal := (step_eq_converged_iff finished).mp ends
    have passed : Sequence.reduce during.scope front = .stuck :=
      Sequence.reduce_eq_stuck_of_macros quiet hosts.macros
    have taken : Sequence.reduce during.scope final.program = .stuck :=
      Sequence.reduce_eq_stuck_of_macros normal hosts.macros
    rw [← hosts.macros] at settled
    obtain ⟨changes, outlet, same, quiets⟩ :=
      (Silent.refl during).step_substitutes idle hosts.program passed settled (.inr (.inr taken))
    refine ⟨_, advance?_succ_eq_some_iff.mpr ⟨during, advances, changes, rfl⟩, ?_⟩
    rw [same]
    exact ⟨rfl, hosts.macros, quiets.prints.trans hosts.prints, hosts.pending⟩

/-- An argument defines a macro, prints a text and is copied then. -/
theorem legacy_application_prints_once :
    let print : Term := .app (.name Word.print) [.literal "PoAop".toList]
    let define : Term := .define "M".toList [.literal "PoBop".toList]
    let twice : Term := .lam "x".toList [.name "x".toList, .name "x".toList]
    let session := new [.name "N".toList, .app twice [define, print], .name "M".toList]
      { strategy := .legacy } .buffer
    ∃ later, session.advance? 3 = some later ∧
      later.program = [.name "N".toList, .literal "PoAop".toList, .literal "PoAop".toList,
        .name "M".toList] ∧
      later.outlet.prints = ["A".toList] := by
  intro print define twice session
  have accepts : Sink.buffer.Accepts := fun _ _ => rfl
  let final : Session := ((session.apart [define, print] .buffer).advance? 2).getD session
  have runs : (session.apart [define, print] .buffer).advance? 2 = some final := by
    rfl
  have ends : final.step.1 = .ok .converged := by
    rfl
  have spares : (session.apart [define, print] .buffer).Spares [.name "N".toList]
      [.name "x".toList, .name "x".toList] 2 := by
    intro earlier middle below reaches
    obtain rfl | rfl | rfl : earlier = 0 ∨ earlier = 1 ∨ earlier = 2 := by omega
    · cases reaches
      exact ⟨rfl, rfl⟩
    · cases reaches
      exact ⟨rfl, rfl⟩
    · cases reaches
      exact ⟨rfl, rfl⟩
  obtain ⟨-, later, advances, hosts⟩ :=
    legacy_application_runs_arguments_once rfl rfl accepts rfl rfl accepts spares runs ends
  exact ⟨later, advances, hosts.program, hosts.prints⟩

end Legacy

end Session

end Splice
