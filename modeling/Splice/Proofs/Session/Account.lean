import Splice.Proofs.MacroTable
import Splice.Proofs.Session.Step

/-!
# The account of a step

A step may offer a text to the sink, define a macro or use a line. At most one of these happens,
and the account of a step lists what does, with the lines that the log gets about it. A text that
the sink has taken is lost by a failure in one case alone: when the callee of an application
prints and leaves no single term behind.
-/

namespace Splice

namespace Outlet

/-- What stays of lines for the log. -/
def kept (outlet : Outlet) (lines : List Text) : List Emission :=
  if outlet.sink.keepsLog then lines.map .log else []

/-- What the sink takes of a text that it is offered: all or nothing. -/
def taken (outlet : Outlet) (text : Text) : List Text :=
  if outlet.sink.verdict outlet.offered text = none then [text] else []

@[simp]
theorem kept_nil (outlet : Outlet) : outlet.kept [] = [] := by
  simp [kept]

theorem kept_append (outlet : Outlet) (first second : List Text) :
    outlet.kept (first ++ second) = outlet.kept first ++ outlet.kept second := by
  unfold kept
  split
  · exact List.map_append
  · rfl

theorem emissions_log (outlet : Outlet) (line : Text) :
    (outlet.log line).emissions = outlet.emissions ++ outlet.kept [line] := by
  unfold log kept
  split
  · simp [emissions]
  · simp

theorem taken_sublist (outlet : Outlet) (text : Text) : (outlet.taken text).Sublist [text] := by
  unfold taken
  split
  · exact .refl _
  · exact List.nil_sublist _

theorem offered_offer (outlet : Outlet) (text : Text) :
    (outlet.offer text).2.offered = text :: outlet.offered := by
  unfold offer
  dsimp only
  split <;> rfl

theorem emissions_offer (outlet : Outlet) (text : Text) :
    (outlet.offer text).2.emissions = outlet.emissions ++ (outlet.taken text).map .print := by
  unfold offer taken
  dsimp only
  cases outlet.sink.verdict outlet.offered text <;> simp [emissions]

end Outlet

/-- What comes out of a session and goes into it. -/
structure Account where
  /-- The lines for the log. -/
  logged : List Text := []
  /-- The texts offered to the sink. -/
  offered : List Text := []
  /-- The texts that the sink took. -/
  taken : List Text := []
  /-- The macros that are defined. -/
  defined : List (Text × List Term) := []
  /-- The lines that are used. -/
  used : List Text := []

namespace Account

/-- How many texts are offered, macros are defined and lines are used. -/
def size (account : Account) : Nat :=
  account.offered.length + account.defined.length + account.used.length

/-- The account lists all that came out of a session and went into it while it became another
one. -/
structure Covers (account : Account) (earlier later : Session) : Prop where
  offered : later.outlet.offered = account.offered ++ earlier.outlet.offered
  emissions : later.outlet.emissions = earlier.outlet.emissions ++
    earlier.outlet.kept account.logged ++ account.taken.map .print
  defined : later.macros.entries.Perm (account.defined ++ earlier.macros.entries)
  used : earlier.pending.toList = account.used ++ later.pending.toList

end Account

namespace Session

/-! ## Lines for the log -/

/-- One session is another one later, with lines added to the log and nothing else changed. -/
def Logs (lines : List Text) (earlier later : Session) : Prop :=
  ∃ outlet, later = { earlier with outlet := outlet } ∧ earlier.outlet.Silent outlet ∧
    outlet.emissions = earlier.outlet.emissions ++ earlier.outlet.kept lines

/-- The line for the log with which a step begins, if it begins with one. -/
def headings (session : Session) : List Text :=
  if session.settings.trace = true ∧ session.awaiting = false then
    ["[step ".toList ++ Text.ofNat (session.steps + 1) ++ "] ".toList ++
      Sequence.trace session.program]
  else []

/-- The line for the log about an event, if there is one. -/
def notes (session : Session) (event : Event) : List Text :=
  if session.settings.debug = true then [event.describe session.settings.hollow] else []

theorem Logs.refl (session : Session) : Logs [] session session :=
  ⟨session.outlet, rfl, .refl session.outlet, by simp⟩

theorem Logs.log (session : Session) (line : Text) : Logs [line] session (session.log line) :=
  ⟨session.outlet.log line, rfl, .log session.outlet line, session.outlet.emissions_log line⟩

theorem logs_announce {session : Session} (ready : session.awaiting = false) :
    Logs session.headings session session.announce := by
  unfold headings announce
  cases session.settings.trace with
  | false => simpa using Logs.refl session
  | true => simpa [ready] using Logs.log session _

theorem logs_report (session : Session) (event : Event) :
    Logs (session.notes event) session (session.report event) := by
  unfold notes report
  split
  · exact .log session _
  · exact .refl session

theorem Logs.covers {lines : List Text} {earlier later : Session}
    (logs : Logs lines earlier later) : Account.Covers { logged := lines } earlier later := by
  obtain ⟨outlet, rfl, silent, emitted⟩ := logs
  exact ⟨silent.offered, by simpa using emitted, .refl _, rfl⟩

theorem Logs.kept_eq {lines : List Text} {earlier later : Session}
    (logs : Logs lines earlier later) : later.outlet.kept = earlier.outlet.kept := by
  obtain ⟨outlet, rfl, silent, -⟩ := logs
  funext others
  simp only [Outlet.kept, silent.sink]

/-- Lines in the log may come before what an account lists. -/
theorem Logs.covers_trans {lines : List Text} {account : Account} {earlier middle later : Session}
    (logs : Logs lines earlier middle) (covers : account.Covers middle later) :
    Account.Covers { account with logged := lines ++ account.logged } earlier later := by
  have same := logs.kept_eq
  obtain ⟨outlet, rfl, silent, emitted⟩ := logs
  refine ⟨?_, ?_, covers.defined, covers.used⟩
  · rw [covers.offered, silent.offered]
  · rw [covers.emissions, emitted, same, Outlet.kept_append]
    simp only [List.append_assoc]

/-! ## Events -/

/-- The account of an event that happens to a session. -/
def account (session : Session) (event : Event) : Account :=
  let base : Account := { logged := session.notes event }
  match event with
  | .defined name body => { base with defined := [(name, body)] }
  | .received line => { base with used := [line] }
  | .printed args =>
      let text := Sequence.output session.settings.hollow args
      { base with offered := [text], taken := session.outlet.taken text }
  | .expanded _ | .expandedUnder _ | .substituted _ _ => base

theorem size_account_le (session : Session) (event : Event) : (session.account event).size ≤ 1 := by
  cases event <;> simp [account, Account.size]

theorem taken_account_sublist (session : Session) (event : Event) :
    (session.account event).taken.Sublist (session.account event).offered := by
  cases event with
  | printed args => exact session.outlet.taken_sublist _
  | defined name body => exact .refl []
  | received line => exact .refl []
  | expanded name => exact .refl []
  | expandedUnder param => exact .refl []
  | substituted param args => exact .refl []

/-- Only a text that is printed is offered. -/
theorem offered_account_cases (session : Session) (event : Event) :
    (∃ args, event = .printed args) ∨
      (session.account event).offered = [] ∧ (session.account event).taken = [] := by
  cases event with
  | printed args => exact .inl ⟨args, rfl⟩
  | defined name body => exact .inr ⟨rfl, rfl⟩
  | received line => exact .inr ⟨rfl, rfl⟩
  | expanded name => exact .inr ⟨rfl, rfl⟩
  | expandedUnder param => exact .inr ⟨rfl, rfl⟩
  | substituted param args => exact .inr ⟨rfl, rfl⟩

theorem logged_account (session : Session) (event : Event) :
    (session.account event).logged = session.notes event := by
  cases event <;> rfl

theorem covers_perform {session : Session} {event : Event}
    (allowed : event.Allowed session.scope) :
    (session.account event).Covers session (session.perform event).2 := by
  have logs := session.logs_report event
  cases event with
  | expanded name => exact logs.covers
  | expandedUnder param => exact logs.covers
  | substituted param args => exact logs.covers
  | defined name body =>
      obtain ⟨outlet, reported, silent, emitted⟩ := logs
      simp only [perform, reported]
      exact ⟨silent.offered, by simpa [account] using emitted,
        MacroTable.entries_insert_perm allowed body, rfl⟩
  | received line =>
      have pending : session.pending = some line := allowed
      obtain ⟨outlet, reported, silent, emitted⟩ := logs
      simp only [perform, reported]
      exact ⟨silent.offered, by simpa [account] using emitted, .refl _, by simp [pending, account]⟩
  | printed args =>
      obtain ⟨outlet, reported, silent, emitted⟩ := logs
      have taken : outlet.taken = session.outlet.taken := by
        funext text
        simp only [Outlet.taken, silent.sink, silent.offered]
      simp only [perform, reported]
      refine ⟨?_, ?_, .refl _, rfl⟩
      · rw [Outlet.offered_offer, silent.offered]
        rfl
      · rw [Outlet.emissions_offer, emitted, taken]
        rfl

/-! ## Steps -/

/-- What an account and the lines in the log about what happens say of a step. -/
structure Accounted (session : Session) (result : Except Error StepResult) (later : Session)
    (account : Account) (notes : List Text) : Prop where
  covers : account.Covers session later
  logged : account.logged = session.headings ++ notes
  /-- Not two of a text, a macro and a line. -/
  single : account.size ≤ 1
  taken : account.taken.Sublist account.offered
  /-- What is offered is what an application of the printing name in the program prints. -/
  printed : ∀ text ∈ account.offered, ∃ (context : Context) (args : List Term),
    context.fill? [.app (.name Word.print) args] = some session.program ∧
      args.all session.scope.isPrintable = true ∧
      text = Sequence.output session.settings.hollow args
  /-- A step that contracts a redex is counted, and the log may tell about this redex. -/
  changed : result = .ok .changed →
    later.steps = session.steps + 1 ∧
      ∃ event, ReplacesBy (Contraction session.scope event) session.program later.program ∧
        notes = session.notes event
  /-- In a step that contracts nothing, nothing happens. -/
  idle : result = .ok .converged ∨ result = .ok .awaiting → account.size = 0 ∧ notes = []
  /-- A step that fails after the sink has taken a text had a callee that printed it. -/
  lost : ∀ error, result = .error error → account.taken ≠ [] →
    ∃ args, args.all session.scope.isPrintable = true ∧ args.length ≠ 1 ∧
      account.taken = [Sequence.output session.settings.hollow args] ∧
      error = .calleeNotSingle (Term.app (.name Word.print) args).source args.length

theorem accounted_of_nothing {session later : Session} {result : Except Error StepResult}
    (covers : Account.Covers { logged := session.headings } session later)
    (unchanged : result ≠ .ok .changed) :
    Accounted session result later { logged := session.headings } [] where
  covers := covers
  logged := by simp
  single := Nat.zero_le 1
  taken := .refl []
  printed := by simp
  changed same := absurd same unchanged
  idle _ := ⟨rfl, rfl⟩
  lost _ _ some := absurd rfl some

/-- The account of a step in which an event happens. -/
def stepAccount (session : Session) (event : Event) : Account :=
  { session.account event with logged := session.headings ++ session.notes event }

theorem Logs.account_eq {lines : List Text} {earlier later : Session}
    (logs : Logs lines earlier later) (event : Event) :
    later.account event = earlier.account event := by
  obtain ⟨outlet, rfl, silent, -⟩ := logs
  cases event with
  | printed args => simp only [account, notes, Outlet.taken, silent.sink, silent.offered]
  | defined name body => rfl
  | received line => rfl
  | expanded name => rfl
  | expandedUnder param => rfl
  | substituted param args => rfl

theorem covers_of_perform {session after : Session} {event : Event} {answer : Option Error}
    (ready : session.awaiting = false)
    (happens : (Sequence.reduce session.scope session.program).event? = some event)
    (performs : session.announce.perform event = (answer, after)) :
    (session.stepAccount event).Covers session after := by
  have logs := logs_announce ready
  have same := logs.account_eq event
  have allowed : event.Allowed session.announce.scope := by
    obtain ⟨outlet, announced, -⟩ := logs
    rw [announced]
    exact Sequence.allowed_of_event happens
  have covers := logs.covers_trans (covers_perform allowed)
  rwa [same, logged_account, performs] at covers

/-- A step in which an event happens is accounted for, given how the step ends. -/
theorem accounted_of_event {session later : Session} {result : Except Error StepResult}
    {event : Event}
    (happens : (Sequence.reduce session.scope session.program).event? = some event)
    (covers : (session.stepAccount event).Covers session later)
    (moves : result ≠ .ok .converged ∧ result ≠ .ok .awaiting)
    (changed : result = .ok .changed → later.steps = session.steps + 1 ∧
      ReplacesBy (Contraction session.scope event) session.program later.program)
    (lost : ∀ error args, result = .error error → event = .printed args →
      (session.stepAccount event).taken ≠ [] → args.length ≠ 1 ∧
        error = .calleeNotSingle (Term.app (.name Word.print) args).source args.length) :
    Accounted session result later (session.stepAccount event) (session.notes event) where
  covers := covers
  logged := rfl
  single := session.size_account_le event
  taken := session.taken_account_sublist event
  printed := by
    intro text member
    rcases session.offered_account_cases event with ⟨args, rfl⟩ | ⟨nothing, -⟩
    · obtain ⟨context, filled⟩ := (Sequence.holds_of_printed happens).exists_context
      have printable := Sequence.allowed_of_event happens
      exact ⟨context, args, filled, printable, List.mem_singleton.mp member⟩
    · rw [stepAccount, nothing] at member
      cases member
  changed same := ⟨(changed same).1, event, (changed same).2, rfl⟩
  idle same := by
    rcases same with converged | awaits
    · exact absurd converged moves.1
    · exact absurd awaits moves.2
  lost := by
    intro error fails some
    rcases session.offered_account_cases event with ⟨args, rfl⟩ | ⟨-, nothing⟩
    · obtain ⟨count, same⟩ := lost error args fails rfl some
      refine ⟨args, Sequence.allowed_of_event happens, count, ?_, same⟩
      simp only [stepAccount, account, Outlet.taken] at some ⊢
      split
      · rfl
      · rename_i refused
        rw [if_neg refused] at some
        exact absurd rfl some
    · exact absurd nothing some

/-- A text that is refused is not taken. -/
theorem taken_of_refusal {session after : Session} {event : Event} {refusal : Error}
    (refuses : session.perform event = (some refusal, after)) :
    (session.account event).taken = [] := by
  obtain ⟨args, rfl⟩ := exists_printed_of_refusal refuses
  obtain ⟨outlet, reported, silent, -⟩ := session.logs_report (.printed args)
  simp only [perform, reported, Outlet.offer, silent.sink, silent.offered] at refuses
  simp only [account, Outlet.taken]
  split
  · rename_i accepted
    rw [accepted] at refuses
    cases refuses
  · rfl

/-- Every step is accounted for: it offers one text, defines one macro or uses one line at most
and never does two of these; what it offers is what the printing name prints; it is counted and
logged as one contraction when it makes one, and nothing happens in it when it converges or waits;
and it fails after the sink has taken a text only when a callee has printed another number of
terms than one. -/
theorem step_accounts (session : Session) :
    ∃ account notes, session.Accounted session.step.1 session.step.2 account notes := by
  have stepped := session.step_stepped
  generalize session.step.1 = result at stepped ⊢
  generalize session.step.2 = later at stepped ⊢
  cases stepped with
  | waiting waits =>
      have nothing : session.headings = [] := by simp [headings, waits]
      have covers : Account.Covers { logged := session.headings } session session := by
        rw [nothing]
        exact (Logs.refl session).covers
      exact ⟨_, _, accounted_of_nothing covers (by simp)⟩
  | converged ready outcome =>
      exact ⟨_, _, accounted_of_nothing (logs_announce ready).covers (by simp)⟩
  | asking ready outcome =>
      have covers := (logs_announce ready).covers
      exact ⟨_, _, accounted_of_nothing
        ⟨covers.offered, covers.emissions, covers.defined, covers.used⟩ (by simp)⟩
  | failed ready outcome =>
      exact ⟨_, _, accounted_of_nothing (logs_announce ready).covers (by simp)⟩
  | @changed event next after ready outcome performs =>
      have happens := Outcome.event?_of_changed outcome
      have covers := covers_of_perform ready happens performs
      refine ⟨_, _, accounted_of_event happens
        ⟨covers.offered, covers.emissions, covers.defined, covers.used⟩ (by simp) ?_ (by simp)⟩
      intro _
      have counted := (alongside_of_perform performs).steps
      exact ⟨congrArg (· + 1) counted, Sequence.reduce_replaces outcome⟩
  | @failedAfter event error after ready outcome performs =>
      have happens := Outcome.event?_of_failed outcome
      have covers := covers_of_perform ready happens performs
      refine ⟨_, _, accounted_of_event happens covers (by simp) (by simp) ?_⟩
      rintro _ args ⟨⟩ rfl -
      cases Sequence.failure_of_reduce outcome with
      | severalTerms undefining contracts count =>
          cases contracts with
          | printing printable => exact ⟨count, rfl⟩
  | @refused event refusal after ready outcome performs =>
      have covers := covers_of_perform ready outcome performs
      refine ⟨_, _, accounted_of_event outcome covers (by simp) (by simp) ?_⟩
      intro _ args _ _ some
      have nothing := taken_of_refusal performs
      rw [(logs_announce ready).account_eq] at nothing
      exact absurd nothing some

/-- A callee prints two terms, and the step fails after the sink has taken them. -/
theorem step_accounts_of_printing_callee :
    let args : List Term := [.literal "PoHiop".toList, .literal "PoYoop".toList]
    let session := new [.name "F".toList, .app (.app (.name Word.print) args) []]
      { debug := true, trace := true } .buffer
    session.step.1 =
        .error (.calleeNotSingle "pooping Print poopy PoHiop PoYoop qooq".toList 2) ∧
      session.step.2.outlet.prints = ["HiYo".toList] ∧
      session.step.2.outlet.logLines.length = 2 ∧
      ∃ account notes, session.Accounted session.step.1 session.step.2 account notes := by
  intro args session
  exact ⟨rfl, rfl, rfl, session.step_accounts⟩

end Session

end Splice
