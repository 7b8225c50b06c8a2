import Splice.Proofs.Grammar.Trace
import Splice.Proofs.Reduction.Texts
import Splice.Proofs.Session.Course
import Splice.Proofs.Session.Step

/-!
# Provenance

Every text in a session has come into its place from the program at the start or from a line that
the session has taken, but for names with a space. So what reading a program guarantees about the
texts in it holds all along, and in particular no parameter ever names a macro.
-/

namespace Splice

/-- Whether a text has come into its place from a program or from lines. A name with a space may
also be what a callee of several terms has collapsed into. -/
def Known (program : List Term) (lines : List Text) (role : Role) (text : Text) : Prop :=
  (role, text) ∈ Sequence.occurrences program ∨
  (∃ line ∈ lines, ∃ terms, Sequence.parse Scope.lineName line = .ok terms ∧
    (role, text) ∈ Sequence.occurrences terms) ∨
  role = .name ∧ ' ' ∈ text

theorem MacroTable.mem_names_of_contains {table : MacroTable} {name : Text}
    (known : table.contains name = true) : name ∈ table.names := by
  obtain ⟨entry, inEntries, same⟩ := List.lookup_isSome_iff.mp known
  exact List.mem_map.mpr ⟨entry, inEntries, (beq_iff_eq.mp same).symm⟩

namespace Session

/-- The texts in the program and among the macros of a session, each with its place. The name of
a macro is in the place of the name of a definition. -/
def texts (session : Session) : List (Role × Text) :=
  Sequence.occurrences session.program ++
    session.macros.entries.flatMap fun entry =>
      (.definition, entry.1) :: Sequence.occurrences entry.2

/-- Every text in a session has a property, and so has every text that the pending line may
bring. -/
structure Upholds (session : Session) (holds : Role → Text → Prop) : Prop where
  program : Sequence.Every holds session.program
  macros : session.macros.Every holds
  pending : ∀ line terms, session.pending = some line →
    Sequence.parse Scope.lineName line = .ok terms → Sequence.Every holds terms

namespace Upholds

variable {holds : Role → Text → Prop} {session : Session}

theorem texts (upholds : session.Upholds holds) {role : Role} {text : Text}
    (member : (role, text) ∈ session.texts) : holds role text := by
  rcases List.mem_append.mp member with inProgram | inMacros
  · exact upholds.program role text inProgram
  · obtain ⟨entry, known, here⟩ := List.mem_flatMap.mp inMacros
    obtain ⟨named, inside⟩ := upholds.macros entry known
    rcases List.mem_cons.mp here with same | inBody
    · cases same
      exact named
    · exact inside role text inBody

theorem new {program : List Term} (every : Sequence.Every holds program) (settings : Settings)
    (sink : Sink) : (new program settings sink).Upholds holds :=
  ⟨every, nofun, nofun⟩

theorem silent {later : Session} (upholds : session.Upholds holds)
    (silent : session.Silent later) : later.Upholds holds := by
  obtain ⟨outlet, rfl, -⟩ := silent
  exact ⟨upholds.program, upholds.macros, upholds.pending⟩

theorem perform {event : Event} (upholds : session.Upholds holds)
    (defines : ∀ name body, event = .defined name body →
      holds .definition name ∧ Sequence.Every holds body) :
    (session.perform event).2.Upholds holds := by
  have reported := upholds.silent (.report session event)
  cases event with
  | defined name body =>
      obtain ⟨named, inside⟩ := defines name body rfl
      exact ⟨reported.program, reported.macros.insert named inside, reported.pending⟩
  | received line => exact ⟨reported.program, reported.macros, nofun⟩
  | printed args => exact ⟨reported.program, reported.macros, reported.pending⟩
  | expanded name => exact reported
  | expandedUnder param => exact reported
  | substituted param args => exact reported

/-- A property that every name with a space has is kept by a step. -/
theorem step (spaced : AdmitsSpaced holds) (upholds : session.Upholds holds) :
    session.step.2.Upholds holds := by
  have announced := upholds.silent (.announce session)
  have happens : ∀ event,
      (Sequence.reduce session.scope session.program).event? = some event →
      (session.announce.perform event).2.Upholds holds := by
    intro event happens
    refine announced.perform ?_
    rintro name body rfl
    exact Sequence.every_of_defined happens upholds.program
  have stepped := session.step_stepped
  generalize session.step.1 = result at stepped
  generalize session.step.2 = later at stepped ⊢
  cases stepped with
  | waiting waits => exact upholds
  | converged ready outcome => exact announced
  | asking ready outcome => exact ⟨announced.program, announced.macros, announced.pending⟩
  | failed ready outcome => exact announced
  | @changed event next after ready outcome performs =>
      have performed := happens event (Outcome.event?_of_changed outcome)
      rw [performs] at performed
      have reduced :=
        Sequence.every_of_reduce spaced outcome upholds.macros upholds.pending upholds.program
      exact ⟨reduced, performed.macros, performed.pending⟩
  | @failedAfter event error after ready outcome performs =>
      have performed := happens event (Outcome.event?_of_failed outcome)
      rwa [performs] at performed
  | @refused event refusal after ready outcome performs =>
      have performed := happens event outcome
      rwa [performs] at performed

theorem provide {provided : Session} {line : Text} (upholds : session.Upholds holds)
    (provides : session.provide line = .ok provided)
    (brings : ∀ terms, Sequence.parse Scope.lineName line = .ok terms →
      Sequence.Every holds terms) : provided.Upholds holds := by
  unfold Session.provide at provides
  split at provides
  · cases provides
    refine ⟨upholds.program, upholds.macros, ?_⟩
    rintro _ terms ⟨⟩ read
    exact brings terms read
  · cases provides

/-- A property that the lines bring along is kept by a list of moves. -/
theorem of_passes (spaced : AdmitsSpaced holds) {origin : Session} {moves : List Move}
    (passes : origin.Passes moves session)
    (brings : ∀ line ∈ moves.filterMap Move.line?, ∀ terms,
      Sequence.parse Scope.lineName line = .ok terms → Sequence.Every holds terms)
    (start : origin.Upholds holds) : session.Upholds holds := by
  induction passes with
  | start => exact start
  | @next moves move middle later earlier last ih =>
      simp only [List.filterMap_append, List.mem_append, or_imp, forall_and] at brings
      have before := ih brings.1
      cases last with
      | step => exact before.step spaced
      | log line => exact before.silent (.log _ _)
      | @provide provided line provides =>
          exact before.provide provides (brings.2 line (by simp [Move.line?]))

end Upholds

theorem admitsSpaced_known (program : List Term) (lines : List Text) :
    AdmitsSpaced (Known program lines) :=
  fun _ space => .inr (.inr ⟨rfl, space⟩)

/-- Every text in a session that a host has brought to where it is comes from the program at the
start or from a line that the session has taken. -/
theorem Served.known {serves : List Text → Action → Except Error Report → Prop}
    {program : List Term} {settings : Settings} {sink : Sink} {lines : List Text}
    {session : Session} (served : Served serves (new program settings sink) lines session) :
    session.Upholds (Known program lines) := by
  obtain ⟨moves, passes, rfl, -⟩ := served.exists_passes
  refine .of_passes (admitsSpaced_known program _) passes ?_ ?_
  · intro line member terms read role text inTerms
    exact .inr (.inl ⟨line, member, terms, read, inTerms⟩)
  · exact .new (fun role text inProgram => .inl inProgram) settings sink

/-- Outside of names, what is known from programs that have been read can be read. -/
theorem readable_of_known {sourceName source : Text} {program : List Term} {lines : List Text}
    (parsed : Sequence.parse sourceName source = .ok program) {role : Role} {text : Text}
    (known : Known program lines role text) : role.Readable text := by
  rcases known with inProgram | ⟨line, -, terms, read, inTerms⟩ | ⟨rfl, space⟩
  · exact Sequence.readable_of_parse parsed role text inProgram
  · exact Sequence.readable_of_parse read role text inTerms
  · exact admitsSpaced_readable text space

theorem mem_texts_of_mem_names {session : Session} {name : Text}
    (member : name ∈ session.macros.names) : (.definition, name) ∈ session.texts := by
  obtain ⟨entry, inEntries, rfl⟩ := List.mem_map.mp member
  exact List.mem_append_right _ (List.mem_flatMap.mpr ⟨entry, inEntries, List.mem_cons_self⟩)

/-- After any actions of a host, every text in a session has come into its place from the program
at the start or from a line that the session has taken, or is a name with a space. If the program
has been read, then every parameter is made like one and names no macro, every literal is made
like one, and no macro has a name that is made like a parameter or is a control word. -/
theorem provenance_of_served {serves : List Text → Action → Except Error Report → Prop}
    {program : List Term} {settings : Settings} {sink : Sink} {lines : List Text}
    {session : Session} (served : Served serves (new program settings sink) lines session) :
    (∀ role text, (role, text) ∈ session.texts → Known program lines role text) ∧
    ∀ sourceName source, Sequence.parse sourceName source = .ok program →
      (∀ param, (.param, param) ∈ session.texts →
        Word.isVariable param = true ∧ session.macros.contains param = false) ∧
      (∀ raw, (.literal, raw) ∈ session.texts → Word.isLiteral raw = true) ∧
      ∀ name ∈ session.macros.names,
        Word.isVariable name = false ∧ Word.isControl name = false := by
  have known := served.known
  refine ⟨fun role text => known.texts, ?_⟩
  intro sourceName source parsed
  have macros : ∀ name ∈ session.macros.names,
      Word.isVariable name = false ∧ Word.isControl name = false := by
    intro name member
    have readable := readable_of_known parsed (known.texts (mem_texts_of_mem_names member))
    exact readable.2
  refine ⟨?_, ?_, macros⟩
  · intro param member
    have bindable : Word.isVariable param = true :=
      readable_of_known parsed (known.texts member)
    refine ⟨bindable, ?_⟩
    rw [← Bool.not_eq_true]
    intro named
    rw [(macros param (MacroTable.mem_names_of_contains named)).1] at bindable
    cases bindable
  · intro raw member
    exact readable_of_known parsed (known.texts member)

/-- A callee collapses into a name with a space, and a line brings the definition of a macro. -/
theorem provenance_of_collapsed_callee :
    let source := "pooping poop x poops pooping x poopy qooq qooq poopy a b qooq Input".toList
    let program : List Term :=
      [.app (.lam "x".toList [.app (.name "x".toList) []]) [.name "a".toList, .name "b".toList],
        .name Word.input]
    let line := "poop A is PoHiop qooq".toList
    let start := new program {} .buffer
    let waiting := start.step.2.step.2
    let session := { waiting with awaiting := false, pending := some line }.step.2.step.2
    Sequence.parse "source".toList source = .ok program ∧
      Served (fun _ _ _ => True) start [line] session ∧
      session.texts = [(.name, "a b".toList), (.definition, "A".toList),
        (.literal, "PoHiop".toList)] ∧
      (∀ role text, (role, text) ∈ session.texts → Known program [line] role text) ∧
      ∀ name ∈ session.macros.names,
        Word.isVariable name = false ∧ Word.isControl name = false := by
  intro source program line start waiting session
  have parsed : Sequence.parse "source".toList source = .ok program := by
    rfl
  have served : Served (fun _ _ _ => True) start [line] session := by
    have waits : Served (fun _ _ _ => True) start [] waiting :=
      (Served.start.step True.intro).step True.intro
    exact ((waits.provide (by decide +kernel) True.intro).step True.intro).step True.intro
  have whole := provenance_of_served served
  exact ⟨parsed, served, by decide +kernel, whole.1, (whole.2 _ _ parsed).2.2⟩

end Session

end Splice
