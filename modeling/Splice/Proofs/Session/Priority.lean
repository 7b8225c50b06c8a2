import Splice.Proofs.Session.Provenance
import Splice.Proofs.Session.Strategy
import Splice.Proofs.Substitution

/-!
# The asking name and the macros

A macro may have the asking name. Reduction and printing look for the asking name first, and the
macro makes no difference to them. The expansion of macros in the body of a function does not, and
puts the body of such a macro in the place of the asking name. This happens where `Overrides` says
so, and nowhere else: otherwise the asking name is replaced by what a line says.
-/

namespace Splice

/-! ## The first place -/

/-- The sequence in which a macro stands at a place, with the sequence that it becomes when the
macro is expanded there. -/
structure Site.Unfolds (macros : MacroTable) (site : Site) (terms next : List Term) : Prop where
  stands : site.context.fill? [.name site.name] = some terms
  becomes : ∃ body, macros.find? site.name = some body ∧ site.context.fill? body = some next

/-- A macro in a term is expanded at the first place there is. -/
def Term.ExpandsFirst (macros : MacroTable) (term : Term) : Prop :=
  ∀ site, (Term.sites macros false term).head? = some site →
    ∃ next, Term.expand? macros term = some next ∧ site.Unfolds macros [term] next

/-- A macro in a sequence is expanded at the first place there is. -/
def Sequence.ExpandsFirst (macros : MacroTable) (terms : List Term) : Prop :=
  ∀ site, (Sequence.sites macros terms).head? = some site →
    ∃ next, Sequence.expand? macros terms = some next ∧ site.Unfolds macros terms next

section Sites

variable {macros : MacroTable}

theorem Site.Unfolds.beside {site : Site} {terms next : List Term}
    (unfolds : site.Unfolds macros terms next) (front back : List Term) :
    Site.Unfolds macros { site with context := .beside front site.context back }
      (front ++ terms ++ back) (front ++ next ++ back) := by
  obtain ⟨stands, body, known, becomes⟩ := unfolds
  refine ⟨?_, body, known, ?_⟩
  · rw [Context.fill?, stands, Option.map_some]
  · rw [Context.fill?, becomes, Option.map_some]

theorem Term.sites_eq_nil_iff {term : Term} :
    Term.sites macros false term = [] ↔ Term.expand? macros term = none := by
  rw [← Sequence.expand?_singleton, Sequence.expand?_eq_none_iff, Sequence.sites_cons_eq_nil_iff]
  simp [Sequence.sites]

theorem Sequence.expandsFirst_cons {head : Term} {tail : List Term}
    (ofHead : head.ExpandsFirst macros) (ofTail : ExpandsFirst macros tail) :
    ExpandsFirst macros (head :: tail) := by
  intro site first
  rw [sites] at first
  cases places : Term.sites macros false head with
  | cons place others =>
      rw [places] at first
      cases first
      have inHead : (Term.sites macros false head).head? = some place := by
        rw [places, List.head?_cons]
      obtain ⟨next, expands, unfolds⟩ := ofHead place inHead
      refine ⟨next ++ tail, by rw [expand?, expands], ?_⟩
      exact unfolds.beside [] tail
  | nil =>
      rw [places, List.map_nil, List.nil_append, List.head?_map] at first
      obtain ⟨place, inTail, rfl⟩ := Option.map_eq_some_iff.mp first
      obtain ⟨next, expands, unfolds⟩ := ofTail place inTail
      refine ⟨head :: next, ?_, ?_⟩
      · rw [expand?, Term.sites_eq_nil_iff.mp places, expands, Option.map_some]
      · simpa using unfolds.beside [head] []

theorem Term.ExpandsFirst.of_singleton {term : Term} (alone : Sequence.ExpandsFirst macros [term]) :
    term.ExpandsFirst macros := by
  intro site first
  have listed : (Sequence.sites macros [term]).head? =
      some { site with context := .beside [] site.context [] } := by
    simp [Sequence.sites, first]
  obtain ⟨next, expands, stands, body, known, becomes⟩ := alone _ listed
  rw [Sequence.expand?_singleton] at expands
  refine ⟨next, expands, ?_, body, known, ?_⟩
  · simpa [Context.fill?] using stands
  · simpa [Context.fill?] using becomes

/-- The first place of a callee is where it becomes another single term. -/
theorem Term.ExpandsFirst.callee {callee : Term} (loose : callee.ExpandsFirst macros) {site : Site}
    (first : (Term.sites macros true callee).head? = some site) :
    ∃ single, Term.expand? macros callee = some [single] ∧
      site.Unfolds macros [callee] [single] := by
  by_cases named : ∃ text, callee = .name text
  · obtain ⟨text, rfl⟩ := named
    rw [Term.sites] at first
    cases known : macros.find? text with
    | none => simp [known] at first
    | some body =>
        by_cases single : body.length = 1
        · simp only [known, single, implies_true, if_true, List.head?_cons] at first
          cases first
          obtain ⟨term, rfl⟩ := List.length_eq_one_iff.mp single
          exact ⟨term, by rw [Term.expand?, known], rfl, [term], known, rfl⟩
        · simp [known, single] at first
  · have other : ∀ text, callee ≠ .name text := fun text same => named ⟨text, same⟩
    have same : Term.sites macros true callee = Term.sites macros false callee := by
      cases callee with
      | name text => exact absurd rfl (other text)
      | literal raw => rfl
      | lam param body => rfl
      | define name body => rfl
      | app inner args => rfl
    rw [same] at first
    obtain ⟨next, expands, unfolds⟩ := loose site first
    obtain ⟨single, rfl⟩ := Term.exists_single_of_expand? other expands
    exact ⟨single, expands, unfolds⟩

theorem Term.expandsFirst_app {callee : Term} {args : List Term}
    (ofCallee : callee.ExpandsFirst macros) (ofArgs : Sequence.ExpandsFirst macros args) :
    (Term.app callee args).ExpandsFirst macros := by
  intro site first
  rw [Term.sites] at first
  cases places : Term.sites macros true callee with
  | cons place others =>
      rw [places] at first
      cases first
      have inCallee : (Term.sites macros true callee).head? = some place := by
        rw [places, List.head?_cons]
      obtain ⟨single, expands, stands, body, known, becomes⟩ := ofCallee.callee inCallee
      refine ⟨[.app single args], by rw [Term.expand?, expands], ?_, body, known, ?_⟩
      · rw [Context.fill?, stands]
      · rw [Context.fill?, becomes]
  | nil =>
      rw [places, List.map_nil, List.nil_append, List.head?_map] at first
      obtain ⟨place, inArgs, rfl⟩ := Option.map_eq_some_iff.mp first
      obtain ⟨next, expands, stands, body, known, becomes⟩ := ofArgs place inArgs
      have several := (Term.sites_alone_eq_nil_iff Term.sites_eq_nil_iff).mp places
      refine ⟨[.app callee next], ?_, ?_, body, known, ?_⟩
      · rw [Term.expand?]
        split
        · rename_i single inCallee
          exact absurd inCallee (several single)
        · rw [expands, Option.map_some]
      · rw [Context.fill?, stands, Option.map_some]
      · rw [Context.fill?, becomes, Option.map_some]

/-- A macro is expanded where one can be, at the first place. -/
theorem Sequence.expandsFirst (terms : List Term) : ExpandsFirst macros terms := by
  induction terms using Sequence.induction with
  | nil =>
      intro site first
      cases first
  | name text tail ih =>
      refine expandsFirst_cons ?_ ih
      intro site first
      rw [Term.sites] at first
      cases known : macros.find? text with
      | none => simp [known] at first
      | some body =>
          simp only [known, Bool.false_eq_true, false_implies, if_true, List.head?_cons] at first
          cases first
          exact ⟨body, by rw [Term.expand?, known], rfl, body, known, rfl⟩
  | literal raw tail ih =>
      refine expandsFirst_cons ?_ ih
      intro site first
      cases first
  | lam param body tail ofBody ih =>
      refine expandsFirst_cons ?_ ih
      intro site first
      rw [Term.sites, List.head?_map] at first
      obtain ⟨place, inBody, rfl⟩ := Option.map_eq_some_iff.mp first
      obtain ⟨next, expands, stands, result, known, becomes⟩ := ofBody place inBody
      refine ⟨[.lam param next], ?_, ?_, result, known, ?_⟩
      · rw [Term.expand?, expands, Option.map_some]
      · rw [Context.fill?, stands, Option.map_some]
      · rw [Context.fill?, becomes, Option.map_some]
  | define name body tail ofBody ih =>
      refine expandsFirst_cons ?_ ih
      intro site first
      cases first
  | app callee args tail ofCallee ofArgs ih =>
      exact expandsFirst_cons (Term.expandsFirst_app (.of_singleton ofCallee) ofArgs) ih

end Sites

/-! ## Contexts in contexts -/

/-- A context in the hole of another one. -/
def Context.comp : Context → Context → Context
  | hole, inner => inner
  | beside front outer back, inner => beside front (outer.comp inner) back
  | inBody param outer, inner => inBody param (outer.comp inner)
  | inCallee outer args, inner => inCallee (outer.comp inner) args
  | inArgs callee outer, inner => inArgs callee (outer.comp inner)

theorem Context.fill?_comp (outer inner : Context) (terms : List Term) :
    (outer.comp inner).fill? terms = (inner.fill? terms).bind outer.fill? := by
  induction outer with
  | hole => cases filled : inner.fill? terms <;> simp [comp, fill?, filled]
  | beside front outer back ih =>
      rw [comp, fill?, ih]
      cases inner.fill? terms <;> rfl
  | inBody param outer ih =>
      rw [comp, fill?, ih]
      cases inner.fill? terms <;> rfl
  | inCallee outer args ih =>
      rw [comp, fill?, ih]
      cases inner.fill? terms <;> rfl
  | inArgs callee outer ih =>
      rw [comp, fill?, ih]
      cases inner.fill? terms <;> rfl

/-- The search for a redex enters no body. -/
theorem Context.Leads.binder?_comp {scope : Scope} {part whole : List Term} {context : Context}
    (leads : context.Leads scope part whole) (inner : Context) :
    (context.comp inner).binder? = inner.binder? := by
  induction leads with
  | here => rfl
  | beside quiet leads back ih => exact ih
  | inCallee undefining leads args ih => exact ih
  | inArgs settled defers leads ih => exact ih

/-! ## Overridden requests -/

/-- The search for a redex comes to a function in whose body the first macro that can be expanded
is one with the asking name. -/
def Sequence.Overrides (scope : Scope) (terms : List Term) : Prop :=
  ∃ (context : Context) (param : Text) (body : List Term) (site : Site),
    context.Leads scope [.lam param body] terms ∧
      (Sequence.sites scope.macros body).head? = some site ∧ site.name = Word.input

section Overrides

variable {scope : Scope} {terms next : List Term} {event : Event}

/-- A reduction that comes to a function unfolds a macro at the first place in its body. -/
theorem Context.Leads.unfolds {context : Context} {param : Text} {body : List Term} {site : Site}
    (leads : context.Leads scope [.lam param body] terms)
    (first : (Sequence.sites scope.macros body).head? = some site)
    (reduces : Sequence.reduce scope terms = .changed event next) :
    ∃ result, event = .expandedUnder param ∧
      (context.comp (.inBody param site.context)).fill? [.name site.name] = some terms ∧
      (context.comp (.inBody param site.context)).fill? result = some next ∧
      Contraction scope event (context.comp (.inBody param site.context)).binder?
        (.name site.name) result := by
  obtain ⟨expanded, expands, stands, result, known, becomes⟩ :=
    Sequence.expandsFirst body site first
  rw [leads.reduce_of_fires (.expansionUnder expands)] at reduces
  obtain ⟨_, ⟨⟩, refilled⟩ := Outcome.inside_eq_changed reduces
  refine ⟨result, rfl, ?_, ?_, ?_⟩
  · rw [fill?_comp, fill?, stands]
    exact leads.fill
  · rw [fill?_comp, fill?, becomes]
    exact refilled
  · rw [leads.binder?_comp]
    exact .expansionUnder known

/-- One redex is contracted at one position, and it is the asking name without a line exactly if
the asking name is overridden. -/
theorem Sequence.contracts_overriding_iff
    (reduces : Sequence.reduce scope terms = .changed event next) :
    ∃ (context : Context) (redex : Term) (result : List Term),
      context.fill? [redex] = some terms ∧ context.fill? result = some next ∧
      Contraction scope event context.binder? redex result ∧
      (Overrides scope terms ↔ redex = .name Word.input ∧ ∀ line, event ≠ .received line) := by
  -- One outcome may come of several redexes, so the place is the one that `Overrides` speaks of.
  by_cases overrides : Overrides scope terms
  · obtain ⟨context, param, body, site, leads, first, asks⟩ := overrides
    obtain ⟨result, rfl, filled, refilled, contracts⟩ := leads.unfolds first reduces
    refine ⟨_, _, result, filled, refilled, contracts, fun _ => ⟨by rw [asks], nofun⟩, ?_⟩
    intro _
    exact ⟨context, param, body, site, leads, first, asks⟩
  · have moves : Sequence.reduce scope terms ≠ .stuck := by simp [reduces]
    obtain ⟨context, redex, outcome, leads, fires⟩ := hasFocus_of_reduce moves
    have inside := reduces
    rw [leads.reduce_of_fires fires] at inside
    obtain ⟨result, changes, refilled⟩ := Outcome.inside_eq_changed inside
    rcases fires.contracts changes with ⟨param, body, expanded, rfl, expands⟩ | contracts
    · cases places : Sequence.sites scope.macros body with
      | nil =>
          rw [(Sequence.expand?_eq_none_iff body).mpr places] at expands
          cases expands
      | cons site others =>
          have first : (Sequence.sites scope.macros body).head? = some site := by
            rw [places, List.head?_cons]
          obtain ⟨result, -, filled, refilled, contracts⟩ := leads.unfolds first reduces
          refine ⟨_, _, result, filled, refilled, contracts, fun yes => absurd yes overrides, ?_⟩
          rintro ⟨asks, -⟩
          exact ⟨context, param, body, site, leads, first, Term.name.inj asks⟩
    · refine ⟨context.comp .hole, redex, result, ?_, ?_, ?_, fun yes => absurd yes overrides, ?_⟩
      · rw [Context.fill?_comp]
        exact leads.fill
      · rw [Context.fill?_comp]
        exact refilled
      · rw [leads.binder?_comp]
        exact contracts
      · rintro ⟨rfl, lineless⟩
        cases contracts with
        | expansion other known => exact absurd rfl other
        | reception pending read => exact absurd rfl (lineless _)

end Overrides

namespace Session

section Served

variable {serves : List Text → Action → Except Error Report → Prop} {sourceName source : Text}
  {program : List Term} {settings : Settings} {sink : Sink} {lines : List Text} {session : Session}

/-- The asking name is not overridden unless a macro with that name has been defined. -/
theorem Served.known_of_overrides
    (served : Served serves (new program settings sink) lines session)
    (overrides : Sequence.Overrides session.scope session.program) :
    Known program lines .definition Word.input := by
  obtain ⟨context, param, body, site, leads, first, asks⟩ := overrides
  obtain ⟨_, _, _, result, found, _⟩ := Sequence.expandsFirst body site first
  rw [asks] at found
  have contains : session.macros.contains Word.input = true := Option.isSome_of_eq_some found
  have named := MacroTable.mem_names_of_contains contains
  exact served.known.texts (mem_texts_of_mem_names named)

theorem Served.param_ne_input (parsed : Sequence.parse sourceName source = .ok program)
    (served : Served serves (new program settings sink) lines session) {context : Context}
    {param : Text} {body args : List Term}
    (filled : context.fill? [.app (.lam param body) args] = some session.program) :
    param ≠ Word.input := by
  have inside := ((Context.every_fill_iff filled).mp served.known.program).2
  rw [Sequence.every_app, Sequence.every_lam] at inside
  have bindable : Word.isVariable param = true := readable_of_known parsed inside.1.1
  rintro rfl
  revert bindable
  decide

/-- Whatever has happened since the program was read, a step contracts one redex. If that is the
asking name, then a line takes its place, unless the step overrides it and the body of a macro does.
Where a function is applied, an asking name in its body stays in its place. A step overrides the
asking name only if a definition with that name was in the program or in a line. -/
theorem asking_name_kept_unless_overridden
    (parsed : Sequence.parse sourceName source = .ok program)
    (served : Served serves (new program settings sink) lines session)
    (changes : session.step.1 = .ok .changed) :
    let overrides := Sequence.Overrides session.scope session.program
    (∃ (event : Event) (context : Context) (redex : Term) (result : List Term),
      Sequence.reduce session.scope session.program = .changed event session.step.2.program ∧
      context.fill? [redex] = some session.program ∧
      context.fill? result = some session.step.2.program ∧
      Contraction session.scope event context.binder? redex result ∧
      (overrides → redex = .name Word.input) ∧
      (redex = .name Word.input →
        overrides ∧ session.macros.find? Word.input = some result ∨
        ¬ overrides ∧ ∃ line, session.pending = some line ∧
          Sequence.parse Scope.lineName line = .ok result) ∧
      ∀ (param : Text) (body args : List Term) (inner : Context),
        redex = .app (.lam param body) args → inner.fill? [.name Word.input] = some body →
          (inner.substitute param args).fill? [.name Word.input] = some result) ∧
    (overrides → Known program lines .definition Word.input) := by
  intro overrides
  refine ⟨?_, served.known_of_overrides⟩
  obtain ⟨event, reduces⟩ := reduce_of_changed changes
  obtain ⟨context, redex, result, filled, refilled, contracts, exactly⟩ :=
    Sequence.contracts_overriding_iff reduces
  refine ⟨event, context, redex, result, reduces, filled, refilled, contracts,
    fun yes => (exactly.mp yes).1, ?_, ?_⟩
  · rintro rfl
    -- Of the contractions of a name, the plain expansion leaves out the asking name.
    have lineless := exactly.trans (and_iff_right rfl)
    generalize context.binder? = binder at contracts
    cases contracts with
    | expansion other known => exact absurd rfl other
    | expansionUnder known => exact .inl ⟨lineless.mpr nofun, known⟩
    | reception pending read =>
        exact .inr ⟨fun yes => lineless.mp yes _ rfl, _, pending, read⟩
  · rintro param body args inner rfl stands
    have other := Served.param_ne_input parsed served filled
    generalize context.binder? = binder at contracts
    cases contracts
    exact Context.fill?_substitute other.symm stands args

end Served

/-- A macro with another name is expanded in a body, and the asking name before it stays. -/
theorem asking_name_kept_before_macro :
    let source := "poop A is PoXop qooq poop x poops Input A qooq".toList
    let program : List Term :=
      [.define "A".toList [.literal "PoXop".toList],
        .lam "x".toList [.name Word.input, .name "A".toList]]
    let session := (new program {} .buffer).step.2
    Sequence.parse [] source = .ok program ∧
      session.step.2.program = [.lam "x".toList [.name Word.input, .literal "PoXop".toList]] ∧
      ¬ Sequence.Overrides session.scope session.program := by
  intro source program session
  have parsed : Sequence.parse [] source = .ok program := by
    rfl
  have served : Served (fun _ _ _ => True) (new program {} .buffer) [] session :=
    Served.start.step True.intro
  have changes : session.step.1 = .ok .changed := by
    rfl
  refine ⟨parsed, rfl, ?_⟩
  intro overrides
  have known := (asking_name_kept_unless_overridden parsed served changes).2 overrides
  rcases known with inProgram | ⟨line, member, -⟩ | ⟨impossible, -⟩
  · revert inProgram
    decide +kernel
  · cases member
  · cases impossible

/-- A macro with the asking name is expanded in the body of a function. The line that the program
is offered is not used, and the body of the macro is printed. -/
theorem asking_name_overridden_in_body :
    let source := ("poop Input is PoXop qooq pooping Print poopy " ++
      "pooping poop x poops Input qooq poopy qooq qooq").toList
    let program : List Term :=
      [.define Word.input [.literal "PoXop".toList],
        .app (.name Word.print) [.app (.lam "x".toList [.name Word.input]) []]]
    let context : Context := .inArgs (.name Word.print) (.inCallee (.inBody "x".toList .hole) [])
    let start := new program {} .buffer
    let session := start.step.2
    Sequence.parse [] source = .ok program ∧
      session.pending = none ∧ session.step.1 = .ok .changed ∧
      context.fill? [.name Word.input] = some session.program ∧
      context.fill? [.literal "PoXop".toList] = some session.step.2.program ∧
      (start.runWith (.ofList ["PoYop".toList] .closed) 9 0).map
          (fun (_, used, later) => (used, later.outlet.prints)) =
        some (0, ["X".toList]) := by
  intro source program context start session
  have parsed : Sequence.parse [] source = .ok program := by
    rfl
  have changes : session.step.1 = .ok .changed := by
    rfl
  exact ⟨parsed, rfl, changes, rfl, rfl, by decide +kernel⟩

end Session

end Splice
