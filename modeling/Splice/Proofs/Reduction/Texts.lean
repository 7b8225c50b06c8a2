import Splice.Proofs.Grammar.Source
import Splice.Proofs.MacroTable
import Splice.Proofs.Occurrence
import Splice.Proofs.Reduction.Event

/-!
# Texts under reduction

Reduction moves texts about and makes none, but for the names that callees of several terms
collapse into. These hold a space. So a property of texts in their places that every name with a
space has is kept by reduction, once the program, the macros and the pending line have it.
-/

namespace Splice

/-- Every text among the macros has a property; the name of a macro is in the place of the name
of a definition. -/
def MacroTable.Every (holds : Role → Text → Prop) (macros : MacroTable) : Prop :=
  ∀ entry ∈ macros.entries, holds .definition entry.1 ∧ Sequence.Every holds entry.2

section Every

variable {holds : Role → Text → Prop}

/-! ## Substitution -/

theorem Sequence.every_substitute (spaced : AdmitsSpaced holds) (param : Text)
    {args body : List Term} (given : Sequence.Every holds args)
    (every : Sequence.Every holds body) :
    Sequence.Every holds (Sequence.substitute param args body) := by
  induction body using Sequence.induction with
  | nil => exact every_nil
  | name text tail ih =>
      rw [every_name] at every
      rw [substitute, Term.substitute, every_append]
      refine ⟨?_, ih every.2⟩
      split
      · exact given
      · exact (every_name text []).mpr ⟨every.1, every_nil⟩
  | literal raw tail ih =>
      rw [every_literal] at every
      rw [substitute, Term.substitute, every_append]
      exact ⟨(every_literal raw []).mpr ⟨every.1, every_nil⟩, ih every.2⟩
  | lam inner inside tail ofBody ih =>
      rw [every_lam] at every
      rw [substitute, Term.substitute, every_append]
      refine ⟨?_, ih every.2.2⟩
      split
      · exact (every_lam inner inside []).mpr ⟨every.1, every.2.1, every_nil⟩
      · exact (every_lam inner _ []).mpr ⟨every.1, ofBody every.2.1, every_nil⟩
  | define name inside tail ofBody ih =>
      rw [every_define] at every
      rw [substitute, Term.substitute, every_append]
      exact ⟨(every_define name _ []).mpr ⟨every.1, ofBody every.2.1, every_nil⟩, ih every.2.2⟩
  | app callee operands tail ofCallee ofArgs ih =>
      rw [every_app] at every
      rw [substitute, Term.substitute_app, every_append]
      refine ⟨(every_app _ _ []).mpr ⟨?_, ofArgs every.2.1, every_nil⟩, ih every.2.2⟩
      -- An empty replacement leaves the callee as it was.
      have replaced := ofCallee every.1
      rw [substitute, substitute, List.append_nil] at replaced
      rw [Term.substituteCallee, Term.replacedBy]
      cases collapsed : Sequence.collapse? (Term.substitute param args callee) with
      | none => exact every.1
      | some single => exact every_collapse spaced replaced collapsed

/-! ## One redex -/

/-- Every text around the hole of a context has a property. -/
def Context.Every (holds : Role → Text → Prop) : Context → Prop
  | hole => True
  | beside before inner after =>
      Sequence.Every holds before ∧ inner.Every holds ∧ Sequence.Every holds after
  | inBody param inner => holds .param param ∧ inner.Every holds
  | inCallee inner args => inner.Every holds ∧ Sequence.Every holds args
  | inArgs callee inner => Sequence.Every holds [callee] ∧ inner.Every holds

/-- Every text of a whole is around the hole or in what fills it. -/
theorem Context.every_fill_iff {context : Context} {filling terms : List Term}
    (filled : context.fill? filling = some terms) :
    Sequence.Every holds terms ↔ context.Every holds ∧ Sequence.Every holds filling := by
  induction context generalizing terms with
  | hole =>
      cases filled
      simp [Context.Every]
  | beside before inner after ih =>
      obtain ⟨middle, inside, rfl⟩ := Option.map_eq_some_iff.mp filled
      rw [Sequence.every_append, Sequence.every_append, ih inside, Context.Every]
      constructor
      · rintro ⟨⟨front, around, here⟩, back⟩
        exact ⟨⟨front, around, back⟩, here⟩
      · rintro ⟨⟨front, around, back⟩, here⟩
        exact ⟨⟨front, around, here⟩, back⟩
  | inBody param inner ih =>
      obtain ⟨body, inside, rfl⟩ := Option.map_eq_some_iff.mp filled
      simp [ih inside, Context.Every, and_assoc]
  | inCallee inner args ih =>
      unfold fill? at filled
      split at filled
      · rename_i callee inside
        cases filled
        rw [Sequence.every_app, ih inside, Context.Every]
        constructor
        · rintro ⟨⟨around, here⟩, given, -⟩
          exact ⟨⟨around, given⟩, here⟩
        · rintro ⟨⟨around, given⟩, here⟩
          exact ⟨⟨around, here⟩, given, Sequence.every_nil⟩
      · cases filled
  | inArgs callee inner ih =>
      obtain ⟨args, inside, rfl⟩ := Option.map_eq_some_iff.mp filled
      rw [Sequence.every_app, ih inside, Context.Every]
      simp [and_assoc]

theorem MacroTable.Every.find? {macros : MacroTable} (every : macros.Every holds) {name : Text}
    {body : List Term} (known : macros.find? name = some body) : Sequence.Every holds body :=
  (every _ (MacroTable.find?_eq_some_iff.mp known)).2

theorem MacroTable.Every.insert {macros : MacroTable} (every : macros.Every holds) {name : Text}
    {body : List Term} (named : holds .definition name) (inside : Sequence.Every holds body) :
    (macros.insert name body).Every holds := by
  intro entry member
  rcases mem_insertEntry member with rfl | old
  · exact ⟨named, inside⟩
  · exact every entry old

/-- The contraction of a redex keeps a property that the macros and the pending line have. -/
theorem Contraction.every (spaced : AdmitsSpaced holds) {scope : Scope} {event : Event}
    {binder : Option Text} {redex : Term} {result : List Term}
    (contracts : Contraction scope event binder redex result) (table : scope.macros.Every holds)
    (lines : ∀ line terms, scope.pending = some line →
      Sequence.parse Scope.lineName line = .ok terms → Sequence.Every holds terms)
    (every : Sequence.Every holds [redex]) : Sequence.Every holds result := by
  cases contracts with
  | definition fresh => exact Sequence.every_nil
  | expansion other known => exact table.find? known
  | expansionUnder known => exact table.find? known
  | reception pending read => exact lines _ _ pending read
  | @substitution param body args =>
      rw [Sequence.every_app, Sequence.every_lam] at every
      exact Sequence.every_substitute spaced param every.2.1 every.1.2.1
  | @printing args printable =>
      rw [Sequence.every_app] at every
      exact every.2.1

/-- A reduction keeps a property that the macros and the pending line have. -/
theorem Sequence.every_of_reduce (spaced : AdmitsSpaced holds) {scope : Scope} {event : Event}
    {terms next : List Term} (reduces : Sequence.reduce scope terms = .changed event next)
    (table : scope.macros.Every holds)
    (lines : ∀ line terms, scope.pending = some line →
      Sequence.parse Scope.lineName line = .ok terms → Sequence.Every holds terms)
    (every : Sequence.Every holds terms) : Sequence.Every holds next := by
  obtain ⟨context, redex, result, filled, refilled, contracts⟩ := reduce_replaces reduces
  obtain ⟨around, outgoing⟩ := (context.every_fill_iff filled).mp every
  have incoming := contracts.every spaced table lines outgoing
  exact (context.every_fill_iff refilled).mpr ⟨around, incoming⟩

/-- What a reduction defines stands in the sequence. -/
theorem Sequence.every_of_defined {scope : Scope} {terms body : List Term} {name : Text}
    (happens : (Sequence.reduce scope terms).event? = some (.defined name body))
    (every : Sequence.Every holds terms) :
    holds .definition name ∧ Sequence.Every holds body := by
  cases outcome : Sequence.reduce scope terms with
  | stuck =>
      rw [outcome] at happens
      cases happens
  | awaiting =>
      rw [outcome] at happens
      cases happens
  | changed event next =>
      rw [outcome] at happens
      cases happens
      obtain ⟨context, redex, result, filled, -, contracts⟩ := reduce_replaces outcome
      obtain ⟨-, here⟩ := (context.every_fill_iff filled).mp every
      generalize context.binder? = binder at contracts
      cases contracts with
      | definition fresh =>
          rw [every_define] at here
          exact ⟨here.1, here.2.1⟩
  | failed earlier error =>
      rw [outcome] at happens
      cases happens
      exact absurd rfl ((failure_of_reduce outcome).not_defined name body)

end Every

end Splice
