import Splice.Proofs.Reduction.Request

/-!
# The focus of a reduction

A reduction looks for its redex from left to right, at callees before arguments, and passes by
what is stuck. `Context.Leads` says that this search comes to a part of a sequence, by the context
around the part, and `Term.Fires` lists the terms at which the search ends. Every reduction that is
not stuck ends at one such term, and what happens there tells the outcome of the whole.
-/

namespace Splice

/-- The search for a redex in a sequence comes to a part of it, which is in the hole of the
context. -/
inductive Context.Leads (scope : Scope) (part : List Term) : Context → List Term → Prop where
  | here : Context.Leads scope part .hole part
  | beside {front middle : List Term} {inner : Context}
      (quiet : Sequence.reduce scope front = .stuck)
      (leads : Context.Leads scope part inner middle) (back : List Term) :
      Context.Leads scope part (.beside front inner back) (front ++ middle ++ back)
  | inCallee {callee : Term} {inner : Context}
      (undefining : ∀ name body, callee ≠ .define name body)
      (leads : Context.Leads scope part inner [callee]) (args : List Term) :
      Context.Leads scope part (.inCallee inner args) [.app callee args]
  | inArgs {callee : Term} {args : List Term} {inner : Context}
      (settled : Term.reduce scope callee = .stuck) (defers : callee.Defers scope)
      (leads : Context.Leads scope part inner args) :
      Context.Leads scope part (.inArgs callee inner) [.app callee args]

/-- The terms at which the search for a redex ends, with what comes of them. -/
inductive Term.Fires (scope : Scope) : Term → Outcome → Prop where
  | request : Term.Fires scope (.name Word.input) scope.receive
  | expansion {text : Text} {body : List Term} (other : text ≠ Word.input)
      (known : scope.macros.find? text = some body) :
      Term.Fires scope (.name text) (.changed (.expanded text) body)
  | expansionUnder {param : Text} {body expanded : List Term}
      (expands : Sequence.expand? scope.macros body = some expanded) :
      Term.Fires scope (.lam param body) (.changed (.expandedUnder param) [.lam param expanded])
  | definition {name : Text} (body : List Term) (fresh : scope.macros.contains name = false) :
      Term.Fires scope (.define name body) (.changed (.defined name body) [])
  | redefinition {name : Text} (body : List Term) (known : scope.macros.contains name = true) :
      Term.Fires scope (.define name body) (.failed none (.redefinition name))
  | definedCallee (name : Text) (body args : List Term) :
      Term.Fires scope (.app (.define name body) args)
        (.failed none (.calleeNotSingle (Term.define name body).source 0))
  | substitution {param : Text} {body args : List Term}
      (settled : Sequence.expand? scope.macros body = none)
      (ready : scope.strategy = .lazy ∨ Sequence.mentionsPrint body = true ∨
        Sequence.reduce scope args = .stuck) :
      Term.Fires scope (.app (.lam param body) args) (.substitution param body args)
  | printing {args : List Term} (settled : Term.reduce scope (.name Word.print) = .stuck)
      (printable : args.all scope.isPrintable = true) :
      Term.Fires scope (.app (.name Word.print) args) (.changed (.printed args) args)

/-- The outcome of a whole from that of a part in the hole of a context. What takes the place of a
callee has to be one term. -/
def Outcome.inside (context : Context) (part : List Term) : Outcome → Outcome
  | stuck => stuck
  | awaiting => awaiting
  | changed event next =>
      match context.fill? next with
      | some whole => changed event whole
      | none => failed (some event) (.calleeNotSingle (Sequence.source part) next.length)
  | failed earlier error => failed earlier error

namespace Outcome

variable {part : List Term}

theorem inside_hole (outcome : Outcome) : outcome.inside .hole part = outcome := by
  cases outcome <;> rfl

theorem inside_ne_stuck {context : Context} {outcome : Outcome} (moves : outcome ≠ .stuck) :
    outcome.inside context part ≠ .stuck := by
  cases outcome with
  | stuck => exact moves
  | awaiting => simp [inside]
  | failed earlier error => simp [inside]
  | changed event next =>
      rw [inside]
      split
      · simp
      · simp

/-- Where filling a hole goes through `rebuild`, so does the outcome. -/
theorem inside_within {inner outer : Context} {rebuild : List Term → List Term}
    (fills : ∀ terms, outer.fill? terms = (inner.fill? terms).map rebuild) (outcome : Outcome) :
    outcome.inside outer part = (outcome.inside inner part).within rebuild := by
  cases outcome with
  | stuck => rfl
  | awaiting => rfl
  | changed event next =>
      simp only [inside, fills]
      cases inner.fill? next <;> rfl
  | failed earlier error => rfl

theorem inside_eq_changed {context : Context} {outcome : Outcome} {event : Event}
    {next : List Term} (changes : outcome.inside context part = .changed event next) :
    ∃ result, outcome = .changed event result ∧ context.fill? result = some next := by
  cases outcome with
  | stuck => cases changes
  | awaiting => cases changes
  | failed earlier error => cases changes
  | changed happened result =>
      rw [inside] at changes
      split at changes
      · rename_i whole filled
        cases changes
        exact ⟨result, rfl, filled⟩
      · cases changes

end Outcome

/-! ## From the part to the whole -/

section Whole

variable {scope : Scope} {part whole : List Term} {context : Context}

theorem Context.Leads.fill (leads : context.Leads scope part whole) :
    context.fill? part = some whole := by
  induction leads with
  | here => rfl
  | beside quiet leads back ih => rw [Context.fill?, ih, Option.map_some]
  | inCallee undefining leads args ih => rw [Context.fill?, ih]
  | inArgs settled defers leads ih => rw [Context.fill?, ih, Option.map_some]

theorem Context.Leads.ne_nil (leads : context.Leads scope part whole) (occupied : part ≠ []) :
    whole ≠ [] := by
  induction leads with
  | here => exact occupied
  | beside quiet leads back ih => simp [ih]
  | inCallee undefining leads args ih => simp
  | inArgs settled defers leads ih => simp

/-- A part that is all of a callee leaves its place to anything, and any other part of a callee
stays within one term. -/
theorem Context.Leads.callee_cases {callee : Term} (leads : context.Leads scope part whole)
    (alone : whole = [callee]) (occupied : part ≠ []) :
    (part = [callee] ∧ ∀ terms, context.fill? terms = some terms) ∨
      ∀ terms next, context.fill? terms = some next → ∃ single, next = [single] := by
  induction leads with
  | here => exact .inl ⟨alone, fun terms => rfl⟩
  | @beside front middle inner quiet leads back ih =>
      have inMiddle := leads.ne_nil occupied
      obtain ⟨first, rest, rfl⟩ := List.exists_cons_of_ne_nil inMiddle
      obtain ⟨rfl, rfl, rfl, rfl⟩ : front = [] ∧ first = callee ∧ rest = [] ∧ back = [] := by
        cases front with
        | nil => simpa using alone
        | cons head tail => simp at alone
      simpa [Context.fill?] using ih rfl
  | inCallee undefining leads args ih =>
      refine .inr ?_
      intro terms next filled
      unfold Context.fill? at filled
      split at filled
      · cases filled
        exact ⟨_, rfl⟩
      · cases filled
  | inArgs settled defers leads ih =>
      refine .inr ?_
      intro terms next filled
      obtain ⟨inside, -, rfl⟩ := Option.map_eq_some_iff.mp filled
      exact ⟨_, rfl⟩

theorem Context.Leads.ofCallee_inside {callee : Term} (leads : context.Leads scope part [callee])
    (occupied : part ≠ []) (args : List Term) (outcome : Outcome) :
    (outcome.inside context part).ofCallee callee args =
      outcome.inside (.inCallee context args) part := by
  cases outcome with
  | stuck => rfl
  | awaiting => rfl
  | failed earlier error => rfl
  | changed event next =>
      simp only [Outcome.inside, Context.fill?]
      -- The length of what fills the hole matters when the part is the callee itself.
      rcases leads.callee_cases rfl occupied with ⟨rfl, leaves⟩ | single
      · rw [leaves]
        rcases next with _ | ⟨first, _ | ⟨second, rest⟩⟩ <;> rfl
      · cases filled : context.fill? next with
        | none => rfl
        | some replaced =>
            obtain ⟨term, rfl⟩ := single next replaced filled
            rfl

theorem Sequence.reduce_of_printable {args : List Term}
    (printable : args.all scope.isPrintable = true) : Sequence.reduce scope args = .stuck := by
  induction args with
  | nil => rw [reduce]
  | cons head tail ih =>
      rw [List.all_cons, Bool.and_eq_true] at printable
      refine (reduce_cons_eq_stuck_iff head tail).mpr ⟨?_, ih printable.2⟩
      cases head with
      | name text =>
          rw [Term.reduce_name_eq_stuck_iff]
          simpa [Scope.isPrintable, MacroTable.contains] using printable.1
      | literal raw => rfl
      | lam param body => cases printable.1
      | define name body => cases printable.1
      | app callee args => cases printable.1

/-- What happens at the part that the search comes to tells the outcome of the whole. -/
theorem Context.Leads.reduce_eq (leads : context.Leads scope part whole)
    (moves : Sequence.reduce scope part ≠ .stuck) :
    Sequence.reduce scope whole = (Sequence.reduce scope part).inside context part := by
  have occupied : part ≠ [] := by
    rintro rfl
    exact moves (by rw [Sequence.reduce])
  induction leads with
  | here => rw [Outcome.inside_hole]
  | @beside front middle inner quiet leads back ih =>
      have fills : ∀ terms, (Context.beside front inner back).fill? terms =
          (inner.fill? terms).map fun middle => front ++ middle ++ back := fun _ => rfl
      have inMiddle : (Sequence.reduce scope part).inside inner part ≠ .stuck :=
        Outcome.inside_ne_stuck moves
      rw [Outcome.inside_within fills, List.append_assoc, Sequence.reduce_append, quiet,
        Sequence.reduce_append, ih]
      generalize (Sequence.reduce scope part).inside inner part = outcome at inMiddle
      cases outcome with
      | stuck => exact absurd rfl inMiddle
      | awaiting => rfl
      | changed event next => simp [Outcome.beside]
      | failed earlier error => rfl
  | @inCallee callee inner undefining leads args ih =>
      rw [Sequence.reduce_singleton] at ih ⊢
      rw [Term.reduce_app scope args undefining, ← leads.ofCallee_inside occupied, ih]
      split
      · rename_i quiet
        exact absurd quiet (Outcome.inside_ne_stuck moves)
      · rfl
  | @inArgs callee args inner settled defers leads ih =>
      have undefining : ∀ name body, callee ≠ .define name body := by
        rintro name body rfl
        exact Term.reduce_define_ne_stuck name body settled
      have inArgs : Sequence.reduce scope args ≠ .stuck := by
        rw [ih]
        exact Outcome.inside_ne_stuck moves
      rw [Sequence.reduce_singleton, Term.reduce_app scope args undefining, settled]
      rcases Outcome.ofStuckCallee_cases scope callee args (Sequence.reduce scope args) with
        ⟨param, body, rfl, ready, -⟩ | ⟨-, printable, -⟩ | ⟨-, -, leaves⟩
      · obtain ⟨delayed, silent⟩ := defers param body rfl
        simp [delayed, silent, inArgs] at ready
      · exact absurd (Sequence.reduce_of_printable printable) inArgs
      · have fills : ∀ terms, (Context.inArgs callee inner).fill? terms =
            (inner.fill? terms).map fun next => [.app callee next] := fun _ => rfl
        rw [Outcome.inside_within fills, ← ih]
        exact leaves

end Whole

/-! ## Where the search ends -/

section Search

variable {scope : Scope}

theorem Term.Fires.reduce_eq {redex : Term} {outcome : Outcome}
    (fires : redex.Fires scope outcome) : Term.reduce scope redex = outcome := by
  cases fires with
  | request => rw [Term.reduce, if_pos rfl]
  | expansion other known => rw [Term.reduce, if_neg other, known]
  | expansionUnder expands => rw [Term.reduce, expands]
  | definition body fresh => simp [Term.reduce, fresh]
  | redefinition body known => simp [Term.reduce, known]
  | definedCallee name body args => rfl
  | @substitution param body args settled ready =>
      have quiet : Term.reduce scope (.lam param body) = .stuck :=
        (Term.reduce_lam_eq_stuck_iff param body).mpr settled
      rw [Term.reduce_app scope args (by simp), quiet]
      rcases Outcome.ofStuckCallee_cases scope (.lam param body) args (Sequence.reduce scope args)
        with ⟨_, _, ⟨⟩, -, takes⟩ | ⟨impossible, -⟩ | ⟨unready, -⟩
      · exact takes
      · cases impossible
      · obtain ⟨delayed, silent, moves⟩ := unready param body rfl
        simp [delayed, silent, moves] at ready
  | @printing args settled printable =>
      rw [Term.reduce_app scope args (by simp), settled]
      rcases Outcome.ofStuckCallee_cases scope (.name Word.print) args (Sequence.reduce scope args)
        with ⟨_, _, impossible, -⟩ | ⟨-, -, prints⟩ | ⟨-, unprintable, -⟩
      · cases impossible
      · exact prints
      · simp [unprintable rfl] at printable

theorem Term.Fires.ne_stuck {redex : Term} {outcome : Outcome}
    (fires : redex.Fires scope outcome) : outcome ≠ .stuck := by
  cases fires with
  | request => exact scope.receive_ne_stuck
  | expansion other known => simp
  | expansionUnder expands => simp
  | definition body fresh => simp
  | redefinition body known => simp
  | definedCallee name body args => simp
  | substitution settled ready => simp [Outcome.substitution]
  | printing settled printable => simp

/-- A term at which the search ends is contracted itself, unless it is a function. -/
theorem Term.Fires.contracts {redex : Term} {outcome : Outcome} {event : Event}
    {result : List Term} (fires : redex.Fires scope outcome)
    (changes : outcome = .changed event result) :
    (∃ param body expanded, redex = .lam param body ∧
      Sequence.expand? scope.macros body = some expanded) ∨
    Contraction scope event none redex result := by
  cases fires with
  | request =>
      obtain ⟨line, pending, read, rfl⟩ := Scope.receive_eq_changed changes
      exact .inr (.reception pending read)
  | expansion other known =>
      cases changes
      exact .inr (.expansion other known)
  | expansionUnder expands => exact .inl ⟨_, _, _, rfl, expands⟩
  | definition body fresh =>
      cases changes
      exact .inr (.definition fresh)
  | redefinition body known => cases changes
  | definedCallee name body args => cases changes
  | substitution settled ready =>
      cases changes
      exact .inr .substitution
  | printing settled printable =>
      cases changes
      exact .inr (.printing printable)

/-- What comes of the term at which the search ends tells the outcome of the whole. -/
theorem Context.Leads.reduce_of_fires {context : Context} {redex : Term} {whole : List Term}
    {outcome : Outcome} (leads : context.Leads scope [redex] whole)
    (fires : redex.Fires scope outcome) :
    Sequence.reduce scope whole = outcome.inside context [redex] := by
  have reduces : Sequence.reduce scope [redex] = outcome := by
    rw [Sequence.reduce_singleton, fires.reduce_eq]
  rw [leads.reduce_eq (reduces ▸ fires.ne_stuck), reduces]

/-- The search in a sequence ends at a term of it, or within one. -/
def Sequence.HasFocus (scope : Scope) (terms : List Term) : Prop :=
  ∃ (context : Context) (redex : Term) (outcome : Outcome),
    context.Leads scope [redex] terms ∧ redex.Fires scope outcome

theorem Sequence.HasFocus.here {redex : Term} {outcome : Outcome}
    (fires : redex.Fires scope outcome) : HasFocus scope [redex] :=
  ⟨.hole, redex, outcome, .here, fires⟩

theorem Sequence.hasFocus_cons {head : Term} {tail : List Term}
    (moves : Sequence.reduce scope (head :: tail) ≠ .stuck)
    (ofHead : Term.reduce scope head ≠ .stuck → HasFocus scope [head])
    (ofTail : Sequence.reduce scope tail ≠ .stuck → HasFocus scope tail) :
    HasFocus scope (head :: tail) := by
  by_cases settled : Term.reduce scope head = .stuck
  · have inTail : Sequence.reduce scope tail ≠ .stuck := by
      intro quiet
      exact moves ((reduce_cons_eq_stuck_iff head tail).mpr ⟨settled, quiet⟩)
    obtain ⟨context, redex, outcome, leads, fires⟩ := ofTail inTail
    have quiet : Sequence.reduce scope [head] = .stuck := by
      rw [reduce_singleton, settled]
    have passes := Context.Leads.beside quiet leads []
    rw [List.append_nil] at passes
    exact ⟨_, redex, outcome, passes, fires⟩
  · obtain ⟨context, redex, outcome, leads, fires⟩ := ofHead settled
    have nothing : Sequence.reduce scope [] = .stuck := by rw [reduce]
    exact ⟨_, redex, outcome, .beside nothing leads tail, fires⟩

theorem Term.hasFocus_app {callee : Term} {args : List Term}
    (moves : Term.reduce scope (.app callee args) ≠ .stuck)
    (ofCallee : Term.reduce scope callee ≠ .stuck → Sequence.HasFocus scope [callee])
    (ofArgs : Sequence.reduce scope args ≠ .stuck → Sequence.HasFocus scope args) :
    Sequence.HasFocus scope [.app callee args] := by
  rcases callee.define_or_other with ⟨name, body, rfl⟩ | undefining
  · exact .here (.definedCallee name body args)
  by_cases settled : Term.reduce scope callee = .stuck
  · rw [reduce_app scope args undefining, settled] at moves
    rcases Outcome.ofStuckCallee_cases scope callee args (Sequence.reduce scope args) with
      ⟨param, body, rfl, ready, -⟩ | ⟨rfl, printable, -⟩ | ⟨unready, -, leaves⟩
    · exact .here (.substitution ((reduce_lam_eq_stuck_iff param body).mp settled) ready)
    · exact .here (.printing settled printable)
    · have inArgs : Sequence.reduce scope args ≠ .stuck := by
        intro quiet
        apply moves
        rw [quiet] at leaves ⊢
        exact leaves
      obtain ⟨context, redex, outcome, leads, fires⟩ := ofArgs inArgs
      have defers : callee.Defers scope := fun param body same =>
        ⟨(unready param body same).1, (unready param body same).2.1⟩
      exact ⟨_, redex, outcome, .inArgs settled defers leads, fires⟩
  · obtain ⟨context, redex, outcome, leads, fires⟩ := ofCallee settled
    exact ⟨_, redex, outcome, .inCallee undefining leads args, fires⟩

/-- The search for a redex ends somewhere unless the sequence is stuck. -/
theorem Sequence.hasFocus_of_reduce {terms : List Term}
    (moves : Sequence.reduce scope terms ≠ .stuck) : HasFocus scope terms := by
  induction terms using Sequence.induction with
  | nil => exact absurd (by rw [reduce]) moves
  | name text tail ih =>
      refine hasFocus_cons moves ?_ ih
      intro inHead
      by_cases asks : text = Word.input
      · subst asks
        exact .here .request
      · rw [Ne, Term.reduce_name_eq_stuck_iff, not_and] at inHead
        obtain ⟨body, known⟩ := Option.ne_none_iff_exists'.mp (inHead asks)
        exact .here (.expansion asks known)
  | literal raw tail ih => exact hasFocus_cons moves (fun inHead => absurd rfl inHead) ih
  | lam param body tail ofBody ih =>
      refine hasFocus_cons moves ?_ ih
      intro inHead
      rw [Ne, Term.reduce_lam_eq_stuck_iff] at inHead
      obtain ⟨expanded, expands⟩ := Option.ne_none_iff_exists'.mp inHead
      exact .here (.expansionUnder expands)
  | define name body tail ofBody ih =>
      refine hasFocus_cons moves ?_ ih
      intro _
      cases known : scope.macros.contains name with
      | true => exact .here (.redefinition body known)
      | false => exact .here (.definition body known)
  | app callee args tail ofCallee ofArgs ih =>
      refine hasFocus_cons moves ?_ ih
      intro inHead
      rw [reduce_singleton] at ofCallee
      exact Term.hasFocus_app inHead ofCallee ofArgs

end Search

end Splice
