import Splice.Proofs.Reduction.Failure

/-!
# What happens in a reduction

At most one thing happens in a reduction, also in one that fails. What happens is warranted by
the sequence and the scope: a definition is of a new name, a line is the pending one, and what is
printed are the printable arguments of the printing name somewhere in the sequence.
-/

namespace Splice

namespace Outcome

/-- What happens in a reduction, if anything does. -/
def event? : Outcome → Option Event
  | stuck => none
  | awaiting => none
  | changed event _ => some event
  | failed earlier _ => earlier

theorem event?_of_changed {outcome : Outcome} {event : Event} {next : List Term}
    (same : outcome = .changed event next) : outcome.event? = some event := by
  rw [same, event?]

theorem event?_of_failed {outcome : Outcome} {earlier : Option Event} {error : Error}
    (same : outcome = .failed earlier error) : outcome.event? = earlier := by
  rw [same, event?]

@[simp]
theorem event?_within (rebuild : List Term → List Term) (outcome : Outcome) :
    (outcome.within rebuild).event? = outcome.event? := by
  cases outcome <;> rfl

@[simp]
theorem event?_ofCallee (callee : Term) (args : List Term) (outcome : Outcome) :
    (outcome.ofCallee callee args).event? = outcome.event? := by
  cases outcome with
  | stuck => rfl
  | awaiting => rfl
  | changed event next => rcases next with _ | ⟨first, _ | ⟨second, rest⟩⟩ <;> rfl
  | failed earlier error => rfl

theorem event?_beside {front back : List Term} {ofFront ofBack : Outcome} {event : Event}
    (happens : (beside front back ofFront ofBack).event? = some event) :
    ofFront.event? = some event ∨ ofBack.event? = some event := by
  cases ofFront with
  | stuck =>
      rw [beside, event?_within] at happens
      exact .inr happens
  | awaiting => cases happens
  | changed other next => exact .inl happens
  | failed earlier error => exact .inl happens

end Outcome

/-! ## Where a text is printed -/

/-- A term stands somewhere in a sequence: there it can be replaced by itself. -/
def Sequence.Holds (terms : List Term) (term : Term) : Prop :=
  ReplacesBy (fun _ redex result => redex = term ∧ result = [term]) terms terms

theorem Sequence.Holds.exists_context {terms : List Term} {term : Term}
    (holds : Sequence.Holds terms term) :
    ∃ context : Context, context.fill? [term] = some terms := by
  obtain ⟨context, redex, result, filled, -, rfl, -⟩ := holds
  exact ⟨context, filled⟩

section Printing

variable {scope : Scope} {printed : List Term}

/-- The printing name prints its arguments, or the callee or the arguments do. -/
theorem Term.event?_reduce_app {callee : Term} {args : List Term}
    (happens : (Term.reduce scope (.app callee args)).event? = some (.printed printed)) :
    (Term.reduce scope callee).event? = some (.printed printed) ∨
    (callee = .name Word.print ∧ printed = args) ∨
    (Sequence.reduce scope args).event? = some (.printed printed) := by
  rcases callee.define_or_other with ⟨name, body, rfl⟩ | undefining
  · cases happens
  · rw [reduce_app scope args undefining] at happens
    split at happens
    · rcases Outcome.ofStuckCallee_cases scope callee args (Sequence.reduce scope args) with
        ⟨param, body, rfl, -, takes⟩ | ⟨rfl, -, prints⟩ | ⟨-, -, leaves⟩
      · rw [takes] at happens
        cases happens
      · rw [prints] at happens
        cases happens
        exact .inr (.inl ⟨rfl, rfl⟩)
      · rw [leaves, Outcome.event?_within] at happens
        exact .inr (.inr happens)
    · rw [Outcome.event?_ofCallee] at happens
      exact .inl happens

theorem Scope.event?_receive {scope : Scope} {event : Event}
    (happens : scope.receive.event? = some event) : ∃ line, event = .received line := by
  unfold receive at happens
  split at happens
  · cases happens
  · rename_i line pending
    refine ⟨line, ?_⟩
    split at happens
    · cases happens
      rfl
    · cases happens
      rfl

/-- Only an application prints. -/
theorem Term.exists_app_of_event {term : Term}
    (happens : (Term.reduce scope term).event? = some (.printed printed)) :
    ∃ callee args, term = .app callee args := by
  cases term with
  | name text =>
      unfold Term.reduce at happens
      split at happens
      · obtain ⟨line, same⟩ := Scope.event?_receive happens
        cases same
      · split at happens
        · cases happens
        · cases happens
  | literal raw => cases happens
  | lam param body =>
      unfold Term.reduce at happens
      split at happens
      · cases happens
      · cases happens
  | define name body =>
      unfold Term.reduce at happens
      split at happens
      · cases happens
      · cases happens
  | app callee args => exact ⟨callee, args, rfl⟩

theorem Sequence.holds_cons_of_event {head : Term} {tail : List Term} {term : Term}
    (happens : (Sequence.reduce scope (head :: tail)).event? = some (.printed printed))
    (ofHead : ∀ callee args, head = .app callee args →
      (Term.reduce scope head).event? = some (.printed printed) → Holds [head] term)
    (ofTail : (Sequence.reduce scope tail).event? = some (.printed printed) → Holds tail term) :
    Holds (head :: tail) term := by
  rw [reduce_cons] at happens
  rcases Outcome.event?_beside happens with inHead | inTail
  · obtain ⟨callee, args, same⟩ := Term.exists_app_of_event inHead
    exact (ofHead callee args same inHead).beside [] tail
  · simpa [Holds] using (ofTail inTail).beside [head] []

/-- What is printed stands in the sequence as an application of the printing name, also when the
reduction fails after it. -/
theorem Sequence.holds_of_printed {terms : List Term}
    (happens : (Sequence.reduce scope terms).event? = some (.printed printed)) :
    Sequence.Holds terms (.app (.name Word.print) printed) := by
  induction terms using Sequence.induction with
  | nil => cases happens
  | name text tail ih => exact holds_cons_of_event happens nofun ih
  | literal raw tail ih => exact holds_cons_of_event happens nofun ih
  | lam param body tail ofBody ih => exact holds_cons_of_event happens nofun ih
  | define name body tail ofBody ih => exact holds_cons_of_event happens nofun ih
  | app callee args tail ofCallee ofArgs ih =>
      refine holds_cons_of_event happens ?_ ih
      rintro _ _ ⟨⟩ inHead
      rw [reduce_singleton] at ofCallee
      rcases Term.event?_reduce_app inHead with inCallee | ⟨rfl, rfl⟩ | inArgs
      · exact (ofCallee inCallee).callee args
      · exact .here ⟨rfl, rfl⟩
      · exact (ofArgs inArgs).args callee

end Printing

/-! ## What may happen -/

/-- Whether an event may happen in a scope. -/
def Event.Allowed (scope : Scope) : Event → Prop
  | .defined name _ => scope.macros.contains name = false
  | .received line => scope.pending = some line
  | .printed args => args.all scope.isPrintable = true
  | .expanded _ | .expandedUnder _ | .substituted _ _ => True

theorem Contraction.allowed {scope : Scope} {event : Event} {binder : Option Text} {redex : Term}
    {result : List Term} (contracts : Contraction scope event binder redex result) :
    event.Allowed scope := by
  cases contracts with
  | definition fresh => exact fresh
  | expansion other known => exact True.intro
  | expansionUnder known => exact True.intro
  | reception pending read => exact pending
  | substitution => exact True.intro
  | printing printable => exact printable

/-- Nothing happens in a reduction that may not happen in its scope. -/
theorem Sequence.allowed_of_event {scope : Scope} {terms : List Term} {event : Event}
    (happens : (Sequence.reduce scope terms).event? = some event) : event.Allowed scope := by
  cases outcome : Sequence.reduce scope terms with
  | stuck =>
      rw [outcome] at happens
      cases happens
  | awaiting =>
      rw [outcome] at happens
      cases happens
  | changed other next =>
      rw [outcome] at happens
      cases happens
      obtain ⟨context, redex, result, -, -, contracts⟩ := reduce_replaces outcome
      exact contracts.allowed
  | failed earlier error =>
      rw [outcome] at happens
      cases happens
      cases failure_of_reduce outcome with
      | unreadable pending refused => exact pending
      | severalTerms undefining contracts count => exact contracts.allowed

end Splice
