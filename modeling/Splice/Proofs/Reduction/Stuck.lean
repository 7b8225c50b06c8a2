import Splice.Proofs.Reduction.Leftmost

/-!
# Stuck sequences

A sequence is stuck when each of its terms is, and a term when it is no redex and its parts are
stuck. Nothing else is looked at than the macros: the strategy tells which redex comes first, and
the pending line what becomes of the name that asks for it, but neither tells whether there is a
redex.
-/

namespace Splice

namespace Outcome

@[simp]
theorem within_eq_stuck_iff {rebuild : List Term → List Term} {outcome : Outcome} :
    outcome.within rebuild = .stuck ↔ outcome = .stuck := by
  cases outcome <;> simp

@[simp]
theorem beside_eq_stuck_iff {front back : List Term} {ofFront ofBack : Outcome} :
    beside front back ofFront ofBack = .stuck ↔ ofFront = .stuck ∧ ofBack = .stuck := by
  cases ofFront <;> simp [beside]

theorem ofCallee_ne_stuck {callee : Term} {args : List Term} {outcome : Outcome}
    (moves : outcome ≠ .stuck) : outcome.ofCallee callee args ≠ .stuck := by
  unfold ofCallee
  split
  · nofun
  · nofun
  · exact moves

end Outcome

theorem Scope.receive_ne_stuck (scope : Scope) : scope.receive ≠ .stuck := by
  unfold receive
  split
  · nofun
  · split
    · nofun
    · nofun

namespace Term

variable {scope : Scope}

theorem reduce_name_eq_stuck_iff (text : Text) :
    Term.reduce scope (.name text) = .stuck ↔
      text ≠ Word.input ∧ scope.macros.find? text = none := by
  rw [Term.reduce]
  by_cases asks : text = Word.input
  · rw [if_pos asks]
    simp [asks, scope.receive_ne_stuck]
  · rw [if_neg asks]
    cases scope.macros.find? text <;> simp [asks]

theorem reduce_lam_eq_stuck_iff (param : Text) (body : List Term) :
    Term.reduce scope (.lam param body) = .stuck ↔ Sequence.expand? scope.macros body = none := by
  rw [Term.reduce]
  cases Sequence.expand? scope.macros body <;> simp

theorem reduce_define_ne_stuck (name : Text) (body : List Term) :
    Term.reduce scope (.define name body) ≠ .stuck := by
  rw [Term.reduce]
  split
  · simp
  · simp

/-- An application is stuck when its parts are and the callee is neither a function nor the
printing name in front of what it can print. -/
theorem reduce_app_eq_stuck_iff (callee : Term) (args : List Term) :
    Term.reduce scope (.app callee args) = .stuck ↔
      Term.reduce scope callee = .stuck ∧ Sequence.reduce scope args = .stuck ∧
        (∀ param body, callee ≠ .lam param body) ∧
        (callee = .name Word.print → args.all scope.isPrintable = false) := by
  rcases callee.define_or_other with ⟨name, body, rfl⟩ | undefining
  · simp [Term.reduce.eq_5, reduce_define_ne_stuck]
  · rw [reduce_app scope args undefining]
    by_cases settled : Term.reduce scope callee = .stuck
    · rw [settled]
      dsimp only
      rcases Outcome.ofStuckCallee_cases scope callee args (Sequence.reduce scope args) with
        ⟨param, body, rfl, -, takes⟩ | ⟨rfl, printable, prints⟩ | ⟨unready, unprintable, leaves⟩
      · simp [takes, Outcome.substitution]
      · simp [prints, printable]
      · rw [leaves, Outcome.within_eq_stuck_iff]
        constructor
        · intro quiet
          refine ⟨rfl, quiet, ?_, unprintable⟩
          intro param body same
          exact (unready param body same).2.2 quiet
        · rintro ⟨-, quiet, -⟩
          exact quiet
    · constructor
      · intro quiet
        split at quiet
        · rename_i same
          exact absurd same settled
        · exact absurd quiet (Outcome.ofCallee_ne_stuck settled)
      · rintro ⟨same, -⟩
        exact absurd same settled

end Term

namespace Sequence

variable {scope : Scope}

theorem reduce_cons_eq_stuck_iff (head : Term) (tail : List Term) :
    reduce scope (head :: tail) = .stuck ↔
      Term.reduce scope head = .stuck ∧ reduce scope tail = .stuck := by
  rw [reduce_cons, Outcome.beside_eq_stuck_iff]

/-- Whether a sequence is stuck is told by the macros. -/
theorem reduce_eq_stuck_of_macros {other : Scope} {terms : List Term}
    (quiet : reduce scope terms = .stuck) (same : other.macros = scope.macros) :
    reduce other terms = .stuck := by
  have printable : other.isPrintable = scope.isPrintable := by
    funext term
    cases term <;> simp [Scope.isPrintable, same]
  induction terms using Sequence.induction with
  | nil => exact quiet
  | name text tail ih =>
      rw [reduce_cons_eq_stuck_iff, Term.reduce_name_eq_stuck_iff] at quiet ⊢
      rw [same]
      exact ⟨quiet.1, ih quiet.2⟩
  | literal raw tail ih =>
      rw [reduce_cons_eq_stuck_iff] at quiet ⊢
      exact ⟨rfl, ih quiet.2⟩
  | lam param body tail ofBody ih =>
      rw [reduce_cons_eq_stuck_iff, Term.reduce_lam_eq_stuck_iff] at quiet ⊢
      rw [same]
      exact ⟨quiet.1, ih quiet.2⟩
  | define name body tail ofBody ih =>
      rw [reduce_cons_eq_stuck_iff] at quiet
      exact absurd quiet.1 (Term.reduce_define_ne_stuck name body)
  | app callee args tail ofCallee ofArgs ih =>
      rw [reduce_cons_eq_stuck_iff, Term.reduce_app_eq_stuck_iff] at quiet ⊢
      rw [reduce_singleton, reduce_singleton] at ofCallee
      obtain ⟨⟨settled, given, unready, unprintable⟩, later⟩ := quiet
      rw [printable]
      exact ⟨⟨ofCallee settled, ofArgs given, unready, unprintable⟩, ih later⟩

end Sequence

theorem Term.reduce_eq_stuck_of_macros {scope other : Scope} {term : Term}
    (settled : Term.reduce scope term = .stuck) (same : other.macros = scope.macros) :
    Term.reduce other term = .stuck := by
  rw [← Sequence.reduce_singleton] at settled ⊢
  exact Sequence.reduce_eq_stuck_of_macros settled same

end Splice
