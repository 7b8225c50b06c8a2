import Splice.Proofs.Occurrence
import Splice.Proofs.Reduction.OneRedex

/-!
# What a reduction looks up

A reduction looks up names and the names of definitions that stand in the sequence, and nothing
else of the macros. So two tables that agree on these lead to the same reduction.
-/

namespace Splice

/-- Whether two tables have the same macro for a text, if the place of the text is one where it may
be looked up. -/
def MacroTable.AgreesAt (macros other : MacroTable) (role : Role) (text : Text) : Prop :=
  role = .name ∨ role = .definition → other.find? text = macros.find? text

/-- The same scope with other macros. -/
def Scope.knowing (scope : Scope) (macros : MacroTable) : Scope :=
  { scope with macros := macros }

section Lookup

variable {macros other : MacroTable} {scope : Scope}

theorem Sequence.expand?_cons_congr {head : Term} {tail : List Term}
    (ofHead : Term.expand? other head = Term.expand? macros head)
    (ofTail : Sequence.expand? other tail = Sequence.expand? macros tail) :
    Sequence.expand? other (head :: tail) = Sequence.expand? macros (head :: tail) := by
  rw [expand?, expand?, ofHead, ofTail]

/-- An expansion looks up nothing else than names. -/
theorem Sequence.expand?_congr {terms : List Term}
    (agree : Sequence.Every (macros.AgreesAt other) terms) :
    Sequence.expand? other terms = Sequence.expand? macros terms := by
  induction terms using Sequence.induction with
  | nil => rfl
  | name text tail ih =>
      rw [every_name] at agree
      exact expand?_cons_congr (agree.1 (.inl rfl)) (ih agree.2)
  | literal raw tail ih =>
      rw [every_literal] at agree
      exact expand?_cons_congr rfl (ih agree.2)
  | lam param body tail ofBody ih =>
      rw [every_lam] at agree
      refine expand?_cons_congr ?_ (ih agree.2.2)
      rw [Term.expand?, Term.expand?, ofBody agree.2.1]
  | define name body tail ofBody ih =>
      rw [every_define] at agree
      exact expand?_cons_congr rfl (ih agree.2.2)
  | app callee args tail ofCallee ofArgs ih =>
      rw [every_app] at agree
      refine expand?_cons_congr ?_ (ih agree.2.2)
      have alone := ofCallee agree.1
      rw [expand?_singleton, expand?_singleton] at alone
      rw [Term.expand?, Term.expand?, alone, ofArgs agree.2.1]

theorem Scope.all_isPrintable_congr {terms : List Term}
    (agree : Sequence.Every (scope.macros.AgreesAt other) terms) :
    terms.all (scope.knowing other).isPrintable = terms.all scope.isPrintable := by
  induction terms with
  | nil => rfl
  | cons head tail ih =>
      rw [List.all_cons, List.all_cons]
      cases head with
      | name text =>
          rw [Sequence.every_name] at agree
          have same : other.find? text = scope.macros.find? text := agree.1 (.inl rfl)
          rw [ih agree.2, isPrintable, isPrintable, MacroTable.contains, MacroTable.contains,
            knowing, same]
      | literal raw =>
          rw [Sequence.every_literal] at agree
          rw [ih agree.2]
          rfl
      | lam param body => rfl
      | define name body => rfl
      | app callee args => rfl

theorem Outcome.ofStuckCallee_congr (callee : Term) {args : List Term}
    (agree : Sequence.Every (scope.macros.AgreesAt other) args) (ofArgs : Outcome) :
    ofStuckCallee (scope.knowing other) callee args ofArgs =
      ofStuckCallee scope callee args ofArgs := by
  cases callee with
  | name text =>
      rw [ofStuckCallee, ofStuckCallee, Scope.all_isPrintable_congr agree]
  | literal raw => rfl
  | lam param body => rfl
  | define name body => rfl
  | app inner others => rfl

theorem Sequence.reduce_cons_congr {head : Term} {tail : List Term}
    (ofHead : Term.reduce (scope.knowing other) head = Term.reduce scope head)
    (ofTail : Sequence.reduce (scope.knowing other) tail = Sequence.reduce scope tail) :
    Sequence.reduce (scope.knowing other) (head :: tail) =
      Sequence.reduce scope (head :: tail) := by
  rw [reduce_cons, reduce_cons, ofHead, ofTail]

/-- A reduction looks up nothing else than names and the names of definitions. -/
theorem Sequence.reduce_congr {terms : List Term}
    (agree : Sequence.Every (scope.macros.AgreesAt other) terms) :
    Sequence.reduce (scope.knowing other) terms = Sequence.reduce scope terms := by
  induction terms using Sequence.induction with
  | nil => rfl
  | name text tail ih =>
      rw [every_name] at agree
      refine reduce_cons_congr ?_ (ih agree.2)
      have same : other.find? text = scope.macros.find? text := agree.1 (.inl rfl)
      rw [Term.reduce, Term.reduce, Scope.knowing, same]
      rfl
  | literal raw tail ih =>
      rw [every_literal] at agree
      exact reduce_cons_congr rfl (ih agree.2)
  | lam param body tail ofBody ih =>
      rw [every_lam] at agree
      refine reduce_cons_congr ?_ (ih agree.2.2)
      rw [Term.reduce, Term.reduce, Scope.knowing, expand?_congr agree.2.1]
  | define name body tail ofBody ih =>
      rw [every_define] at agree
      refine reduce_cons_congr ?_ (ih agree.2.2)
      have same : other.find? name = scope.macros.find? name := agree.1 (.inr rfl)
      rw [Term.reduce, Term.reduce, Scope.knowing, MacroTable.contains, MacroTable.contains, same]
  | app callee args tail ofCallee ofArgs ih =>
      rw [every_app] at agree
      refine reduce_cons_congr ?_ (ih agree.2.2)
      have alone := ofCallee agree.1
      rw [reduce_singleton, reduce_singleton] at alone
      rcases callee.define_or_other with ⟨name, body, rfl⟩ | undefining
      · rfl
      · rw [Term.reduce_app _ args undefining, Term.reduce_app _ args undefining, alone,
          ofArgs agree.2.1, Outcome.ofStuckCallee_congr callee agree.2.1]

end Lookup

end Splice
